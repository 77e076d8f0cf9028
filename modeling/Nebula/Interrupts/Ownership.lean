import Nebula.Interrupts.Timers

/-! A timer unblocks the process that its own interrupt blocked, as long as no pid has two of them. -/

namespace Nebula

open CText

/-- On the texts the kernel writes, the one-letter test for BLOCKED is exact. -/
theorem looksBlocked_iff {text : Bytes} (known : text ∈ knownStates) :
    looksBlocked text = true ↔ text = stateBlocked := by
  simp only [knownStates, List.mem_cons, List.not_mem_nil, or_false] at known
  rcases known with rfl | rfl | rfl | rfl <;> decide

namespace TimedKernel

/-- The timer of the interrupt that last put the process of a slot into BLOCKED. -/
def blocker (t : TimedKernel) (slot : Slot) : Option Nat := t.blockers.getD slot.val none

/-- The timer, waking up now, changes the process of a slot from BLOCKED to READY. -/
def Resolves (t : TimedKernel) (timer : Timer) (slot : Slot) : Prop :=
  slot.val < t.kernel.pcbs.count ∧ (t.kernel.pcb slot).state = stateBlocked ∧
    ((t.step (.fire timer.number)).kernel.pcb slot).state = stateReady

instance (t : TimedKernel) (timer : Timer) (slot : Slot) : Decidable (t.Resolves timer slot) :=
  inferInstanceAs (Decidable (_ ∧ _))

/-- Whichever timer wakes up now unblocks no process but the one that its interrupt blocked last. -/
def ResolvesOwn (t : TimedKernel) : Prop :=
  ∀ timer ∈ t.timers, ∀ slot, t.Resolves timer slot → t.blocker slot = some timer.number

/-- An interrupt finds no RUNNING process with its pid, or no timer that sleeps for the pid. -/
def NoTimerYet (t : TimedKernel) : TimedOp → Prop
  | .sendInterrupt pid =>
    t.kernel.findPcb (fun p => p.pid == pid && looksRunning p.state) = none ∨
      ∀ timer ∈ t.timers, timer.pid ≠ pid
  | _ => True

/-- No two timers are for the same pid, and a BLOCKED process has the timer of its own interrupt. -/
structure Owned (t : TimedKernel) : Prop where
  counted : Counted t
  known : t.kernel.KnownStates
  aligned : t.blockers.length = t.kernel.pcbs.entries.length
  alone : (t.timers.map Timer.pid).Nodup
  owned : ∀ row ∈ t.rows, looksBlocked row.2.state = true →
    ∃ timer ∈ t.timers, timer.pid = row.2.pid ∧ row.1 = some timer.number

theorem owned_boot (ramMb hddMb cores : Int) : Owned (boot ramMb hddMb cores) :=
  ⟨counted_boot ramMb hddMb cores, Kernel.knownStates_boot ramMb hddMb cores, rfl, List.nodup_nil,
    fun _ member => absurd member List.not_mem_nil⟩

/-- A sleeping timer that wakes up looks for a process with its pid. -/
theorem Counted.fire_kernel {t : TimedKernel} (counted : Counted t) {timer : Timer}
    (pending : timer ∈ t.timers) :
    (t.fire timer.number).kernel = t.kernel.unblockAfterDelay timer.pid := by
  unfold fire
  split
  · rename_i absent
    -- The timer itself has the number that is looked for.
    rw [List.find?_eq_none] at absent
    exact absurd (beq_self_eq_true _) (absent timer pending)
  · rename_i other found
    have numbered : other.number = timer.number := by simpa using List.find?_some found
    have same : other = timer :=
      List.inj_on_of_nodup_map counted.distinct (List.mem_of_find?_eq_some found) pending numbered
    rw [same]
    rfl

/-- The process a timer unblocks is the one that its search finds. -/
theorem resolves_iff {t : TimedKernel} (counted : Counted t) (known : t.kernel.KnownStates)
    {timer : Timer} (pending : timer ∈ t.timers) (slot : Slot) :
    t.Resolves timer slot ↔
      t.kernel.findPcb (fun p => p.pid == timer.pid && looksBlocked p.state) = some slot := by
  have after : (t.step (.fire timer.number)).kernel = t.kernel.unblockAfterDelay timer.pid :=
    counted.fire_kernel pending
  unfold Resolves
  rw [after]
  constructor
  · intro ⟨live, blocked, ready⟩
    have apart : stateBlocked ≠ stateReady := by decide
    cases found : t.kernel.findPcb fun p => p.pid == timer.pid && looksBlocked p.state with
    | none =>
      -- Nothing has changed.
      rw [unblock_none found, blocked] at ready
      exact absurd ready apart
    | some other =>
      by_contra elsewhere
      have apart' : ¬ other = slot := fun same => elsewhere (congrArg some same)
      rw [Kernel.pcb, unblock_some found, SlotArray.get_set, if_neg apart'] at ready
      exact apart (blocked.symm.trans ready)
  · intro found
    obtain ⟨live, passes⟩ := Kernel.findPcb_some found
    have passes' : looksBlocked (t.kernel.pcb slot).state = true := by
      simp only [Bool.and_eq_true] at passes
      exact passes.2
    refine ⟨live, (looksBlocked_iff ?_).mp passes', ?_⟩
    · exact known _ (SlotArray.mem_entries.mpr ⟨slot, live, rfl⟩)
    · rw [Kernel.pcb, unblock_some found, SlotArray.get_set, if_pos rfl]
      exact copyInto_states.1

/-- A live process has a row with its blocker. -/
theorem mem_rows {t : TimedKernel} (aligned : t.blockers.length = t.kernel.pcbs.entries.length)
    {slot : Slot} (live : slot.val < t.kernel.pcbs.count) :
    (t.blocker slot, t.kernel.pcb slot) ∈ t.rows := by
  -- Slot by slot, the blockers stand beside the processes.
  have here : slot.val < t.kernel.pcbs.entries.length := by simpa using live
  have inside : slot.val < t.rows.length := by
    rw [rows, List.length_zip, aligned]
    simpa using live
  have row : t.rows[slot.val] = (t.blocker slot, t.kernel.pcb slot) := by
    have entry : t.kernel.pcbs.entries[slot.val] = t.kernel.pcb slot :=
      (List.getElem_eq_iff here).mpr (t.kernel.pcbs.getElem?_entries slot live)
    simp only [rows, List.getElem_zip, entry, blocker]
    rw [List.getD_eq_getElem?_getD, List.getElem?_eq_getElem (by rw [aligned]; exact here),
      Option.getD_some]
  rw [← row]
  exact List.getElem_mem inside

/-- Timers that are alone for their pids unblock the processes of their own interrupts. -/
theorem Owned.resolvesOwn {t : TimedKernel} (inv : Owned t) : ResolvesOwn t := by
  intro timer pending slot resolves
  rw [resolves_iff inv.counted inv.known pending] at resolves
  obtain ⟨live, passes⟩ := Kernel.findPcb_some resolves
  simp only [Bool.and_eq_true, beq_iff_eq] at passes
  obtain ⟨own, slept, named, numbered⟩ := inv.owned _ (mem_rows inv.aligned live) passes.2
  -- Both timers are for the pid of the process.
  have same : own = timer :=
    List.inj_on_of_nodup_map inv.alone slept pending (named.trans passes.1)
  rw [← same]
  exact numbered

/-- The kernel takes a step of its own or none, so its states stay known. -/
theorem knownStates_step {t : TimedKernel} (known : t.kernel.KnownStates) (op : TimedOp) :
    (t.step op).kernel.KnownStates := by
  -- Each way to a step of the kernel is one of its own operations.
  cases op with
  | sendInterrupt pid =>
    unfold step interrupt
    dsimp only
    split
    · exact known
    · exact known.step (.sendInterrupt pid)
  | fire number =>
    unfold step fire
    dsimp only
    split
    · exact known
    · rename_i timer _
      exact known.step (.unblockAfterDelay timer.pid)
  | _ => exact known.step _

/-- Rows that change calmly leave every BLOCKED process with the blocker it had. -/
theorem blocked_before {t t' : TimedKernel} (blockers : t'.blockers = t.blockers)
    (rows : List.Forall₂ Calm t.kernel.pcbs.entries t'.kernel.pcbs.entries) {row : Option Nat × Process}
    (member : row ∈ t'.rows) (blocked : looksBlocked row.2.state = true) :
    ∃ old ∈ t.rows, looksBlocked old.2.state = true ∧ old.2.pid = row.2.pid ∧ old.1 = row.1 := by
  -- The row has an old row in its place, with the same blocker.
  rw [TimedKernel.rows, blockers] at member
  obtain ⟨old, listed, same, calm⟩ :=
    Tagged.exists_before (Tagged.zip_forall₂ rows t.blockers) member
  exact ⟨old, listed, calm.2 blocked, calm.1.symm, same.symm⟩

/-- A step that meets the condition keeps every timer alone and every BLOCKED process its own timer. -/
theorem Owned.step {t : TimedKernel} (inv : Owned t) (op : TimedOp) (met : NoTimerYet t op) :
    Owned (t.step op) := by
  have counted := inv.counted.step op
  have known := knownStates_step inv.known op
  cases t.step_turn op with
  | keeps timers started blockers rows =>
    refine ⟨counted, known, ?_, by rw [timers]; exact inv.alone, fun row member blocked => ?_⟩
    · rw [blockers, inv.aligned, rows.length_eq]
    · obtain ⟨old, listed, was, named, same⟩ := blocked_before blockers rows member blocked
      rw [timers, ← named, ← same]
      exact inv.owned old listed was
  | adds p ready timers started blockers rows =>
    refine ⟨counted, known, ?_, by rw [timers]; exact inv.alone, fun row member blocked => ?_⟩
    · rw [blockers, rows, List.length_append, List.length_append, inv.aligned]
      rfl
    · rw [TimedKernel.rows, blockers, rows, Tagged.zip_snoc inv.aligned, List.mem_append,
        List.mem_singleton] at member
      rw [timers]
      rcases member with old | rfl
      · exact inv.owned row old blocked
      · -- The new process is READY.
        rw [ready, looksBlocked_states.1] at blocked
        cases blocked
  | drops index timers started blockers rows =>
    refine ⟨counted, known, ?_, by rw [timers]; exact inv.alone, fun row member blocked => ?_⟩
    · rw [blockers, rows, List.length_eraseIdx, List.length_eraseIdx, inv.aligned]
    · rw [TimedKernel.rows, blockers, rows, Tagged.zip_eraseIdx] at member
      rw [timers]
      exact inv.owned row (List.mem_of_mem_eraseIdx member) blocked
  | blocks slot live p asked found blocked timers started blockers rows =>
    -- The search has found a process, so no timer sleeps for its pid yet.
    have fresh : ∀ timer ∈ t.timers, timer.pid ≠ p.pid := by
      rw [asked] at met
      exact met.resolve_left (by rw [found]; simp)
    refine ⟨counted, known, ?_, ?_, fun row member passes => ?_⟩
    · rw [blockers, rows, List.length_set, List.length_set, inv.aligned]
    · rw [timers]
      exact Tagged.nodup_map_snoc inv.alone fresh
    · rw [TimedKernel.rows, blockers, rows, Tagged.zip_set] at member
      rw [timers]
      rcases List.mem_or_eq_of_mem_set member with old | rfl
      · obtain ⟨timer, slept, owns⟩ := inv.owned row old passes
        exact ⟨timer, List.mem_append_left _ slept, owns⟩
      · exact ⟨_, List.mem_append_right _ (List.mem_singleton_self _), rfl, rfl⟩
  | wakes timer pending timers started blockers kernel =>
    have calm := t.kernel.calm_unblock timer.pid
    rw [← kernel] at calm
    refine ⟨counted, known, ?_, ?_, fun row member blocked => ?_⟩
    · rw [blockers, inv.aligned, calm.length_eq]
    · rw [timers]
      exact inv.alone.sublist (List.filter_sublist.map _)
    · obtain ⟨old, listed, was, named, same⟩ := blocked_before blockers calm member blocked
      obtain ⟨own, slept, ownNamed, numbered⟩ := inv.owned old listed was
      refine ⟨own, ?_, ownNamed.trans named, same.symm.trans numbered⟩
      rw [timers, List.mem_filter, bne_iff_ne]
      refine ⟨slept, fun woken => ?_⟩
      -- Otherwise the only timer for the pid has woken up, and a process with it is still BLOCKED.
      have same' : own = timer := List.inj_on_of_nodup_map inv.counted.distinct slept pending woken
      have listed' : row.2 ∈ (t.step op).kernel.pcbs.entries := (List.of_mem_zip member).2
      have counts : 0 < (t.step op).blockedCount row.2.pid :=
        List.countP_pos_iff.mpr ⟨row.2, listed', by simp [blocked]⟩
      obtain ⟨other, awake, otherNamed⟩ := List.countP_pos_iff.mp
        (Nat.lt_of_lt_of_le counts (counted.enough row.2.pid))
      rw [timers, List.mem_filter, bne_iff_ne] at awake
      have otherPid : other.pid = timer.pid := by
        rw [← same', ownNamed, named]
        simpa using otherNamed
      exact awake.2 (congrArg Timer.number
        (List.inj_on_of_nodup_map inv.alone awake.1 pending otherPid))

/-- The process an interrupt finds stays where it is and is BLOCKED. -/
theorem sendInterrupt_blocks {k : Kernel} {pid : Int} {slot : Slot}
    (running : k.findPcb (fun p => p.pid == pid && looksRunning p.state) = some slot) :
    slot.val < (k.sendInterrupt pid).pcbs.count ∧ ((k.sendInterrupt pid).pcb slot).pid = pid ∧
      ((k.sendInterrupt pid).pcb slot).state = stateBlocked := by
  obtain ⟨live, passes⟩ := Kernel.findPcb_some running
  simp only [Bool.and_eq_true, beq_iff_eq] at passes
  simp only [Kernel.sendInterrupt, running, Kernel.stopped_eq, Kernel.pcb, SlotArray.count_set,
    SlotArray.get_set, if_pos]
  exact ⟨live, passes.1, copyInto_states.2.2.1⟩

/-- A step after which timers unblock only their own processes has met the condition. -/
theorem Owned.noTimerYet {t : TimedKernel} (inv : Owned t) (op : TimedOp)
    (after : ResolvesOwn (t.step op)) : NoTimerYet t op := by
  cases op with
  | sendInterrupt pid =>
    cases running : t.kernel.findPcb fun p => p.pid == pid && looksRunning p.state with
    | none => exact Or.inl running
    | some slot =>
      refine Or.inr fun timer pending named => ?_
      have interrupted : t.step (.sendInterrupt pid) =
          { kernel := t.kernel.step (.sendInterrupt pid), timers := t.timers ++ [⟨t.started, pid⟩],
            started := t.started + 1, blockers := t.blockers.set slot.val (some t.started) } := by
        simp only [TimedKernel.step, interrupt, running]
      have counted := inv.counted.step (.sendInterrupt pid)
      have known := knownStates_step inv.known (.sendInterrupt pid)
      rw [interrupted] at after counted known
      -- The process is BLOCKED now, so both timers find some process to unblock.
      cases found : (t.kernel.step (.sendInterrupt pid)).findPcb
        fun p => p.pid == pid && looksBlocked p.state with
      | none =>
        obtain ⟨stays, named', blocked⟩ := sendInterrupt_blocks running
        have absent := Kernel.findPcb_none.mp found slot stays
        rw [Kernel.step, named', blocked, looksBlocked_states.2.2.1] at absent
        simp at absent
      | some blocked =>
        have mine := after timer (List.mem_append_left _ pending) blocked
          ((resolves_iff counted known (List.mem_append_left _ pending) blocked).mpr
            (by rw [named]; exact found))
        have new : (⟨t.started, pid⟩ : Timer) ∈ t.timers ++ [⟨t.started, pid⟩] :=
          List.mem_append_right _ (List.mem_singleton_self _)
        have other := after _ new blocked
          ((resolves_iff counted known new blocked).mpr found)
        -- Only one of the two can be the timer of the last interrupt.
        have same : timer.number = t.started := Option.some.inj (mine.symm.trans other)
        exact absurd (inv.counted.older timer pending) (by omega)
  | _ => trivial

/--
Throughout a run, no timer would unblock a process that another interrupt blocked last, exactly when
no interrupt of the run blocks a process while a timer sleeps for the pid.
-/
theorem resolvesOwn_throughout_iff (ramMb hddMb cores : Int) (ops : List TimedOp) :
    Machine.Throughout step ResolvesOwn (boot ramMb hddMb cores) ops ↔
      Machine.EachStep step NoTimerYet (boot ramMb hddMb cores) ops := by
  have enough : ∀ t, Owned t → ResolvesOwn t := fun _ inv => inv.resolvesOwn
  have kept : ∀ t op, Owned t → NoTimerYet t op → Owned (step t op) :=
    fun _ op inv met => inv.step op met
  have needed : ∀ t op, Owned t → ResolvesOwn (step t op) → NoTimerYet t op :=
    fun _ op inv after => inv.noTimerYet op after
  exact Machine.throughout_iff_met enough kept needed (owned_boot ramMb hddMb cores) ops

/-- A process that is minimised and resumed while its timer sleeps is unblocked too early the next time. -/
theorem stale_timer_resolves_next_interrupt :
    ¬ ResolvesOwn (Machine.run step (boot 1024 1024 1)
      [.createPcb 101 (ascii "Notepad") 3 20 2, .schedulerTick, .sendInterrupt 101, .sendMinimize 101,
        .sendResume 101, .sendInterrupt 101]) := by
  intro own
  have early := own ⟨0, 101⟩ (by decide +kernel) ⟨0, by decide⟩ (by decide +kernel)
  revert early
  decide +kernel

end TimedKernel

end Nebula
