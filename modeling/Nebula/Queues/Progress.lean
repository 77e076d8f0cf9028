import Nebula.Queues.Service

/-! No READY process is left behind by the rounds of the two loops, however they alternate. -/

namespace Nebula

open CText

/-- A round of scheduler_loop or of aging_loop. -/
inductive Round where
  | scheduler
  | aging
  deriving DecidableEq

def Round.toKernelOp : Round → KernelOp
  | .scheduler => .schedulerTick
  | .aging => .agingTick

namespace Roster

/-- The list after some rounds. -/
def rounds (r : Roster) (list : List Round) : Roster := Machine.run step r (list.map Round.toKernelOp)

/-- How many processes are READY, in line or not. -/
def readyCount (r : Roster) : Nat := r.rows.countP fun p => looksReady p.state

theorem ready_iff {r : Roster} {place : Nat} :
    r.ready place = true ↔ ∃ p, r.rows[place]? = some p ∧ looksReady p.state = true := by
  rw [ready, Option.any_eq_true]

/-- The next one is READY. -/
theorem ready_of_next {r : Roster} {place : Nat} (next : r.next = some place) : r.ready place = true :=
  List.find?_some next

/-- A tick that finds somebody leaves one less who is READY. -/
theorem readyCount_serve {r : Roster} {place : Nat} (next : r.next = some place) :
    r.serve.readyCount + 1 = r.readyCount := by
  obtain ⟨p, row, ready⟩ := ready_iff.mp (ready_of_next next)
  obtain ⟨inside, here⟩ := List.getElem?_eq_some_iff.mp row
  have some_ready : 0 < r.rows.countP fun p => looksReady p.state :=
    List.countP_pos_iff.mpr ⟨p, here ▸ List.getElem_mem inside, ready⟩
  have running : looksReady (r.dispatched p).state = false := by simp [dispatched, Process.setState]
  rw [readyCount, readyCount, serve_rows next, List.modify_eq_set_get _ inside, List.countP_set inside]
  simp only [List.get_eq_getElem, here, ready, running, ↓reduceIte, Bool.false_eq_true]
  omega

theorem age_rows (r : Roster) : r.age.rows = r.rows.map fun p => (ageProcess p).1 := by
  unfold age
  dsimp only
  split <;> rfl

/-- Aging leaves the states as they are. -/
theorem ageProcess_state (p : Process) : (ageProcess p).1.state = p.state := by
  rw [Kernel.ageProcess_keeps]

@[simp] theorem ready_age (r : Roster) (place : Nat) : r.age.ready place = r.ready place := by
  simp only [ready, age_rows, List.getElem?_map, Option.any_map, ageProcess_state]

@[simp] theorem readyCount_age (r : Roster) : r.age.readyCount = r.readyCount := by
  rw [readyCount, readyCount, age_rows, List.countP_map]
  exact List.countP_congr fun p _ => by rw [Function.comp_apply, ageProcess_state]

/-- Whoever is in the list is in a line once all lines have formed anew. -/
theorem mem_queued_lineUp {r : Roster} {place : Nat} (inside : place < r.rows.length) :
    place ∈ r.lineUp.queued := by
  -- He is in the line of the level that he has.
  have own : place ∈ r.lineUp.line (r.rows[place]).queueLevel := by
    simp [lineUp, inside]
  simp only [queued, List.mem_append]
  cases level : (r.rows[place]).queueLevel <;> rw [level] at own <;> simp [own]

/-- Aging takes nobody out of the lines. -/
theorem mem_queued_age {r : Roster} {place : Nat} (inside : place < r.rows.length)
    (queued : place ∈ r.queued) : place ∈ r.age.queued := by
  unfold age
  dsimp only
  split
  · exact mem_queued_lineUp (by simpa using inside)
  · exact queued

theorem lt_of_ready {r : Roster} {place : Nat} (ready : r.ready place = true) : place < r.rows.length := by
  obtain ⟨p, row, -⟩ := ready_iff.mp ready
  exact (List.getElem?_eq_some_iff.mp row).1

/-- One who waits goes on waiting, or is dispatched. -/
theorem waits_step {r : Roster} {place : Nat} (waits : place ∈ r.waiting) (round : Round) :
    place ∈ (r.step round.toKernelOp).waiting ∨ (r.step round.toKernelOp).ready place = false := by
  cases round with
  | scheduler =>
    show place ∈ r.serve.waiting ∨ r.serve.ready place = false
    cases next : r.next with
    | none =>
      rw [serve_idle next]
      exact Or.inl waits
    | some first =>
      -- Only the first of those who wait is taken from them.
      rw [ready_serve next, waiting_serve]
      rw [next_eq] at next
      obtain ⟨rest, list⟩ := List.head?_eq_some_iff.mp next
      rw [list, List.mem_cons] at waits
      rw [list, List.tail_cons]
      rcases waits with rfl | behind
      · exact Or.inr (by simp)
      · exact Or.inl behind
  | aging =>
    refine Or.inl (mem_waiting.mpr ?_)
    obtain ⟨queued, ready⟩ := mem_waiting.mp waits
    exact ⟨mem_queued_age (lt_of_ready ready) queued, (ready_age r place).trans ready⟩

/-- Nobody becomes READY in a round. -/
theorem unready_step {r : Roster} {place : Nat} (unready : r.ready place = false) (round : Round) :
    (r.step round.toKernelOp).ready place = false := by
  cases round with
  | scheduler =>
    show r.serve.ready place = false
    cases next : r.next with
    | none => rw [serve_idle next, unready]
    | some first => rw [ready_serve next, unready, Bool.false_and]
  | aging => exact (ready_age r place).trans unready

theorem unready_rounds {r : Roster} {place : Nat} (unready : r.ready place = false) (list : List Round) :
    (r.rounds list).ready place = false := by
  induction list generalizing r with
  | nil => exact unready
  | cons round rest ih => exact ih (unready_step unready round)

/-- Over any rounds, one who waits goes on waiting or is dispatched. -/
theorem waits_rounds {r : Roster} {place : Nat} (waits : place ∈ r.waiting) (list : List Round) :
    place ∈ (r.rounds list).waiting ∨ (r.rounds list).ready place = false := by
  induction list generalizing r with
  | nil => exact Or.inl waits
  | cons round rest ih =>
    rcases waits_step waits round with still | done
    · exact ih still
    · exact Or.inr (unready_rounds done rest)

/-- No round makes more processes READY. -/
theorem readyCount_rounds (r : Roster) (list : List Round) : (r.rounds list).readyCount ≤ r.readyCount := by
  induction list generalizing r with
  | nil => exact Nat.le_refl _
  | cons round rest ih =>
    refine (ih _).trans ?_
    cases round with
    | scheduler =>
      show r.serve.readyCount ≤ r.readyCount
      cases next : r.next with
      | none => rw [serve_idle next]
      | some place => exact Nat.le_of_succ_le (Nat.le_of_eq (readyCount_serve next))
    | aging => exact Nat.le_of_eq r.readyCount_age

/-- One who waits is dispatched at the latest when there were as many ticks as READY processes. -/
theorem served_of_waiting {r : Roster} {place : Nat} (waits : place ∈ r.waiting) {list : List Round}
    (enough : r.readyCount ≤ list.count .scheduler) : (r.rounds list).ready place = false := by
  -- Each tick takes one of the READY processes away, and he would be the last of them.
  induction list generalizing r with
  | nil =>
    obtain ⟨p, row, ready⟩ := ready_iff.mp (mem_waiting.mp waits).2
    obtain ⟨inside, here⟩ := List.getElem?_eq_some_iff.mp row
    have some_ready : 0 < r.rows.countP fun p => looksReady p.state :=
      List.countP_pos_iff.mpr ⟨p, here ▸ List.getElem_mem inside, ready⟩
    exact absurd some_ready (Nat.not_lt.mpr enough)
  | cons round rest ih =>
    rcases waits_step waits round with still | done
    · refine ih still ?_
      cases round with
      | scheduler =>
        obtain ⟨first, next⟩ : ∃ first, r.next = some first := by
          rw [next_eq, ← Option.isSome_iff_exists, List.isSome_head?]
          exact List.ne_nil_of_mem waits
        have fewer := readyCount_serve next
        rw [List.count_cons_self] at enough
        show r.serve.readyCount ≤ _
        omega
      | aging =>
        rw [List.count_cons_of_ne (by decide)] at enough
        exact (Nat.le_of_eq r.readyCount_age).trans enough
    · exact unready_rounds done rest

end Roster

/-- The aging ticks after which an interactive process is promoted, if it is READY throughout. -/
def Process.patience (p : Process) : Nat :=
  match p.queueLevel with
  | .interactive => agingInterval * max p.priority.toNat 1 - p.waitTime % agingInterval
  | _ => 0

theorem Process.patience_interactive {p : Process} (interactive : p.queueLevel = .interactive) :
    p.patience = 5 * max p.priority.toNat 1 - p.waitTime % 5 := by
  rw [patience, interactive]
  rfl

/-- A READY process is one that ages, unless it is at the system level. -/
theorem looksAging_of_ready {text : Bytes} (ready : looksReady text = true) : looksAging text = true := by
  unfold looksReady at ready
  exact (Bool.and_eq_true_iff.mp ready).1

/-- An aging tick promotes an interactive process, or brings its promotion one tick nearer. -/
theorem patience_aged {p : Process} (ready : looksReady p.state = true)
    (interactive : p.queueLevel = .interactive) (positive : 0 ≤ p.priority) :
    (ageProcess p).2 = true ∨ (ageProcess p).1.queueLevel = .interactive ∧
      0 ≤ (ageProcess p).1.priority ∧ (ageProcess p).1.patience + 1 = p.patience := by
  have ages : Ages p := ⟨looksAging_of_ready ready, by simp [interactive]⟩
  have wait := ageProcess_wait ages
  have priority := ageProcess_priority ages
  have level := ageProcess_queueLevel ages
  simp only [interactive, reduceCtorEq, and_false, ↓reduceIte, and_true] at level
  by_cases due : (p.waitTime + 1) % 5 = 0
  · simp only [due, true_and, ↓reduceIte] at priority level
    by_cases promoted : (ageProcess p).1.priority = 0
    · rw [if_pos promoted] at level
      exact Or.inl ((Kernel.ageProcess_flag p).mpr (by rw [level, interactive]; decide))
    · -- The priority has gone down by one, which is five ticks.
      rw [if_neg promoted] at level
      refine Or.inr ⟨level, ?_, ?_⟩
      · split at priority <;> omega
      · rw [Process.patience_interactive level, Process.patience_interactive interactive, wait]
        split at priority <;> omega
  · simp only [due, false_and, ↓reduceIte] at priority level
    refine Or.inr ⟨level, by omega, ?_⟩
    rw [Process.patience_interactive level, Process.patience_interactive interactive, wait, priority]
    omega

namespace Roster

/-- A level that changes has everybody line up. -/
theorem mem_queued_age_of_flag {r : Roster} {place : Nat} {p : Process} (row : r.rows[place]? = some p)
    {other : Process} (member : other ∈ r.rows) (flag : (ageProcess other).2 = true) :
    place ∈ r.age.queued := by
  have inside := (List.getElem?_eq_some_iff.mp row).1
  have raised : (r.rows.any fun p => (ageProcess p).2) = true := List.any_eq_true.mpr ⟨other, member, flag⟩
  unfold age
  dsimp only
  rw [if_pos raised]
  exact mem_queued_lineUp (by simpa using inside)

/-- An interactive process that is in no line gets into one by the time of its promotion. -/
theorem waits_in_time {r : Roster} {place : Nat} {p : Process} (row : r.rows[place]? = some p)
    (ready : looksReady p.state = true) (interactive : p.queueLevel = .interactive)
    (positive : 0 ≤ p.priority) {list : List Round} (enough : p.patience ≤ list.count .aging) :
    place ∈ (r.rounds list).waiting ∨ (r.rounds list).ready place = false := by
  induction list generalizing r p with
  | nil =>
    -- A promotion is at least one tick away.
    rw [Process.patience_interactive interactive] at enough
    simp only [List.count_nil] at enough
    omega
  | cons round rest ih =>
    cases round with
    | scheduler =>
      rw [List.count_cons_of_ne (by decide)] at enough
      by_cases served : r.next = some place
      · refine Or.inr (unready_rounds (r := r.serve) ?_ rest)
        simp [ready_serve served]
      · -- A tick that serves another leaves the row as it is.
        refine ih (r := r.serve) ?_ ready interactive positive enough
        cases next : r.next with
        | none => rw [serve_idle next, row]
        | some first =>
          have apart : first ≠ place := fun same => served (same ▸ next)
          rw [serve_rows next, List.getElem?_modify_ne _ _ apart, row]
    | aging =>
      rw [List.count_cons_self] at enough
      rcases patience_aged ready interactive positive with flag | ⟨level, positive', nearer⟩
      · -- He has been promoted, and everybody has lined up.
        refine waits_rounds (r := r.age) (mem_waiting.mpr ⟨?_, ?_⟩) rest
        · exact mem_queued_age_of_flag row (List.mem_of_getElem? row) flag
        · rw [ready_age]
          exact ready_iff.mpr ⟨p, row, ready⟩
      · refine ih (r := r.age) (p := (ageProcess p).1) ?_ ?_ level positive' (by omega)
        · rw [age_rows, List.getElem?_map, row, Option.map_some]
        · rw [ageProcess_state]
          exact ready

/-- Rounds add and remove nobody. -/
theorem length_rounds (r : Roster) (list : List Round) : (r.rounds list).rows.length = r.rows.length := by
  induction list generalizing r with
  | nil => rfl
  | cons round rest ih =>
    refine (ih _).trans ?_
    cases round with
    | scheduler => exact r.serve_length
    | aging => exact (congrArg List.length r.age_rows).trans (List.length_map _)

/-- A round leaves the state of a process or makes it RUNNING. -/
theorem state_rounds {r : Roster} {place : Nat} {p : Process} (row : r.rows[place]? = some p)
    (list : List Round) : ∃ after, (r.rounds list).rows[place]? = some after ∧
      (after.state = p.state ∨ after.state = stateRunning) := by
  induction list generalizing r p with
  | nil => exact ⟨p, row, Or.inl rfl⟩
  | cons round rest ih =>
    have next : ∃ after, (r.step round.toKernelOp).rows[place]? = some after ∧
        (after.state = p.state ∨ after.state = stateRunning) := by
      cases round with
      | scheduler =>
        show ∃ after, r.serve.rows[place]? = some after ∧ _
        cases next : r.next with
        | none => exact ⟨p, by rw [serve_idle next, row], Or.inl rfl⟩
        | some first =>
          rw [serve_rows next]
          by_cases here : first = place
          · subst here
            rw [List.getElem?_modify_eq, row]
            exact ⟨r.dispatched p, rfl, Or.inr (by simp [dispatched, Process.setState])⟩
          · rw [List.getElem?_modify_ne _ _ here]
            exact ⟨p, row, Or.inl rfl⟩
      | aging =>
        refine ⟨(ageProcess p).1, ?_, Or.inl (ageProcess_state p)⟩
        show r.age.rows[place]? = _
        rw [age_rows, List.getElem?_map, row, Option.map_some]
    obtain ⟨after, row', state⟩ := next
    obtain ⟨last, lastRow, lastState⟩ := ih row'
    refine ⟨last, lastRow, ?_⟩
    rcases lastState with same | running
    · rw [same]
      exact state
    · exact Or.inr running

end Roster

namespace Kernel

/-- The kernel after some rounds of the two loops. -/
def rounds (k : Kernel) (list : List Round) : Kernel := Machine.run step k (list.map Round.toKernelOp)

/-- How many processes are READY, queued or not. -/
def readyCount (k : Kernel) : Nat := k.pcbs.entries.countP fun p => looksReady p.state

/-- A READY process below the system level is in its queue, unless it is interactive. -/
theorem mem_queued {k : Kernel} (ordered : InTableOrder k) {slot : Slot} (live : slot.val < k.pcbs.count)
    (other : (k.pcb slot).queueLevel ≠ .interactive) : slot.val ∈ k.roster.queued := by
  have own : slot ∈ (k.queue (k.pcb slot).queueLevel).toList := by
    rw [ordered _ other]
    exact mem_slotsAt.mpr ⟨live, rfl⟩
  have place : slot.val ∈ k.roster.line (k.pcb slot).queueLevel := List.mem_map_of_mem own
  simp only [Roster.queued, List.mem_append]
  cases level : (k.pcb slot).queueLevel <;> rw [level] at place <;> simp [place]

theorem roster_rounds {k : Kernel} (filed : Filed k) (list : List Round) :
    (k.rounds list).roster = k.roster.rounds list :=
  (roster_run filed _).1

/-- After some rounds a process is in its slot, in the state that it was in or RUNNING. -/
theorem rounds_pcb {k : Kernel} (filed : Filed k) {slot : Slot} (live : slot.val < k.pcbs.count)
    (list : List Round) : slot.val < (k.rounds list).pcbs.count ∧
      (((k.rounds list).pcb slot).state = (k.pcb slot).state ∨
        ((k.rounds list).pcb slot).state = stateRunning) := by
  obtain ⟨last, row, state⟩ := Roster.state_rounds (k.roster_row live) list
  rw [← roster_rounds filed] at row
  have live' : slot.val < (k.rounds list).pcbs.count := by
    simpa using (List.getElem?_eq_some_iff.mp row).1
  rw [roster_row _ live', Option.some.injEq] at row
  exact ⟨live', row ▸ state⟩

/-- Rounds add and remove nobody. -/
theorem rounds_count {k : Kernel} (filed : Filed k) (list : List Round) :
    (k.rounds list).pcbs.count = k.pcbs.count := by
  have length := congrArg (fun r => r.rows.length) (roster_rounds filed list)
  simpa [Roster.length_rounds] using length

/-- A READY process that is queued or will be promoted in time runs after enough rounds. -/
theorem runs_after_rounds {k : Kernel} (filed : Filed k) (ordered : InTableOrder k) {slot : Slot}
    {before after : List Round} (live : slot.val < k.pcbs.count) (ready : (k.pcb slot).state = stateReady)
    (positive : (k.pcb slot).queueLevel = .interactive → 0 ≤ (k.pcb slot).priority)
    (ages : (k.pcb slot).patience ≤ before.count .aging)
    (serves : k.readyCount ≤ after.count .scheduler) :
    ((k.rounds (before ++ after)).pcb slot).state = stateRunning := by
  have row := k.roster_row live
  have passes : looksReady (k.pcb slot).state = true := by simp [ready]
  have isReady : k.roster.ready slot.val = true := Roster.ready_iff.mpr ⟨_, row, passes⟩
  have split : k.roster.rounds (before ++ after) = (k.roster.rounds before).rounds after := by
    simp only [Roster.rounds, List.map_append, Machine.run_append]
  -- After the first rounds it waits in a line, or has been dispatched.
  have waits : slot.val ∈ (k.roster.rounds before).waiting ∨ (k.roster.rounds before).ready slot.val = false := by
    by_cases interactive : (k.pcb slot).queueLevel = .interactive
    · exact Roster.waits_in_time row passes interactive (positive interactive) ages
    · exact Roster.waits_rounds (Roster.mem_waiting.mpr ⟨mem_queued ordered live interactive, isReady⟩) before
  have done : (k.roster.rounds (before ++ after)).ready slot.val = false := by
    rw [split]
    rcases waits with waiting | unready
    · exact Roster.served_of_waiting waiting ((k.roster.readyCount_rounds before).trans serves)
    · exact Roster.unready_rounds unready after
  -- Its state has become RUNNING, or it would still be READY.
  obtain ⟨live', state⟩ := rounds_pcb filed live (before ++ after)
  refine state.resolve_left fun same => ?_
  rw [← roster_rounds filed, roster_ready live', same, passes] at done
  cases done

/--
Whatever happened before, a READY process runs after rounds of the two loops in any order, if the
first of them bring the promotion it may need to be queued again, and the others dispatch as many
processes as were READY.
-/
theorem runs_in_the_end (ramMb hddMb cores : Int) (ops : List KernelOp) (slot : Slot) (before after : List Round)
    (live : slot.val < (Machine.run step (boot ramMb hddMb cores) ops).pcbCount)
    (ready : ((Machine.run step (boot ramMb hddMb cores) ops).pcb slot).state = stateReady)
    (positive : ((Machine.run step (boot ramMb hddMb cores) ops).pcb slot).queueLevel = .interactive →
      0 ≤ ((Machine.run step (boot ramMb hddMb cores) ops).pcb slot).priority)
    (ages : ((Machine.run step (boot ramMb hddMb cores) ops).pcb slot).patience ≤ before.count .aging)
    (serves : (Machine.run step (boot ramMb hddMb cores) ops).readyCount ≤ after.count .scheduler) :
    (((Machine.run step (boot ramMb hddMb cores) ops).rounds (before ++ after)).pcb slot).state =
      stateRunning := by
  have ordered := (Chronicle.ordered_run ramMb hddMb cores ops).2
  rw [Chronicle.run_kernel] at ordered
  exact runs_after_rounds (filed_run ramMb hddMb cores ops) ordered live ready positive ages serves

/-- A process that a rotation has thrown out of queue_Q1 runs again after its promotion. -/
theorem runs_in_the_end_thrown_out :
    (((Machine.run step (boot 1024 1024 1)
      [.createPcb 101 (ascii "Notepad") 3 20 2, .schedulerTick, .createPcb 102 (ascii "Calculator") 3 30 2,
        .schedulerTick, .sendInterrupt 101, .unblockAfterDelay 101]).rounds
      (List.replicate 15 .aging ++ [.scheduler])).pcb ⟨0, by decide⟩).state = stateRunning :=
  runs_in_the_end 1024 1024 1 _ ⟨0, by decide⟩ (List.replicate 15 .aging) [.scheduler] (by decide +kernel)
    (by decide +kernel) (fun _ => by decide +kernel) (by decide +kernel) (by decide +kernel)

end Kernel

end Nebula
