import Nebula.Queues.Lines

/-! Round Robin: when nobody is served twice from queue_Q1 while another process waits there. -/

namespace Nebula

open CText

namespace Kernel

/-- A process of queue_Q1 is neither removed nor promoted by a step. -/
def StaysInteractive (k : Kernel) (op : KernelOp) (slot : Slot) : Prop :=
  k.tableEdit op ≠ .drops slot ∧
    (op = .agingTick → (ageProcess (k.pcb slot)).1.queueLevel = .interactive)

/--
A step that rebuilds the queues moves nobody past a READY process it stood behind.

A rebuild files queue_Q1 in table order, so those behind a READY process must be behind it there too.
-/
def RebuildsInTurn (k : Kernel) (op : KernelOp) : Prop :=
  k.Rebuilds op → ∀ first second, Line.Ahead (k.queue .interactive).toList first second →
    (k.pcb first).state = stateReady → k.StaysInteractive op first → k.StaysInteractive op second →
    first < second

/-- A step keeps the turns of queue_Q1 whether it rotates or rebuilds. -/
def KeepsTurns (k : Kernel) (op : KernelOp) : Prop := RotatesItsFront k op ∧ k.RebuildsInTurn op

/-- From a queue_Q1 in table order, every rebuild is in turn. -/
theorem rebuildsInTurn_of_sorted {k : Kernel} (sorted : (k.queue .interactive).toList.Pairwise (· < ·))
    (op : KernelOp) : k.RebuildsInTurn op := by
  intro _ first second ahead _ _ _
  have pair := sorted.sublist ahead
  exact (List.pairwise_cons.mp pair).1 second List.mem_cons_self

end Kernel

namespace Chronicle

/-- The process of a number is in the table, READY and interactive. -/
def Waits (c : Chronicle) (number : Nat) : Prop :=
  ∃ record ∈ c.records,
    record.1.number = number ∧ record.2.state = stateReady ∧ record.2.queueLevel = .interactive

instance (c : Chronicle) (number : Nat) : Decidable (c.Waits number) :=
  inferInstanceAs (Decidable (∃ record ∈ c.records, _))

/-- While a process waits, a segment of a run dispatches no process from queue_Q1 twice. -/
def TakesTurns (c : Chronicle) (ops : List KernelOp) : Prop :=
  ∀ before segment after : List KernelOp, ops = before ++ segment ++ after → ∀ waiting,
    Machine.Throughout step (fun c => c.Waits waiting) (Machine.run step c before) segment →
    (Machine.outputs step dispatched (Machine.run step c before) segment).Nodup

/-- Those served while a process waits stand behind it, and none of them can come back from below. -/
structure Served (waiting : Nat) (served : List Nat) (c : Chronicle) : Prop where
  behind : ∀ number ∈ served, number ∈ c.line .interactive →
    Line.Ahead (c.line .interactive) waiting number
  risen : ∀ number ∈ served, ∀ record ∈ c.records, record.1.number = number →
    record.2.queueLevel ≠ .background
  older : ∀ number ∈ served, number < c.created

theorem served_nil (waiting : Nat) (c : Chronicle) : Served waiting [] c :=
  ⟨by simp, by simp, by simp⟩

/-- A process that was not in queue_Q2 does not get there. -/
theorem Numbered.stays_risen {c : Chronicle} (numbered : Numbered c) (op : KernelOp) {number : Nat}
    (older : number < c.created)
    (risen : ∀ record ∈ c.records, record.1.number = number → record.2.queueLevel ≠ .background) :
    ∀ record ∈ (c.step op).records, record.1.number = number →
      record.2.queueLevel ≠ .background := by
  intro record member same background
  rcases numbered.traced op member with new | ⟨slot, live, -, birth, edited⟩
  · omega
  · -- Levels never go down, so it would have been a background process before.
    have rank := edited.rank_le
    have before := risen (c.birth slot, c.kernel.pcb slot) (numbered.mem_records.mpr ⟨slot, live, rfl⟩)
      (by rw [← birth, same])
    rw [background] at rank
    exact before (QueueLevel.eq_background rank)

/-- A waiting process is in a live slot, READY and interactive, and stands in the line. -/
theorem Numbered.waits_slot {c : Chronicle} (numbered : Numbered c) {waiting : Nat}
    (waits : c.Waits waiting) : ∃ slot : Slot, slot.val < c.kernel.pcbs.count ∧
      c.number slot = waiting ∧ (c.kernel.pcb slot).state = stateReady := by
  obtain ⟨record, member, same, ready, -⟩ := waits
  obtain ⟨slot, live, rfl⟩ := numbered.mem_records.mp member
  exact ⟨slot, live, same, ready⟩

/-- What a tick dispatches does not wait afterwards. -/
theorem Numbered.rotated_stops_waiting {c : Chronicle} (numbered : Numbered c) {slot : Slot}
    (nothingAbove : c.kernel.firstReady .system = none)
    (found : c.kernel.firstReady .interactive = some slot) :
    ¬ (c.step .schedulerTick).Waits (c.number slot) := by
  intro waits
  obtain ⟨other, live, same, ready⟩ := (numbered.step .schedulerTick).waits_slot waits
  rw [number_of_keeps rfl] at same
  rw [step_kernel] at live ready
  have target : c.kernel.dispatchTarget = some slot := by
    simp [Kernel.dispatchTarget, nothingAbove, found]
  -- The table keeps its size, so the other slot was live and is the same one.
  have counted : (c.kernel.step .schedulerTick).pcbs.count = c.kernel.pcbs.count := by
    rw [Kernel.step, Kernel.schedulerTick_pcbs, target]
    rfl
  rw [counted] at live
  obtain rfl : other = slot := numbered.number_inj live
    (numbered.settled.filed.live .interactive slot (Kernel.firstReady_some found).1).1 same
  rw [Kernel.step, Kernel.schedulerTick_pcb, if_pos target] at ready
  exact states_ne.1 ready.symm

/-- A process that is interactive after a step has neither been removed nor promoted by it. -/
theorem Numbered.traced_interactive {c : Chronicle} (numbered : Numbered c) {op : KernelOp}
    {record : Birth × Process} (member : record ∈ (c.step op).records)
    (old : record.1.number < c.created) (interactive : record.2.queueLevel = .interactive) :
    ∃ slot : Slot, slot.val < c.kernel.pcbs.count ∧ c.number slot = record.1.number ∧
      c.kernel.StaysInteractive op slot ∧
      QueueLevel.interactive.rank ≤ (c.kernel.pcb slot).queueLevel.rank := by
  rcases numbered.traced op member with new | ⟨slot, live, kept, birth, edited⟩
  · omega
  · refine ⟨slot, live, by rw [Chronicle.number, birth], ⟨kept, ?_⟩, ?_⟩
    · rintro rfl
      rw [← edited.aged_eq]
      exact interactive
    · rw [← interactive]
      exact edited.rank_le

/-- One who was served and is in queue_Q1 after a step stood there behind the one who waits. -/
theorem Served.stood_behind {c : Chronicle} {waiting : Nat} {served : List Nat}
    (numbered : Numbered c) (once : c.kernel.EachFiledOnce) (state : Served waiting served c)
    {slot : Slot} (live : slot.val < c.kernel.pcbs.count) (member : c.number slot ∈ served)
    (rank : QueueLevel.interactive.rank ≤ (c.kernel.pcb slot).queueLevel.rank) :
    ∃ first : Slot, first.val < c.kernel.pcbs.count ∧ c.number first = waiting ∧
      Line.Ahead (c.kernel.queue .interactive).toList first slot := by
  have listed : (c.birth slot, c.kernel.pcb slot) ∈ c.records :=
    numbered.mem_records.mpr ⟨slot, live, rfl⟩
  -- It was not promoted by this step, so it was interactive before.
  have interactive : (c.kernel.pcb slot).queueLevel = .interactive := by
    have risen := state.risen _ member _ listed rfl
    cases level : (c.kernel.pcb slot).queueLevel with
    | system =>
      rw [level] at rank
      exact absurd rank (by decide)
    | interactive => rfl
    | background => exact absurd level risen
  have before : c.number slot ∈ c.line .interactive :=
    (numbered.mem_line once).mpr ⟨_, listed, rfl, interactive⟩
  obtain ⟨first, second, ahead, firstIs, secondIs⟩ :=
    Line.ahead_map (state.behind _ member before)
  have filed := numbered.settled.filed
  have firstLive := (filed.live .interactive first ahead.mem_left).1
  have secondLive := (filed.live .interactive second ahead.mem_right).1
  obtain rfl : second = slot := numbered.number_inj secondLive live secondIs
  exact ⟨first, firstLive, firstIs, ahead⟩

/-- A rebuild that keeps the turns leaves those who were served behind the one who waits. -/
theorem Served.rebuilt {c : Chronicle} {waiting : Nat} {served : List Nat} {op : KernelOp}
    (numbered : Numbered c) (once : c.kernel.EachFiledOnce) (state : Served waiting served c)
    (waits : c.Waits waiting) (still : (c.step op).Waits waiting)
    (inTurn : c.kernel.RebuildsInTurn op) (rebuilds : c.kernel.Rebuilds op) {number : Nat}
    (member : number ∈ served) (rolled : number ∈ (c.step op).roll .interactive) :
    Line.Ahead ((c.step op).roll .interactive) waiting number := by
  -- The one who was served is traced back to its slot, behind that of the one who waits.
  obtain ⟨record, inside, rfl⟩ := List.mem_map.mp rolled
  obtain ⟨listed, interactive⟩ := List.mem_filter.mp inside
  rw [beq_iff_eq] at interactive
  obtain ⟨second, secondLive, secondIs, secondStays, rank⟩ :=
    numbered.traced_interactive listed (state.older _ member) interactive
  rw [← secondIs] at member
  obtain ⟨first, firstLive, firstIs, ahead⟩ :=
    state.stood_behind numbered once secondLive member rank
  -- The one who waits is READY before the step and stays in queue_Q1.
  obtain ⟨slot, live, slotIs, ready⟩ := numbered.waits_slot waits
  obtain rfl : slot = first := numbered.number_inj live firstLive (slotIs.trans firstIs.symm)
  obtain ⟨record', listed', same', -, interactive'⟩ := still
  have old : record'.1.number < c.created := by
    rw [same', ← slotIs]
    exact numbered.number_lt_created live
  obtain ⟨slot', live', slotIs', firstStays, -⟩ :=
    numbered.traced_interactive listed' old interactive'
  obtain rfl : slot' = slot :=
    numbered.number_inj live' live (slotIs'.trans (same'.trans slotIs.symm))
  have less := inTurn rebuilds slot' second ahead ready firstStays secondStays
  -- The roll is ordered by the numbers, which grow along the table.
  refine Line.ahead_of_lt ((numbered.step op).sorted_roll .interactive) (List.mem_map.mpr
    ⟨record', List.mem_filter.mpr ⟨listed', by simp [interactive']⟩, same'⟩) rolled ?_
  rw [← slotIs, ← secondIs]
  exact numbered.number_lt less secondLive

/-- The one who waits stands in the line. -/
theorem Numbered.waits_line {c : Chronicle} (numbered : Numbered c) (once : c.kernel.EachFiledOnce)
    {waiting : Nat} (waits : c.Waits waiting) : waiting ∈ c.line .interactive := by
  obtain ⟨record, member, same, -, interactive⟩ := waits
  exact (numbered.mem_line once).mpr ⟨record, member, same, interactive⟩

/-- A tick that rotates its front serves nobody a second time, and puts him behind the one who waits. -/
theorem Served.rotated {c : Chronicle} {waiting : Nat} {served : List Nat} (numbered : Numbered c)
    (once : c.kernel.EachFiledOnce) (state : Served waiting served c) (waits : c.Waits waiting)
    {slot : Slot} (apart : waiting ≠ c.number slot)
    (front : ∃ rest, (c.kernel.queue .interactive).toList = slot :: rest) :
    c.number slot ∉ served ∧ ∀ number ∈ c.number slot :: served,
      number ∈ (c.line .interactive).tail ++ [c.number slot] →
      Line.Ahead ((c.line .interactive).tail ++ [c.number slot]) waiting number := by
  obtain ⟨rest, queued⟩ := front
  have listed : c.line .interactive = c.number slot :: rest.map c.number := by
    rw [line, queued, List.map_cons]
  have distinct := numbered.nodup_line once
  have stands := numbered.waits_line once waits
  have behind := state.behind
  rw [listed] at distinct stands behind
  -- Nobody is ahead of the front, so it was not served before.
  have fresh : c.number slot ∉ served := fun member =>
    Line.not_ahead_front distinct (behind _ member List.mem_cons_self)
  refine ⟨fresh, fun number member inside => ?_⟩
  rw [listed, List.tail_cons] at inside ⊢
  have waitsBehind := (List.mem_cons.mp stands).resolve_left apart
  rcases List.mem_cons.mp member with rfl | before
  · exact Line.ahead_snoc waitsBehind _
  · rcases List.mem_append.mp inside with left | last
    · exact ((behind number before (List.mem_cons_of_mem _ left)).tail apart).append _
    · exact absurd (List.mem_singleton.mp last ▸ before) fresh

/-- What a dispatch from queue_Q1 serves is an interactive process that was created before. -/
theorem Numbered.dispatched_interactive {c : Chronicle} (numbered : Numbered c) {slot : Slot}
    (found : c.kernel.firstReady .interactive = some slot) :
    c.number slot < c.created ∧ ∀ record ∈ c.records, record.1.number = c.number slot →
      record.2.queueLevel ≠ .background := by
  obtain ⟨live, level⟩ :=
    numbered.settled.filed.live .interactive slot (Kernel.firstReady_some found).1
  refine ⟨numbered.number_lt_created live, fun record member same => ?_⟩
  obtain ⟨other, live', rfl⟩ := numbered.mem_records.mp member
  obtain rfl : other = slot := numbered.number_inj live' live same
  simp [level]

/-- While a process waits, a step serves nobody a second time. -/
theorem Served.step {c : Chronicle} {waiting : Nat} {served : List Nat} {op : KernelOp}
    (numbered : Numbered c) (once : c.kernel.EachFiledOnce) (state : Served waiting served c)
    (waits : c.Waits waiting) (still : (c.step op).Waits waiting) (keeps : c.kernel.KeepsTurns op) :
    (∀ number ∈ c.dispatched op, number ∉ served) ∧
      Served waiting ((c.dispatched op).toList ++ served) (c.step op) := by
  have growing := c.created_le op
  -- Whoever was served before keeps his number and does not come back from below.
  have older : ∀ number ∈ served, number < (c.step op).created := fun number member =>
    Nat.lt_of_lt_of_le (state.older number member) growing
  have risen := fun number (member : number ∈ served) =>
    numbered.stays_risen op (state.older number member) (state.risen number member)
  cases numbered.step_line op with
  | same line idle =>
    rw [idle]
    refine ⟨by simp, ⟨fun number member inside => ?_, risen, older⟩⟩
    rw [line] at inside ⊢
    exact state.behind number member inside
  | joined line idle =>
    rw [idle]
    refine ⟨by simp, ⟨fun number member inside => ?_, risen, older⟩⟩
    rw [line] at inside ⊢
    rcases List.mem_append.mp inside with before | new
    · exact (state.behind number member before).append _
    · -- The one who joins has a number that nobody had.
      have := state.older number member
      rw [List.mem_singleton.mp new] at this
      exact absurd this (Nat.lt_irrefl _)
  | rebuilt rebuilds line idle =>
    -- The line is the roll of the level now, so their places in the table decide.
    rw [idle]
    refine ⟨by simp, ⟨fun number member inside => ?_, risen, older⟩⟩
    rw [line] at inside ⊢
    exact state.rebuilt numbered once waits still keeps.2 rebuilds member inside
  | rotated slot served' tick nothingAbove found line =>
    -- The one served is at the front, ahead of the one who waits, and goes to the end.
    subst tick
    have apart : waiting ≠ c.number slot := by
      rintro rfl
      exact numbered.rotated_stops_waiting nothingAbove found still
    obtain ⟨fresh, behind⟩ := state.rotated numbered once waits apart
      (keeps.1.front nothingAbove found)
    obtain ⟨new, above⟩ := numbered.dispatched_interactive found
    rw [served', Option.toList_some, List.singleton_append]
    refine ⟨by simpa using fresh, ⟨?_, ?_, ?_⟩⟩
    · rw [line]
      exact behind
    · exact List.forall_mem_cons.mpr ⟨numbered.stays_risen _ new above, risen⟩
    · exact List.forall_mem_cons.mpr ⟨Nat.lt_of_lt_of_le new growing, older⟩

/-- What a run of the kernel relies on when it takes turns. -/
structure Queued (c : Chronicle) : Prop where
  numbered : Numbered c
  once : c.kernel.EachFiledOnce

theorem Queued.step {c : Chronicle} (queued : Queued c) {op : KernelOp}
    (keeps : c.kernel.KeepsTurns op) : Queued (c.step op) := by
  refine ⟨queued.numbered.step op, ?_⟩
  rw [step_kernel]
  exact (Kernel.eachFiledOnce_step queued.numbered.settled.filed queued.once op).mpr keeps.1

theorem queued_boot (ramMb hddMb cores : Int) : Queued (boot ramMb hddMb cores) :=
  ⟨numbered_boot ramMb hddMb cores, Kernel.eachFiledOnce_boot ramMb hddMb cores⟩

/-- Over a segment in which a process waits, nobody is served twice or was served before. -/
theorem Served.outputs {waiting : Nat} (segment : List KernelOp) {c : Chronicle} {served : List Nat}
    (queued : Queued c) (state : Served waiting served c)
    (waits : Machine.Throughout Chronicle.step (fun c => c.Waits waiting) c segment)
    (keeps : Machine.EachStep Chronicle.step (fun c op => c.kernel.KeepsTurns op) c segment) :
    (Machine.outputs Chronicle.step dispatched c segment).Nodup ∧
      ∀ number ∈ Machine.outputs Chronicle.step dispatched c segment, number ∉ served := by
  -- Each step adds the one it serves to those served, and the rest of the segment serves none of them.
  induction segment generalizing c served with
  | nil => simp [Machine.outputs]
  | cons op rest ih =>
    obtain ⟨here, later⟩ := waits
    have still := Machine.throughout_iff_reached.mp later [] List.nil_prefix
    obtain ⟨fresh, state'⟩ := state.step queued.numbered queued.once here still keeps.1
    obtain ⟨distinct, new⟩ := ih (queued.step keeps.1) state' later keeps.2
    simp only [List.mem_append, Option.mem_toList, not_or] at new
    rw [Machine.outputs]
    refine ⟨List.nodup_append.mpr ⟨by cases c.dispatched op <;> simp, distinct, ?_⟩, ?_⟩
    · rintro number member other inside rfl
      exact (new number inside).1 (Option.mem_toList.mp member)
    · intro number member
      rcases List.mem_append.mp member with first | inside
      · exact fresh number (Option.mem_toList.mp first)
      · exact (new number inside).2

/-- A run whose steps all keep the turns of queue_Q1 takes turns. -/
theorem takesTurns_of_keepsTurns (ramMb hddMb cores : Int) (ops : List KernelOp)
    (keeps : Machine.EachStep step (fun c op => c.kernel.KeepsTurns op) (boot ramMb hddMb cores)
      ops) : TakesTurns (boot ramMb hddMb cores) ops := by
  rintro before segment after rfl waiting waits
  -- The steps before the segment lead up to its invariant, and those after it do not matter.
  rw [Machine.eachStep_append, Machine.eachStep_append] at keeps
  have kept : ∀ c op, Queued c → c.kernel.KeepsTurns op → Queued (step c op) :=
    fun _ _ queued met => queued.step met
  have queued := Machine.invariant_run_of_eachStep kept (queued_boot ramMb hddMb cores) keeps.1.1
  exact (Served.outputs segment queued (served_nil waiting _) waits keeps.1.2).1

/-- Two processes that are served in turn, until the first one is removed. -/
theorem takesTurns_of_keepsTurns_two_processes :
    TakesTurns (boot 1024 1024 1)
      [.createPcb 101 (ascii "Notepad") 3 20 2, .createPcb 102 (ascii "Calculator") 3 30 2,
        .schedulerTick, .schedulerTick, .removePcb 101] := by
  -- The table is in order where it is rebuilt, and each tick serves the front.
  refine takesTurns_of_keepsTurns 1024 1024 1 _ ⟨⟨trivial, ?_⟩, ⟨trivial, ?_⟩, ⟨?_, ?_⟩, ⟨?_, ?_⟩,
    ⟨trivial, ?_⟩, trivial⟩
  · exact Kernel.rebuildsInTurn_of_sorted (by decide +kernel) _
  · exact Kernel.rebuildsInTurn_of_sorted (by decide +kernel) _
  · intro _ _
    exact ⟨⟨0, by decide⟩, by decide +kernel⟩
  · exact Kernel.rebuildsInTurn_of_sorted (by decide +kernel) _
  · intro _ _
    exact ⟨⟨1, by decide⟩, by decide +kernel⟩
  · simp [Kernel.RebuildsInTurn, Kernel.Rebuilds, Kernel.tableEdit]
  · exact Kernel.rebuildsInTurn_of_sorted (by decide +kernel) _

/--
Process 1 is served twice while process 2 waits.

In the first run it stays at the front because the running process 0 was popped in its place, and in
the second it is filed ahead again when a background process is removed.
-/
theorem waiting_process_overtaken_twice :
    ¬ TakesTurns (boot 1024 1024 1)
      [.createPcb 101 (ascii "Notepad") 3 20 2, .schedulerTick,
        .createPcb 102 (ascii "Calculator") 3 30 2, .createPcb 103 (ascii "Calendar") 3 30 2,
        .schedulerTick, .sendInterrupt 102, .unblockAfterDelay 102, .schedulerTick] ∧
    ¬ TakesTurns (boot 1024 1024 1)
      [.createPcb 101 (ascii "Copy File") 6 20 2, .createPcb 102 (ascii "Notepad") 3 20 2,
        .createPcb 103 (ascii "Calculator") 3 30 2, .schedulerTick, .sendInterrupt 102,
        .unblockAfterDelay 102, .removePcb 101, .schedulerTick] := by
  -- Each run is cut where process 2 begins to wait, and evaluated from there.
  constructor
  · intro turns
    have twice := turns
      [.createPcb 101 (ascii "Notepad") 3 20 2, .schedulerTick,
        .createPcb 102 (ascii "Calculator") 3 30 2, .createPcb 103 (ascii "Calendar") 3 30 2]
      [.schedulerTick, .sendInterrupt 102, .unblockAfterDelay 102, .schedulerTick] [] rfl 2
      (by decide +kernel)
    revert twice
    decide +kernel
  · intro turns
    have twice := turns
      [.createPcb 101 (ascii "Copy File") 6 20 2, .createPcb 102 (ascii "Notepad") 3 20 2,
        .createPcb 103 (ascii "Calculator") 3 30 2]
      [.schedulerTick, .sendInterrupt 102, .unblockAfterDelay 102, .removePcb 101, .schedulerTick]
      [] rfl 2 (by decide +kernel)
    revert twice
    decide +kernel

end Chronicle

end Nebula
