import Nebula.Kernel.Rows
import Nebula.Queues.Filing

/-! A tick dispatches a READY process of the highest level that has one, and nothing else changes. -/

namespace Nebula

open CText

namespace Kernel

/-- Between two states the READY process of a live slot has become RUNNING. -/
def Dispatches (k k' : Kernel) (slot : Slot) : Prop :=
  slot.val < k.pcbCount ∧ (k.pcb slot).state = stateReady ∧ (k'.pcb slot).state = stateRunning

instance (k k' : Kernel) (slot : Slot) : Decidable (Dispatches k k' slot) :=
  inferInstanceAs (Decidable (_ ∧ _ ∧ _))

/-- A slot is in one of the three queues and its process is READY. -/
def QueuedReady (k : Kernel) (slot : Slot) : Prop :=
  (∃ level, slot ∈ (k.queue level).toList) ∧ (k.pcb slot).state = stateReady

/-- What a tick does, seen from outside. -/
structure StrictPriority (k : Kernel) : Prop where
  /-- The two letters the scheduler reads tell READY from the other states. -/
  test : ∀ slot : Slot, slot.val < k.pcbCount →
    (looksReady (k.pcb slot).state = true ↔ (k.pcb slot).state = stateReady)
  /-- Something is dispatched exactly when something READY is queued. -/
  busy : (∃ slot, Dispatches k k.schedulerTick slot) ↔ ∃ slot, k.QueuedReady slot
  /-- Otherwise nothing at all changes. -/
  idle : (¬ ∃ slot, k.QueuedReady slot) → k.schedulerTick = k
  /-- What is dispatched was queued, and no READY process was queued at a higher level. -/
  highest : ∀ slot, Dispatches k k.schedulerTick slot → k.QueuedReady slot ∧
    ∀ other, k.QueuedReady other → (k.pcb slot).queueLevel.rank ≤ (k.pcb other).queueLevel.rank
  /-- Its state and its core number change, and no other slot of the table does. -/
  alone : ∀ slot, Dispatches k k.schedulerTick slot →
    (∃ core, k.schedulerTick.pcb slot = { k.pcb slot with state := stateRunning, coreId := core }) ∧
      ∀ other, other ≠ slot → k.schedulerTick.pcb other = k.pcb other
  /-- The queues but queue_Q1, the counters and the size of the table stay as they were. -/
  frame : k.schedulerTick.queue .system = k.queue .system ∧
    k.schedulerTick.queue .background = k.queue .background ∧
    k.schedulerTick.resources = k.resources ∧ k.schedulerTick.pcbCount = k.pcbCount

/-- The queues are filed and every live process is in one of the four states. -/
structure Settled (k : Kernel) : Prop where
  filed : Filed k
  known : KnownStates k

theorem Settled.step {k : Kernel} (settled : Settled k) (op : KernelOp) : Settled (k.step op) :=
  ⟨settled.filed.step op, settled.known.step op⟩

theorem settled_boot (ramMb hddMb cores : Int) : Settled (boot ramMb hddMb cores) :=
  ⟨filed_boot ramMb hddMb cores, knownStates_boot ramMb hddMb cores⟩

theorem settled_run (ramMb hddMb cores : Int) (ops : List KernelOp) :
    Settled (Machine.run Kernel.step (boot ramMb hddMb cores) ops) :=
  Machine.invariant_run (fun _ op settled => settled.step op) (settled_boot ramMb hddMb cores) ops

/-- On a live slot the scheduler's test is the comparison with READY. -/
theorem Settled.ready_iff {k : Kernel} (settled : Settled k) {slot : Slot}
    (live : slot.val < k.pcbs.count) :
    looksReady (k.pcb slot).state = true ↔ (k.pcb slot).state = stateReady :=
  looksReady_iff (settled.known _ (SlotArray.mem_entries.mpr ⟨slot, live, rfl⟩))

/-- A slot is queued and READY exactly when some queue holds it and it passes the test. -/
theorem Settled.queuedReady_iff {k : Kernel} (settled : Settled k) {slot : Slot} :
    k.QueuedReady slot ↔
      ∃ level, slot ∈ (k.queue level).toList ∧ looksReady (k.pcb slot).state = true := by
  constructor
  · rintro ⟨⟨level, queued⟩, ready⟩
    exact ⟨level, queued, (settled.ready_iff (settled.filed.live level slot queued).1).mpr ready⟩
  · rintro ⟨level, queued, ready⟩
    exact ⟨⟨level, queued⟩, (settled.ready_iff (settled.filed.live level slot queued).1).mp ready⟩

/-- A tick writes the slot it dispatches and no other. -/
theorem schedulerTick_pcb (k : Kernel) (slot : Slot) :
    k.schedulerTick.pcb slot =
      if k.dispatchTarget = some slot then
        { k.pcb slot with state := stateRunning, coreId := assignedCore k.resources }
      else k.pcb slot := by
  have table := k.schedulerTick_pcbs
  -- Without a target the table stays, and with one its row is written.
  cases target : k.dispatchTarget with
  | none =>
    rw [target] at table
    simp [pcb, table]
  | some chosen =>
    rw [target] at table
    have read : k.schedulerTick.pcb slot = (k.dispatchProcess chosen).pcb slot := by
      simp only [pcb, table]
    rw [read, dispatchProcess, pcb_setPcb]
    by_cases here : chosen = slot
    · simp [here, Process.setState]
    · simp [here]

/-- From a settled state, the dispatched slot is the target of the tick. -/
theorem Settled.dispatches_iff {k : Kernel} (settled : Settled k) {slot : Slot} :
    Dispatches k k.schedulerTick slot ↔ k.dispatchTarget = some slot := by
  constructor
  · rintro ⟨-, ready, running⟩
    by_contra other
    -- Any other slot keeps its state, which is not RUNNING.
    rw [schedulerTick_pcb, if_neg other, ready] at running
    exact states_ne.1 running
  · intro target
    obtain ⟨level, queued, ready⟩ := dispatchTarget_some target
    have live := (settled.filed.live level slot queued).1
    refine ⟨live, (settled.ready_iff live).mp ready, ?_⟩
    rw [schedulerTick_pcb, if_pos target]

/-- The level of the target is the first that has a READY process. -/
theorem dispatchTarget_highest {k : Kernel} (filed : Filed k) {slot other : Slot}
    (target : k.dispatchTarget = some slot) {level : QueueLevel}
    (queued : other ∈ (k.queue level).toList) (ready : looksReady (k.pcb other).state = true) :
    (k.pcb slot).queueLevel.rank ≤ level.rank := by
  -- A level that was searched in vain holds no READY process.
  have notSkipped : k.firstReady level ≠ none := by
    intro none
    have unready := firstReady_none.mp none other queued
    rw [ready] at unready
    cases unready
  have levelOf : ∀ searched, k.firstReady searched = some slot →
      (k.pcb slot).queueLevel = searched := fun searched found =>
    (filed.live searched slot (firstReady_some found).1).2
  -- A target from a further queue means that the ones before it were searched in vain.
  simp only [dispatchTarget, Option.or_eq_some_iff] at target
  rcases target with found | ⟨system, found | ⟨interactive, found⟩⟩
  · rw [levelOf _ found]
    exact Nat.zero_le _
  · rw [levelOf _ found]
    cases level with
    | system => exact absurd system notSkipped
    | interactive => exact Nat.le_refl _
    | background => decide
  · rw [levelOf _ found]
    cases level with
    | system => exact absurd system notSkipped
    | interactive => exact absurd interactive notSkipped
    | background => exact Nat.le_refl _

/-- A tick leaves every queue but queue_Q1 alone. -/
theorem schedulerTick_queue (k : Kernel) {level : QueueLevel} (other : level ≠ .interactive) :
    k.schedulerTick.queue level = k.queue level := by
  rcases k.schedulerTick_cases with ⟨-, -, tick⟩ | ⟨slot, -, -, -, -, tick⟩ | ⟨slot, -, -, -, tick⟩
  · rw [tick]
  · rw [tick]
    rfl
  · rw [tick]
    simp [rotateInteractive, push, dispatchProcess, other]

theorem Settled.strictPriority {k : Kernel} (settled : Settled k) : StrictPriority k := by
  -- The target of the tick is the dispatched slot, and it is missing when nothing is READY.
  have targeted : (∃ slot, k.dispatchTarget = some slot) ↔ ∃ slot, k.QueuedReady slot := by
    rw [← Option.isSome_iff_exists, ← not_iff_not, Bool.not_eq_true, Option.isSome_eq_false_iff,
      Option.isNone_iff_eq_none, dispatchTarget_none]
    simp only [settled.queuedReady_iff, not_exists, not_and, Bool.not_eq_true]
    exact ⟨fun all slot level => all level slot, fun all level slot => all slot level⟩
  refine ⟨fun slot live => settled.ready_iff live, ?_, fun nobody => ?_, fun slot dispatched => ?_,
    fun slot dispatched => ?_, ?_⟩
  · simp only [settled.dispatches_iff]
    exact targeted
  · -- Without a target the tick is the first of its cases.
    have none : k.dispatchTarget = none := by
      by_contra some
      exact nobody (targeted.mp (Option.ne_none_iff_exists'.mp some))
    rcases k.schedulerTick_cases with ⟨-, -, tick⟩ | ⟨slot, -, target, -⟩ | ⟨slot, target, -⟩
    · exact tick
    · rw [none] at target
      cases target
    · rw [none] at target
      cases target
  · have target := settled.dispatches_iff.mp dispatched
    refine ⟨settled.queuedReady_iff.mpr (dispatchTarget_some target), fun other queuedReady => ?_⟩
    obtain ⟨level, queued, ready⟩ := settled.queuedReady_iff.mp queuedReady
    rw [(settled.filed.live level other queued).2]
    exact dispatchTarget_highest settled.filed target queued ready
  · have target := settled.dispatches_iff.mp dispatched
    refine ⟨⟨assignedCore k.resources, ?_⟩, fun other apart => ?_⟩
    · rw [schedulerTick_pcb, if_pos target]
    · rw [schedulerTick_pcb, if_neg]
      rw [target, Option.some.injEq]
      exact Ne.symm apart
  · refine ⟨k.schedulerTick_queue (by decide), k.schedulerTick_queue (by decide),
      k.schedulerTick_resources, ?_⟩
    rw [pcbCount, pcbCount, schedulerTick_pcbs]
    cases k.dispatchTarget <;> rfl

/-- In every reachable state a tick serves the levels in strict priority. -/
theorem strictPriority_run (ramMb hddMb cores : Int) (ops : List KernelOp) :
    StrictPriority (Machine.run Kernel.step (boot ramMb hddMb cores) ops) :=
  (settled_run ramMb hddMb cores ops).strictPriority

end Kernel

end Nebula
