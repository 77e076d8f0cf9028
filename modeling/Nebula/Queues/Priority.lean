import Nebula.Queues.Arrival

/-! When serving queue_Q0 in the order of arrival is serving it by priority. -/

namespace Nebula

namespace Chronicle

/-- A slot waits in queue_Q0 with its process READY. -/
def WaitsForSystem (c : Chronicle) (slot : Slot) : Prop :=
  slot ∈ (c.kernel.queue .system).toList ∧ (c.kernel.pcb slot).state = stateReady

instance (c : Chronicle) (slot : Slot) : Decidable (c.WaitsForSystem slot) :=
  inferInstanceAs (Decidable (_ ∧ _))

/--
A process that a tick dispatches from queue_Q0 has a smaller priority number than the other READY
ones there, or the same number and was created before them.
-/
def PicksByPriority (c : Chronicle) : Prop :=
  ∀ slot, Kernel.Dispatches c.kernel c.kernel.schedulerTick slot →
    slot ∈ (c.kernel.queue .system).toList → ∀ other, c.WaitsForSystem other → other ≠ slot →
    (c.kernel.pcb slot).priority < (c.kernel.pcb other).priority ∨
      (c.kernel.pcb slot).priority = (c.kernel.pcb other).priority ∧ c.number slot < c.number other

/-- Of the READY processes in queue_Q0, the one created first has the least priority number. -/
def EldestLeast (c : Chronicle) : Prop :=
  ∀ eldest, c.WaitsForSystem eldest →
    (∀ other, c.WaitsForSystem other → c.number eldest ≤ c.number other) →
    ∀ other, c.WaitsForSystem other → (c.kernel.pcb eldest).priority ≤ (c.kernel.pcb other).priority

/-- The process a tick dispatches from queue_Q0 waits there and was created before the others. -/
theorem Numbered.dispatches_eldest {c : Chronicle} (numbered : Numbered c)
    (ordered : c.kernel.InTableOrder) {slot : Slot} :
    Kernel.Dispatches c.kernel c.kernel.schedulerTick slot ∧
        slot ∈ (c.kernel.queue .system).toList ↔
      c.WaitsForSystem slot ∧ ∀ other, c.WaitsForSystem other → c.number slot ≤ c.number other := by
  have filed := numbered.settled.filed
  constructor
  · rintro ⟨dispatched, queued⟩
    refine ⟨⟨queued, dispatched.2.1⟩, fun other waits => ?_⟩
    have found := numbered.firstReady_of_dispatches dispatched
    rw [(filed.live .system slot queued).2] at found
    have own := filed.live .system other waits.1
    exact numbered.number_least ordered (by decide) found own.1 own.2 waits.2
  · rintro ⟨waits, eldest⟩
    have live := (filed.live .system slot waits.1).1
    refine ⟨numbered.settled.dispatches_iff.mpr ?_, waits.1⟩
    -- The search of queue_Q0 finds somebody, who is no younger and so the same process.
    cases found : c.kernel.firstReady .system with
    | none =>
      have unready := Kernel.firstReady_none.mp found slot waits.1
      rw [(numbered.settled.ready_iff live).mpr waits.2] at unready
      cases unready
    | some first =>
      obtain ⟨queued, ready⟩ := Kernel.firstReady_some found
      have firstLive := (filed.live .system first queued).1
      have before := numbered.number_least ordered (by decide) found live
        (filed.live .system slot waits.1).2 waits.2
      have after := eldest first ⟨queued, (numbered.settled.ready_iff firstLive).mp ready⟩
      have same : first = slot :=
        numbered.number_inj firstLive live (Nat.le_antisymm before after)
      rw [Kernel.dispatchTarget, found, same, Option.some_or]

/-- With the queue in the order of arrival, the tick picks by priority exactly when the eldest is least. -/
theorem Numbered.picksByPriority_iff {c : Chronicle} (numbered : Numbered c)
    (ordered : c.kernel.InTableOrder) : PicksByPriority c ↔ EldestLeast c := by
  constructor
  · intro picks eldest waits first other waits'
    -- The eldest is the one a tick dispatches, so it was picked by priority.
    obtain ⟨dispatched, queued⟩ := (numbered.dispatches_eldest ordered).mpr ⟨waits, first⟩
    by_cases same : other = eldest
    · rw [same]
    · rcases picks eldest dispatched queued other waits' same with less | ⟨equal, -⟩
      · exact le_of_lt less
      · exact le_of_eq equal
  · intro least slot dispatched queued other waits apart
    obtain ⟨waits', first⟩ := (numbered.dispatches_eldest ordered).mp ⟨dispatched, queued⟩
    rcases lt_or_eq_of_le (least slot waits' first other waits) with less | equal
    · exact Or.inl less
    · -- On a tie the other one is younger, as it is not the same process.
      refine Or.inr ⟨equal, lt_of_le_of_ne (first other waits) fun same => apart ?_⟩
      have live := (numbered.settled.filed.live .system slot queued).1
      have live' := (numbered.settled.filed.live .system other waits.1).1
      exact numbered.number_inj live' live same.symm

/--
A run picks by priority in every state it reaches exactly when in each of them the process created
first is the least of those that wait in queue_Q0.
-/
theorem picksByPriority_throughout_iff (ramMb hddMb cores : Int) (ops : List KernelOp) :
    Machine.Throughout step PicksByPriority (boot ramMb hddMb cores) ops ↔
      Machine.Throughout step EldestLeast (boot ramMb hddMb cores) ops := by
  rw [Machine.throughout_iff_reached, Machine.throughout_iff_reached]
  refine forall_congr' fun before => forall_congr' fun _ => ?_
  obtain ⟨numbered, ordered⟩ := ordered_run ramMb hddMb cores before
  exact numbered.picksByPriority_iff ordered

/-- A system process whose priority number was raised is dispatched before a younger one with zero. -/
theorem priority_ignored_by_tick :
    ¬ PicksByPriority (Machine.run step (boot 1024 1024 1)
      [.createPcb 101 (CText.ascii "Clock") 0 8 2, .createPcb 102 (CText.ascii "Log Daemon") 0 8 2,
        .setProcessPriority 101 5]) := by
  intro picks
  have passed := picks ⟨0, by decide⟩ (by decide +kernel) (by decide +kernel) ⟨1, by decide⟩
    (by decide +kernel) (by decide)
  revert passed
  decide +kernel

end Chronicle

end Nebula
