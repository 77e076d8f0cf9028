import Nebula.Queues.Filing

/-! Every live process is queued exactly once, as long as the rotation pushes what it popped. -/

namespace Nebula

namespace Kernel

/-- The pointer to each live slot is once in the queue of its own level and in no other queue. -/
def EachFiledOnce (k : Kernel) : Prop :=
  ∀ slot : Slot, slot.val < k.pcbCount → ∀ level,
    (k.queue level).toList.count slot = if (k.pcb slot).queueLevel = level then 1 else 0

/--
A tick that finds its process in queue_Q1 finds it at the front.

The rotation pops the front and pushes the process it dispatched, which are the same one only then.
-/
def RotatesItsFront (k : Kernel) : KernelOp → Prop
  | .schedulerTick =>
    (∀ slot ∈ (k.queue .system).toList, looksReady (k.pcb slot).state = false) →
    (∃ slot ∈ (k.queue .interactive).toList, looksReady (k.pcb slot).state = true) →
    ∃ front, (k.queue .interactive).toList.head? = some front ∧
      looksReady (k.pcb front).state = true
  | _ => True

theorem count_slotsAt (k : Kernel) (level : QueueLevel) {slot : Slot}
    (live : slot.val < k.pcbs.count) :
    (k.slotsAt level).count slot = if (k.pcb slot).queueLevel = level then 1 else 0 := by
  split
  · rename_i own
    exact List.count_eq_one_of_mem (k.nodup_slotsAt level) (mem_slotsAt.mpr ⟨live, own⟩)
  · rename_i other
    exact List.count_eq_zero_of_not_mem fun member => other (mem_slotsAt.mp member).2

theorem eachFiledOnce_boot (ramMb hddMb cores : Int) : EachFiledOnce (boot ramMb hddMb cores) := by
  intro slot live
  exact absurd live (Nat.not_lt_zero _)

/-- Every move of the queues but the rotation files each live slot once. -/
theorem EachFiledOnce.refiles {k k' : Kernel} (filed : Filed k) (once : EachFiledOnce k)
    (moved : Refiles k k') : EachFiledOnce k' := by
  intro slot live level
  have listed : slot ∈ k'.pcbs.slots := SlotArray.mem_slots.mpr live
  cases moved with
  | same slots levels queues refused =>
    rw [slots] at listed
    rw [queues, levels slot listed]
    exact once slot (SlotArray.mem_slots.mp listed) level
  | added new fresh slots levels queues refused =>
    rw [queues level, List.count_append]
    rw [slots, List.mem_append, List.mem_singleton] at listed
    rcases listed with old | rfl
    · -- An old slot is not the new one, so what was pushed does not count for it.
      have apart : new ≠ slot := fun same => fresh (same ▸ old)
      rw [levels slot old, once slot (SlotArray.mem_slots.mp old) level]
      split <;> split <;> simp [apart]
    · -- The new slot was in no queue, because entries are live.
      have absent : (k.queue level).toList.count slot = 0 :=
        List.count_eq_zero_of_not_mem fun member =>
          fresh (SlotArray.mem_slots.mpr (filed.live level slot member).1)
      rw [absent]
      split <;> simp
  | rebuilt queues refused =>
    rw [queues level]
    exact count_slotsAt k' level live

/-- A rotation files each live slot once exactly when the slot it pushes is the front it popped. -/
theorem eachFiledOnce_rotates {k k' : Kernel} {slot front : Slot} {rest : List Slot} (filed : Filed k)
    (once : EachFiledOnce k) (moved : Rotates k k' slot)
    (queued : (k.queue .interactive).toList = front :: rest) :
    EachFiledOnce k' ↔ slot = front := by
  have rotated : (k'.queue .interactive).toList = rest ++ [slot] := by
    rw [moved.interactive, queued, List.tail_cons]
  constructor
  · intro once'
    by_contra apart
    -- The front is still live and interactive, but it has left its queue.
    obtain ⟨live, level⟩ := filed.live .interactive front (by simp [queued])
    have listed : front ∈ k.pcbs.slots := SlotArray.mem_slots.mpr live
    have before := once front live .interactive
    have after := once' front (SlotArray.mem_slots.mp (moved.slots ▸ listed)) .interactive
    rw [queued, List.count_cons_self, if_pos level] at before
    rw [rotated, List.count_append, moved.levels front listed, if_pos level,
      List.count_singleton, beq_eq_false_iff_ne.mpr apart] at after
    simp only [Bool.false_eq_true, ↓reduceIte] at after
    omega
  · rintro rfl other live level
    have listed : other ∈ k.pcbs.slots := moved.slots ▸ SlotArray.mem_slots.mpr live
    rw [moved.levels other listed, ← once other (SlotArray.mem_slots.mp listed) level]
    by_cases interactive : level = .interactive
    · subst interactive
      rw [rotated, queued]
      exact List.Perm.count_eq (List.perm_append_singleton slot rest) other
    · rw [moved.others level interactive]

/-- A tick that rotates its front serves the first slot of queue_Q1. -/
theorem RotatesItsFront.front {k : Kernel} {slot : Slot} (rotates : RotatesItsFront k .schedulerTick)
    (nothingAbove : k.firstReady .system = none) (found : k.firstReady .interactive = some slot) :
    ∃ rest, (k.queue .interactive).toList = slot :: rest := by
  obtain ⟨first, atFront, ready⟩ := rotates (firstReady_none.mp nothingAbove)
    ⟨slot, firstReady_some found⟩
  obtain ⟨rest, listed⟩ := List.head?_eq_some_iff.mp atFront
  -- The search stops at the front, which is ready.
  simp only [firstReady_eq, listed, List.find?_cons, ready, Option.some.injEq] at found
  rw [← found]
  exact ⟨rest, listed⟩

/-- Filed once each, the entries of a queue are the slots of its level in some order. -/
theorem EachFiledOnce.perm {k : Kernel} (filed : Filed k) (once : EachFiledOnce k) (level : QueueLevel) :
    (k.queue level).toList.Perm (k.slotsAt level) := by
  rw [List.perm_iff_count]
  intro slot
  by_cases live : slot.val < k.pcbs.count
  · rw [once slot live level, count_slotsAt k level live]
  · -- A slot that is not live is in neither list.
    rw [List.count_eq_zero_of_not_mem fun member => live (filed.live level slot member).1,
      List.count_eq_zero_of_not_mem fun member => live (mem_slotsAt.mp member).1]

/-- From a state with every process queued once, a step keeps it so exactly when it rotates its front. -/
theorem eachFiledOnce_step {k : Kernel} (filed : Filed k) (once : EachFiledOnce k) (op : KernelOp) :
    EachFiledOnce (k.step op) ↔ RotatesItsFront k op := by
  rcases step_refiles filed op with ⟨moved, idle⟩ | ⟨slot, rfl, nothingAbove, found, moved⟩
  · refine ⟨fun _ => ?_, fun _ => once.refiles filed moved⟩
    cases op with
    | schedulerTick =>
      -- This tick does not rotate, so the two premises exclude each other.
      intro noneAbove ⟨slot, queued, ready⟩
      have noneHere := firstReady_none.mp (idle rfl (firstReady_none.mpr noneAbove)) slot queued
      rw [ready] at noneHere
      cases noneHere
    | _ => trivial
  · obtain ⟨queued, ready⟩ := firstReady_some found
    cases listed : (k.queue .interactive).toList with
    | nil => simp [listed] at queued
    | cons front rest =>
      rw [eachFiledOnce_rotates filed once moved listed]
      constructor
      · rintro rfl _ _
        exact ⟨slot, by simp [listed], ready⟩
      · intro rotates
        obtain ⟨behind, served⟩ := rotates.front nothingAbove found
        rw [listed] at served
        exact (List.cons.inj served).1.symm

/--
A run keeps every live process queued exactly once, in every state it reaches, exactly when each of
its ticks that dispatches from queue_Q1 dispatches the front.
-/
theorem eachFiledOnce_throughout_iff (ramMb hddMb cores : Int) (ops : List KernelOp) :
    Machine.Throughout Kernel.step EachFiledOnce (boot ramMb hddMb cores) ops ↔
      Machine.EachStep Kernel.step RotatesItsFront (boot ramMb hddMb cores) ops := by
  have preserved : ∀ k op, Filed k → Filed (Kernel.step k op) := fun _ op filed => filed.step op
  have exactly : ∀ k op, Filed k → EachFiledOnce k →
      (EachFiledOnce (Kernel.step k op) ↔ RotatesItsFront k op) :=
    fun _ op filed once => eachFiledOnce_step filed once op
  exact Machine.throughout_iff_eachStep preserved exactly (filed_boot ramMb hddMb cores)
    (eachFiledOnce_boot ramMb hddMb cores) ops

/--
A second interactive process, created while the first one runs, is queued twice by its first
dispatch, and the first process is in no queue any more.
-/
theorem rotation_loses_running_front :
    ¬ EachFiledOnce (Machine.run Kernel.step (boot 1024 1024 1)
      [.createPcb 101 (CText.ascii "Notepad") 3 20 2, .schedulerTick,
        .createPcb 102 (CText.ascii "Calculator") 3 30 2, .schedulerTick]) := by
  intro once
  have lost := once ⟨0, by decide⟩ (by decide +kernel) .interactive
  revert lost
  decide +kernel

end Kernel

end Nebula
