import Nebula.Kernel.Effects
import Nebula.Kernel.Ints
import Nebula.Library.Machine

/-! Queue entries stay live, filed under their own level, and as many as the table has processes. -/

namespace Nebula

namespace Kernel

/-- The live slots of a level in table order. -/
def slotsAt (k : Kernel) (level : QueueLevel) : List Slot :=
  k.pcbs.slots.filter fun slot => (k.pcb slot).queueLevel == level

/-- Every entry is live and of its queue's level, no queue is short or long, and no push failed. -/
structure Filed (k : Kernel) : Prop where
  live : ∀ level, ∀ slot ∈ (k.queue level).toList,
    slot.val < k.pcbs.count ∧ (k.pcb slot).queueLevel = level
  sized : ∀ level, (k.queue level).toList.length = (k.slotsAt level).length
  taken : k.pushRefused = false

@[simp] theorem mem_slotsAt {k : Kernel} {level : QueueLevel} {slot : Slot} :
    slot ∈ k.slotsAt level ↔ slot.val < k.pcbs.count ∧ (k.pcb slot).queueLevel = level := by
  simp [slotsAt]

theorem nodup_slotsAt (k : Kernel) (level : QueueLevel) : (k.slotsAt level).Nodup :=
  k.pcbs.nodup_slots.filter _

/-- The slots of a level are listed upwards. -/
theorem sorted_slotsAt (k : Kernel) (level : QueueLevel) : (k.slotsAt level).Pairwise (· < ·) :=
  ((List.pairwise_lt_finRange maxProcesses).sublist (List.take_sublist _ _)).sublist
    List.filter_sublist

theorem length_slotsAt_le (k : Kernel) (level : QueueLevel) :
    (k.slotsAt level).length ≤ k.pcbs.count := by
  -- The slots of a level are some of the live ones.
  rw [← k.pcbs.length_slots]
  exact List.length_filter_le _ _

/-- The slots of a level are as many as the processes of the level. -/
theorem length_slotsAt (k : Kernel) (level : QueueLevel) :
    (k.slotsAt level).length = k.pcbs.entries.countP fun p => p.queueLevel == level := by
  -- Counting over the entries is counting over the slots that hold them.
  rw [SlotArray.entries, List.countP_map, List.countP_eq_length_filter]
  rfl

/-- Tables that agree on the live slots and their levels list the same slots at each level. -/
theorem slotsAt_congr {k k' : Kernel} (slots : k'.pcbs.slots = k.pcbs.slots)
    (levels : ∀ slot ∈ k.pcbs.slots, (k'.pcb slot).queueLevel = (k.pcb slot).queueLevel)
    (level : QueueLevel) : k'.slotsAt level = k.slotsAt level := by
  -- The same walk is filtered by the same levels.
  rw [slotsAt, slotsAt, slots]
  exact List.filter_congr fun slot member => by rw [levels slot member]

/-- A new slot is listed behind the others of its level, and at no other level. -/
theorem slotsAt_snoc {k k' : Kernel} {new : Slot} (slots : k'.pcbs.slots = k.pcbs.slots ++ [new])
    (levels : ∀ slot ∈ k.pcbs.slots, (k'.pcb slot).queueLevel = (k.pcb slot).queueLevel)
    (level : QueueLevel) :
    k'.slotsAt level =
      k.slotsAt level ++ if (k'.pcb new).queueLevel = level then [new] else [] := by
  rw [slotsAt, slotsAt, slots, List.filter_append]
  congr 1
  · exact List.filter_congr fun slot member => by rw [levels slot member]
  · by_cases own : (k'.pcb new).queueLevel = level <;> simp [own]

/-- A rebuild files exactly the live slots of each level, in table order. -/
theorem rebuildQueues_slotsAt (k : Kernel) (level : QueueLevel) :
    (k.rebuildQueues.queue level).toList = k.rebuildQueues.slotsAt level := by
  rw [rebuildQueues_queue]
  simp [slotsAt, pcb]

/-- The ways a step can move the queues and the levels, the rotation apart. -/
inductive Refiles (k k' : Kernel) : Prop where
  | same (slots : k'.pcbs.slots = k.pcbs.slots)
      (levels : ∀ slot ∈ k.pcbs.slots, (k'.pcb slot).queueLevel = (k.pcb slot).queueLevel)
      (queues : k'.queue = k.queue) (refused : k'.pushRefused = k.pushRefused)
  | added (new : Slot) (fresh : new ∉ k.pcbs.slots) (slots : k'.pcbs.slots = k.pcbs.slots ++ [new])
      (levels : ∀ slot ∈ k.pcbs.slots, (k'.pcb slot).queueLevel = (k.pcb slot).queueLevel)
      (queues : ∀ level, (k'.queue level).toList = (k.queue level).toList ++
        if (k'.pcb new).queueLevel = level then [new] else [])
      (refused : k'.pushRefused = k.pushRefused)
  | rebuilt (queues : ∀ level, (k'.queue level).toList = k'.slotsAt level)
      (refused : k'.pushRefused = k.pushRefused)

/-- The rotation of queue_Q1: its front goes, and a slot it holds is pushed. -/
structure Rotates (k k' : Kernel) (slot : Slot) : Prop where
  slots : k'.pcbs.slots = k.pcbs.slots
  levels : ∀ slot ∈ k.pcbs.slots, (k'.pcb slot).queueLevel = (k.pcb slot).queueLevel
  queued : slot ∈ (k.queue .interactive).toList
  interactive : (k'.queue .interactive).toList = (k.queue .interactive).toList.tail ++ [slot]
  others : ∀ level, level ≠ .interactive → k'.queue level = k.queue level
  refused : k'.pushRefused = k.pushRefused

/-- Every queue has room for one more process as long as the table has. -/
theorem Filed.room {k : Kernel} (filed : Filed k) (room : k.pcbs.count < maxProcesses)
    (level : QueueLevel) : (k.queue level).toList.length < maxProcesses := by
  -- A queue is never longer than the table.
  rw [filed.sized level]
  exact Nat.lt_of_le_of_lt (k.length_slotsAt_le level) room

/-- However a step moves them, the queues stay filed. -/
theorem Filed.refiles {k k' : Kernel} (filed : Filed k) (moved : Refiles k k') : Filed k' := by
  cases moved with
  | same slots levels queues refused =>
    -- Neither side of the invariant has changed.
    have listed := slotsAt_congr slots levels
    refine ⟨fun level slot member => ?_, fun level => ?_, refused.trans filed.taken⟩
    · rw [queues] at member
      rw [← mem_slotsAt, listed, mem_slotsAt]
      exact filed.live level slot member
    · rw [queues, listed]
      exact filed.sized level
  | added new fresh slots levels queues refused =>
    -- The slots of a level grow by the new slot exactly where the queue does.
    have listed := slotsAt_snoc slots levels
    refine ⟨fun level slot member => ?_, fun level => ?_, refused.trans filed.taken⟩
    -- An entry was there before, or is the one pushed.
    · rw [← mem_slotsAt, listed level, List.mem_append]
      rw [queues level, List.mem_append] at member
      exact member.imp_left fun old => mem_slotsAt.mpr (filed.live level slot old)
    · rw [queues level, listed level, List.length_append, List.length_append, filed.sized level]
  | rebuilt queues refused =>
    -- A rebuilt queue lists the slots of its level by construction.
    refine ⟨fun level slot member => ?_, fun level => ?_, refused.trans filed.taken⟩
    · rw [queues level] at member
      exact mem_slotsAt.mp member
    · rw [queues level]

/-- A rotation keeps the queues filed, whichever slot it pushes. -/
theorem Filed.rotates {k k' : Kernel} {slot : Slot} (filed : Filed k) (moved : Rotates k k' slot) :
    Filed k' := by
  -- The table has the same slots at each level, so only the queue of the rotation needs an argument.
  have listed := slotsAt_congr moved.slots moved.levels
  refine ⟨fun level other member => ?_, fun level => ?_, moved.refused.trans filed.taken⟩
  · rw [← mem_slotsAt, listed, mem_slotsAt]
    by_cases interactive : level = .interactive
    · -- Both the entries that stayed and the one pushed were in the queue before.
      subst interactive
      rw [moved.interactive] at member
      rcases List.mem_append.mp member with stayed | pushed
      · exact filed.live _ _ (List.mem_of_mem_tail stayed)
      · rw [List.mem_singleton.mp pushed]
        exact filed.live _ _ moved.queued
    · rw [moved.others level interactive] at member
      exact filed.live level other member
  · rw [listed]
    by_cases interactive : level = .interactive
    · -- One entry goes and one comes.
      subst interactive
      have positive := List.length_pos_of_mem moved.queued
      rw [← filed.sized, moved.interactive]
      simp only [List.length_append, List.length_tail, List.length_cons, List.length_nil]
      omega
    · rw [moved.others level interactive]
      exact filed.sized level

private theorem setPcb_refiles {k k' : Kernel} {slot : Slot} {p : Process}
    (pcbs : k'.pcbs = k.pcbs.set slot p) (level : p.queueLevel = (k.pcb slot).queueLevel)
    (queues : k'.queue = k.queue) (refused : k'.pushRefused = k.pushRefused) : Refiles k k' := by
  -- Only one slot is written, and its level is the same.
  refine .same (by simp [pcbs]) (fun other _ => ?_) queues refused
  simp only [pcb, pcbs, SlotArray.get_set] at level ⊢
  split
  · rename_i here
    rw [← here, level]
  · rfl

private theorem created_refiles {k : Kernel} (filed : Filed k) (room : k.pcbs.count < maxProcesses)
    (p : Process) (resources : Resources) :
    Refiles k (({ k with pcbs := k.pcbs.append room p, resources := resources } : Kernel).push
      p.queueLevel (k.pcbs.nextSlot room)) := by
  -- There is a free cell, so the queues have room as well and the push is taken.
  have pushed := push_room (k := { k with pcbs := k.pcbs.append room p, resources := resources })
    (filed.room room p.queueLevel) (k.pcbs.nextSlot room)
  have own : (k.pcbs.append room p).get (k.pcbs.nextSlot room) = p := k.pcbs.get_append_self room p
  refine .added (k.pcbs.nextSlot room) ?_ (k.pcbs.slots_append room p) (fun slot member => ?_)
    (fun level => ?_) pushed.1
  · simp [SlotArray.nextSlot]
  · exact congrArg Process.queueLevel (SlotArray.get_append_of_lt room p (SlotArray.mem_slots.mp member))
  · rw [pushed.2 level, push_pcb]
    simp only [pcb, own]

private theorem agingTick_refiles (k : Kernel) : Refiles k k.agingTick := by
  unfold agingTick
  dsimp only
  split
  · -- A level may have changed, so the queues were rebuilt from the swept table.
    exact .rebuilt (rebuildQueues_slotsAt _) (by simp)
  · rename_i unchanged
    -- Without a raised flag every live process has kept its level.
    rw [SlotArray.sweep_flag, Bool.not_eq_true, List.any_eq_false] at unchanged
    refine .same (k.pcbs.slots_sweep ageProcess) (fun slot member => ?_) rfl rfl
    have kept := unchanged slot member
    simp only [pcb, SlotArray.get_sweep, SlotArray.mem_slots.mp member, ↓reduceIte]
    exact ageProcess_level (by simpa using kept)

theorem rotateInteractive_rotates {k : Kernel} {slot : Slot}
    (queued : slot ∈ (k.queue .interactive).toList) :
    Rotates k ((k.dispatchProcess slot).rotateInteractive slot) slot := by
  -- The pop makes room, so the push behind it is taken.
  have shorter : (k.queue .interactive).pop.2.toList.length < maxProcesses := by
    have positive := List.length_pos_of_mem queued
    have bounded := (k.queue .interactive).length_toList_le
    simp only [RingQueue.toList_pop, List.length_tail]
    omega
  refine ⟨rfl, fun other _ => ?_, queued, ?_, fun level other => ?_, ?_⟩
  -- A dispatch writes the state and the core number, and no level.
  · show ((k.dispatchProcess slot).pcb other).queueLevel = _
    rw [dispatchProcess, pcb_setPcb]
    split
    · rename_i here
      rw [← here]
      rfl
    · rfl
  · simp [rotateInteractive, push, dispatchProcess, RingQueue.toList_push shorter]
  · simp [rotateInteractive, push, dispatchProcess, other]
  · have taken : ((k.queue .interactive).pop.2.push slot).1 = true := by
      simpa only [RingQueue.push_fst, decide_eq_true_eq] using shorter
    simp [rotateInteractive, push, dispatchProcess, taken, setPcb]

private theorem Effect.refiles {k k' : Kernel} (filed : Filed k) (effect : Effect k k') :
    Refiles k k' := by
  -- Queues move with the table only: by a push, or by a rebuild.
  cases effect with
  | kept resources cores => exact .same rfl (fun _ _ => rfl) rfl rfl
  | created room p ready idle resources cores => exact created_refiles filed room p resources
  | removed slot live resources cores =>
    exact .rebuilt (rebuildQueues_slotsAt { k with pcbs := k.pcbs.removeAt slot }) (by simp)
  | reprioritised slot live priority => exact setPcb_refiles rfl rfl rfl rfl
  | unblocked slot live blocked => exact setPcb_refiles rfl rfl rfl rfl
  | stopped slot live text stops =>
    rw [stopped_eq]
    exact setPcb_refiles rfl rfl rfl rfl
  | aged => exact agingTick_refiles k

/-- Every step moves the queues in one of the listed ways, or is a tick that rotates queue_Q1. -/
theorem step_refiles {k : Kernel} (filed : Filed k) (op : KernelOp) :
    (Refiles k (k.step op) ∧ (op = .schedulerTick →
      k.firstReady .system = none → k.firstReady .interactive = none)) ∨
    (∃ slot, op = .schedulerTick ∧ k.firstReady .system = none ∧
      k.firstReady .interactive = some slot ∧ Rotates k (k.step op) slot) := by
  cases op with
  | schedulerTick =>
    -- Only a dispatch from queue_Q1 rotates.
    rcases k.schedulerTick_cases with ⟨-, idle, tick⟩ | ⟨slot, level, -, -, skipped, tick⟩ |
      ⟨slot, -, nothingAbove, found, tick⟩
    · rw [step, tick]
      exact Or.inl ⟨.same rfl (fun _ _ => rfl) rfl rfl, fun _ _ => idle _⟩
    · rw [step, tick]
      exact Or.inl ⟨setPcb_refiles rfl rfl rfl rfl, fun _ => skipped⟩
    · rw [step, tick]
      exact Or.inr ⟨slot, rfl, nothingAbove, found,
        rotateInteractive_rotates (firstReady_some found).1⟩
  | sendResume pid =>
    -- A resume writes a state text at most.
    rcases k.sendResume_cases pid with ⟨-, same⟩ | ⟨slot, -, -, set⟩
    · rw [same]
      exact Or.inl ⟨.same rfl (fun _ _ => rfl) rfl rfl, by simp⟩
    · rw [set]
      exact Or.inl ⟨setPcb_refiles rfl rfl rfl rfl, by simp⟩
  | _ => exact Or.inl ⟨(step_effect (by simp) (by simp)).refiles filed, by simp⟩

theorem Filed.step {k : Kernel} (filed : Filed k) (op : KernelOp) : Filed (k.step op) := by
  rcases step_refiles filed op with ⟨moved, -⟩ | ⟨slot, -, -, -, moved⟩
  · exact filed.refiles moved
  · exact filed.rotates moved

theorem filed_boot (ramMb hddMb cores : Int) : Filed (boot ramMb hddMb cores) := by
  -- Nothing is queued and nothing is in the table.
  refine ⟨fun level slot member => ?_, fun level => ?_, rfl⟩
  · simp [boot, initResources, zeroed] at member
  · simp [boot, initResources, zeroed, slotsAt]

/-- The queues are filed in every state a run of the kernel reaches. -/
theorem filed_run (ramMb hddMb cores : Int) (ops : List KernelOp) :
    Filed (Machine.run Kernel.step (boot ramMb hddMb cores) ops) :=
  Machine.invariant_run (fun _ op filed => filed.step op) (filed_boot ramMb hddMb cores) ops

/-- What the users of the queues rely on. -/
structure QueuesSound (k : Kernel) : Prop where
  /-- Every entry of a queue points at a live slot of the queue's level. -/
  entries : ∀ level, ∀ slot ∈ (k.queue level).toList,
    slot.val < k.pcbCount ∧ (k.pcb slot).queueLevel = level
  /-- A queue is as long as the table has processes of its level. -/
  sizes : ∀ level, (k.queue level).size = k.pcbs.entries.countP fun p => p.queueLevel == level
  /-- No push made so far has answered false. -/
  pushes : k.pushRefused = false
  /-- Reading at an index below the size finds a live process. -/
  gets : ∀ level, ∀ index : Int, 0 ≤ index → index < (k.queue level).size →
    ∃ slot, (k.queue level).get index = some slot ∧ slot.val < k.pcbCount
  /-- A tick dispatches no removed slot. -/
  dispatches : ∀ slot, k.dispatchTarget = some slot → slot.val < k.pcbCount

/-- In every reachable state the queues are sound. -/
theorem queuesSound_run (ramMb hddMb cores : Int) (ops : List KernelOp) :
    QueuesSound (Machine.run Kernel.step (boot ramMb hddMb cores) ops) := by
  have filed := filed_run ramMb hddMb cores ops
  refine ⟨filed.live, fun level => ?_, filed.taken, fun level index lower upper => ?_,
    fun slot target => ?_⟩
  · rw [RingQueue.size_eq, filed.sized, length_slotsAt]
  · -- An index in range reads an entry of the queue, and every entry is live.
    obtain ⟨position, rfl⟩ := Int.eq_ofNat_of_zero_le lower
    rw [RingQueue.size_eq] at upper
    have inside : position < (RingQueue.toList _).length := Int.ofNat_lt.mp upper
    refine ⟨_, (RingQueue.get_natCast _ position).trans (List.getElem?_eq_getElem inside), ?_⟩
    exact (filed.live level _ (List.getElem_mem inside)).1
  -- What a tick dispatches it has found in a queue.
  · obtain ⟨level, queued, -⟩ := dispatchTarget_some target
    exact (filed.live level slot queued).1

end Kernel

end Nebula
