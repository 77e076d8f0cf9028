import Nebula.Library.Line
import Nebula.Queues.Chronicle
import Nebula.Queues.Rotation

/-! What a step does to queue_Q1, read as a line of processes that keep their numbers. -/

namespace Nebula

open CText

namespace Kernel

/--
A step drains the three queues and files the table anew.

A removal does so when it finds its process, and an aging tick when it changes a level.
-/
def Rebuilds (k : Kernel) (op : KernelOp) : Prop :=
  (∃ slot, k.tableEdit op = .drops slot) ∨
    op = .agingTick ∧ ∃ slot : Slot, slot.val < k.pcbCount ∧ (ageProcess (k.pcb slot)).2 = true

/-- How a step moves the queues. -/
inductive QueueStep (op : KernelOp) (k k' : Kernel) : Prop where
  | kept (edit : k.tableEdit op = .keeps) (other : op ≠ .schedulerTick) (queue : k'.queue = k.queue)
  | pushed (level : QueueLevel) (edit : k.tableEdit op = .adds level)
      (room : k.pcbs.count < maxProcesses)
      (queue : k'.queue = (k.push level (k.pcbs.nextSlot room)).queue)
  | rebuilt (rebuilds : k.Rebuilds op) (other : op ≠ .schedulerTick)
      (queues : ∀ level, (k'.queue level).toList = k'.slotsAt level)
  | ticked (tick : op = .schedulerTick)

private theorem createPcb_queue {op : KernelOp} (other : op ≠ .schedulerTick) (k : Kernel)
    (resources : Resources) (pid : Int) (name : Bytes) (priority : Int) {level : QueueLevel}
    (ram hdd : Int) (edit : k.tableEdit op = k.added level) :
    QueueStep op k ({ k with resources := resources }.createPcb pid name priority level ram hdd) := by
  unfold added at edit
  by_cases room : k.pcbs.count < maxProcesses
  · rw [if_pos room] at edit
    refine .pushed level edit room ?_
    unfold createPcb
    rw [dif_pos room]
    rfl
  · -- A full table drops the new process.
    rw [if_neg room] at edit
    refine .kept edit other ?_
    rw [createPcb_full (k := { k with resources := resources }) room]

private theorem removePcb_queue {op : KernelOp} (other : op ≠ .schedulerTick) (k : Kernel) (pid : Int)
    (edit : k.tableEdit op = k.dropped pid) : QueueStep op k (k.removePcb pid) := by
  unfold dropped at edit
  rw [removePcb_eq]
  -- The rows and the queues change only if the pid is found.
  cases found : k.findPcb fun p => p.pid == pid with
  | none =>
    rw [found] at edit
    refine .kept edit other ?_
    rw [deletePcb_none found]
  | some slot =>
    rw [found] at edit
    refine .rebuilt (Or.inl ⟨slot, edit⟩) other ?_
    rw [deletePcb_some found]
    exact rebuildQueues_slotsAt { k with pcbs := k.pcbs.removeAt slot }

private theorem agingTick_queue (k : Kernel) : QueueStep .agingTick k k.agingTick := by
  unfold agingTick
  dsimp only
  -- The queues are rebuilt only if the flag was raised, which some row has done.
  split
  · rename_i raised
    rw [SlotArray.sweep_flag, List.any_eq_true] at raised
    obtain ⟨slot, member, flag⟩ := raised
    exact .rebuilt (Or.inr ⟨rfl, slot, SlotArray.mem_slots.mp member, flag⟩) (by simp)
      (rebuildQueues_slotsAt _)
  · exact .kept rfl (by simp) rfl

private theorem handleIpcRequest_queue (k : Kernel) (childPid : Int) (stack message : Bytes) :
    QueueStep (.handleIpcRequest childPid stack message) k
      (k.handleIpcRequest childPid stack message).2 := by
  have other : KernelOp.handleIpcRequest childPid stack message ≠ .schedulerTick := by simp
  unfold handleIpcRequest
  -- A message can add a row, remove one, or leave the table alone.
  cases asked : requestOf stack message with
  | some request =>
    rcases k.allocateResources_cases request.ram request.hdd with ⟨-, -, granted⟩ | ⟨-, denied⟩
    · simp only [handleRequest, granted, createRequested]
      refine createPcb_queue other k _ childPid request.name _ _ _ ?_
      simp [tableEdit, asked, granted]
    · simp only [handleRequest, denied]
      exact .kept (by simp [tableEdit, asked, denied]) other rfl
  | none =>
    cases ended : terminationOf message with
    | some pid => exact removePcb_queue other k pid (by simp [tableEdit, asked, ended])
    | none => exact .kept (by simp [tableEdit, asked, ended]) other rfl

/-- Every step moves the queues in one of the listed ways. -/
theorem step_queue (k : Kernel) (op : KernelOp) : QueueStep op k (k.step op) := by
  cases op with
  | createPcb pid name priority ram hdd =>
    exact createPcb_queue (by simp) k k.resources pid name priority ram hdd rfl
  | removePcb pid => exact removePcb_queue (by simp) k pid rfl
  | schedulerTick => exact .ticked rfl
  | agingTick => exact k.agingTick_queue
  | handleIpcRequest childPid stack message => exact handleIpcRequest_queue k childPid stack message
  -- The loops below write at most one slot of the table and no queue.
  | setProcessPriority pid priority =>
    refine .kept rfl (by simp) ?_
    simp only [step, setProcessPriority]
    split <;> rfl
  | sendInterrupt pid =>
    refine .kept rfl (by simp) ?_
    simp only [step, sendInterrupt]
    split
    · rfl
    · rw [stopped_eq]
  | unblockAfterDelay pid =>
    refine .kept rfl (by simp) ?_
    simp only [step, unblockAfterDelay]
    split <;> rfl
  | sendMinimize pid =>
    refine .kept rfl (by simp) ?_
    simp only [step, sendMinimize]
    split
    · rfl
    · rw [stopped_eq]
  | sendResume pid =>
    refine .kept rfl (by simp) ?_
    simp only [step, sendResume]
    split <;> rfl

end Kernel

namespace Chronicle

/-- The number of the process that a step dispatches from queue_Q1, if it does. -/
def dispatched (c : Chronicle) : KernelOp → Option Nat
  | .schedulerTick =>
    match c.kernel.firstReady .system with
    | some _ => none
    | none => (c.kernel.firstReady .interactive).map c.number
  | _ => none

/-- What a step does to queue_Q1 as a line of numbers. -/
inductive LineStep (op : KernelOp) (c c' : Chronicle) : Prop where
  | same (line : c'.line .interactive = c.line .interactive) (idle : c.dispatched op = none)
  | joined (line : c'.line .interactive = c.line .interactive ++ [c.created])
      (idle : c.dispatched op = none)
  | rotated (slot : Slot) (served : c.dispatched op = some (c.number slot))
      (tick : op = .schedulerTick) (nothingAbove : c.kernel.firstReady .system = none)
      (found : c.kernel.firstReady .interactive = some slot)
      (line : c'.line .interactive = (c.line .interactive).tail ++ [c.number slot])
  | rebuilt (rebuilds : c.kernel.Rebuilds op) (line : c'.line .interactive = c'.roll .interactive)
      (idle : c.dispatched op = none)

theorem dispatched_none {c : Chronicle} {op : KernelOp} (other : op ≠ .schedulerTick) :
    c.dispatched op = none := by
  cases op with
  | schedulerTick => exact absurd rfl other
  | _ => rfl

/-- A step that keeps the rows keeps the numbers of the slots. -/
theorem number_of_keeps {c : Chronicle} {op : KernelOp} (edit : c.kernel.tableEdit op = .keeps) :
    (c.step op).number = c.number := by
  funext slot
  simp [step, edit, number, birth]

private theorem pushed_line {c : Chronicle} (numbered : Numbered c) {op : KernelOp}
    {level : QueueLevel} (edit : c.kernel.tableEdit op = .adds level)
    (room : c.kernel.pcbs.count < maxProcesses)
    (queue : (c.kernel.step op).queue = (c.kernel.push level (c.kernel.pcbs.nextSlot room)).queue) :
    (c.step op).line .interactive =
      c.line .interactive ++ if level = .interactive then [c.created] else [] := by
  -- The births grow by the new one, and each slot filed before keeps its own.
  have births : (c.step op).births = c.births ++ [⟨c.created, level⟩] := by simp [step, edit]
  have old : ∀ slot ∈ (c.kernel.queue .interactive).toList,
      (c.step op).number slot = c.number slot := by
    intro slot member
    have live := (numbered.settled.filed.live .interactive slot member).1
    rw [← numbered.aligned] at live
    simp [number, birth, births, List.getElem?_append_left live]
  have new : (c.step op).number (c.kernel.pcbs.nextSlot room) = c.created := by
    simp [number, birth, births, SlotArray.nextSlot, ← numbered.aligned]
  have pushed := (Kernel.push_room (numbered.settled.filed.room room level)
    (c.kernel.pcbs.nextSlot room)).2 .interactive
  rw [line, line, step_kernel, queue, pushed, List.map_append]
  congr 1
  · exact List.map_congr_left old
  · split
    · rw [List.map_singleton, new]
    · rfl

private theorem ticked_line {c : Chronicle} (numbered : Numbered c) :
    LineStep .schedulerTick c (c.step .schedulerTick) := by
  have numbers : (c.step .schedulerTick).number = c.number := number_of_keeps rfl
  rcases Kernel.step_refiles numbered.settled.filed .schedulerTick with
    ⟨-, idle⟩ | ⟨slot, -, nothingAbove, found, moved⟩
  · -- Without a rotation the tick serves another queue, or none.
    have none : c.dispatched .schedulerTick = none := by
      unfold dispatched
      cases above : c.kernel.firstReady .system with
      | some slot => rfl
      | none => simp [idle rfl above]
    refine .same ?_ none
    rw [line, line, step_kernel, numbers]
    rcases c.kernel.schedulerTick_cases with ⟨-, -, tick⟩ | ⟨slot, level, -, -, -, tick⟩ |
      ⟨slot, -, nothingAbove, found, -⟩
    · rw [Kernel.step, tick]
    · rw [Kernel.step, tick]
      rfl
    · rw [idle rfl nothingAbove] at found
      cases found
  · refine .rotated slot ?_ rfl nothingAbove found ?_
    · simp [dispatched, nothingAbove, found]
    · rw [line, line, step_kernel, numbers, moved.interactive, List.map_append, List.map_tail]
      rfl

/-- Every step moves the line of queue_Q1 in one of the listed ways. -/
theorem Numbered.step_line {c : Chronicle} (numbered : Numbered c) (op : KernelOp) :
    LineStep op c (c.step op) := by
  cases c.kernel.step_queue op with
  | kept edit other queue =>
    -- Neither the queue nor the numbers of its slots change.
    refine .same ?_ (dispatched_none other)
    rw [line, line, step_kernel, queue, number_of_keeps edit]
  | pushed level edit room queue =>
    have other : op ≠ .schedulerTick := by
      rintro rfl
      cases edit
    have line := pushed_line numbered edit room queue
    by_cases interactive : level = .interactive
    · rw [if_pos interactive] at line
      exact .joined line (dispatched_none other)
    · rw [if_neg interactive, List.append_nil] at line
      exact .same line (dispatched_none other)
  | rebuilt rebuilds other queues =>
    refine .rebuilt rebuilds ?_ (dispatched_none other)
    rw [(numbered.step op).roll_eq, line, step_kernel, queues]
  | ticked tick =>
    subst tick
    exact ticked_line numbered

/-- Who is in queue_Q1, when every process is queued once. -/
theorem Numbered.mem_line {c : Chronicle} (numbered : Numbered c) (once : c.kernel.EachFiledOnce)
    {number : Nat} : number ∈ c.line .interactive ↔
      ∃ record ∈ c.records, record.1.number = number ∧ record.2.queueLevel = .interactive := by
  rw [line, ((once.perm numbered.settled.filed .interactive).map c.number).mem_iff,
    ← numbered.roll_eq, roll]
  simp only [List.mem_map, List.mem_filter, beq_iff_eq, and_assoc, and_comm]

theorem Numbered.nodup_line {c : Chronicle} (numbered : Numbered c)
    (once : c.kernel.EachFiledOnce) : (c.line .interactive).Nodup := by
  -- The queue lists the slots of its level in some order, and their numbers are all different.
  rw [line, ((once.perm numbered.settled.filed .interactive).map c.number).nodup_iff]
  refine (c.kernel.nodup_slotsAt .interactive).map_on fun first here second there same => ?_
  exact numbered.number_inj (Kernel.mem_slotsAt.mp here).1 (Kernel.mem_slotsAt.mp there).1 same

end Chronicle

end Nebula
