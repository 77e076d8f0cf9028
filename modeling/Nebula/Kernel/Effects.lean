import Nebula.Kernel.IpcManager

/-! What a step can do to the kernel, said once for every invariant. -/

namespace Nebula

namespace Kernel

/-- Resources that agree with the kernel's on the cores. -/
def SameCores (k : Kernel) (resources : Resources) : Prop :=
  resources.freeCores = k.resources.freeCores ∧ resources.totalCores = k.resources.totalCores

/-- The outcomes of the steps that neither dispatch nor resume a process. -/
inductive Effect (k : Kernel) : Kernel → Prop where
  /-- At most the memory and disk counters move. -/
  | kept (resources : Resources) (cores : k.SameCores resources) :
      Effect k { k with resources := resources }
  /-- A READY process without a core is added and filed. -/
  | created (room : k.pcbs.count < maxProcesses) (p : Process) (ready : p.state = stateReady)
      (idle : p.coreId = -1) (resources : Resources) (cores : k.SameCores resources) :
      Effect k ({ k with pcbs := k.pcbs.append room p, resources := resources }.push p.queueLevel
        (k.pcbs.nextSlot room))
  /-- A live process is removed and the queues are rebuilt. -/
  | removed (slot : Slot) (live : slot.val < k.pcbs.count) (resources : Resources)
      (cores : k.SameCores resources) :
      Effect k { ({ k with pcbs := k.pcbs.removeAt slot } : Kernel).rebuildQueues with
        resources := resources }
  /-- A live process gets another priority. -/
  | reprioritised (slot : Slot) (live : slot.val < k.pcbs.count) (priority : Int) :
      Effect k (k.setPcb slot { k.pcb slot with priority := priority })
  /-- A live process that was blocked becomes ready. -/
  | unblocked (slot : Slot) (live : slot.val < k.pcbs.count)
      (blocked : looksBlocked (k.pcb slot).state = true) : Effect k (k.setState slot stateReady)
  /-- A live process is blocked or minimised and gives its core back if it has one. -/
  | stopped (slot : Slot) (live : slot.val < k.pcbs.count) (text : CText.Bytes)
      (stops : text = stateBlocked ∨ text = stateMinimized) :
      Effect k ((k.setState slot text).dropCore slot)
  /-- Every live process ages. -/
  | aged : Effect k k.agingTick

private theorem createPcb_effect (k : Kernel) (resources : Resources) (cores : k.SameCores resources)
    (pid : Int) (name : CText.Bytes) (priority : Int) (level : QueueLevel) (ram hdd : Int) :
    Effect k ({ k with resources := resources }.createPcb pid name priority level ram hdd) := by
  -- A full table drops the process and keeps whatever was charged for it.
  by_cases room : k.pcbs.count < maxProcesses
  · have added := Effect.created room (newProcess pid name priority level ram hdd)
      (by simp [newProcess]) rfl resources cores
    unfold createPcb
    rw [dif_pos room]
    exact added
  · unfold createPcb
    rw [dif_neg room]
    exact .kept resources cores

private theorem removePcb_effect (k : Kernel) (pid : Int) : Effect k (k.removePcb pid) := by
  -- Removal gives memory and disk back, after a deletion that may find nothing.
  have cores := k.removePcb_cores pid
  rw [removePcb_eq]
  cases found : k.findPcb fun p => p.pid == pid with
  | none =>
    rw [deletePcb_none found]
    exact .kept _ cores
  | some slot =>
    rw [deletePcb_some found]
    exact .removed slot (findPcb_some found).1 _ cores

/-- Every step but a tick and a resume has one of the listed outcomes. -/
theorem step_effect {k : Kernel} {op : KernelOp} (noTick : op ≠ .schedulerTick)
    (noResume : ∀ pid, op ≠ .sendResume pid) : Effect k (k.step op) := by
  -- A table loop that finds no process leaves the kernel as it is.
  have unchanged : Effect k k := .kept k.resources ⟨rfl, rfl⟩
  cases op with
  | createPcb pid name priority ram hdd => exact createPcb_effect k k.resources ⟨rfl, rfl⟩ ..
  | removePcb pid => exact removePcb_effect k pid
  -- The loops below differ in their test and in what they write to the slot they find.
  | setProcessPriority pid priority =>
    simp only [step, setProcessPriority]
    split
    · exact unchanged
    · rename_i slot found
      exact .reprioritised slot (findPcb_some found).1 _
  | sendInterrupt pid =>
    simp only [step, sendInterrupt]
    split
    · exact unchanged
    · rename_i slot found
      exact .stopped slot (findPcb_some found).1 _ (Or.inl rfl)
  | unblockAfterDelay pid =>
    simp only [step, unblockAfterDelay]
    split
    · exact unchanged
    · rename_i slot found
      -- The timer looks for a process that is still blocked.
      have blocked := (findPcb_some found).2
      simp only [Bool.and_eq_true] at blocked
      exact .unblocked slot (findPcb_some found).1 blocked.2
  | sendMinimize pid =>
    simp only [step, sendMinimize]
    split
    · exact unchanged
    · rename_i slot found
      exact .stopped slot (findPcb_some found).1 _ (Or.inr rfl)
  | sendResume pid => exact absurd rfl (noResume pid)
  | schedulerTick => exact absurd rfl noTick
  | agingTick => exact .aged
  | handleIpcRequest childPid stack message =>
    simp only [step]
    -- A message is ignored, answered with a new process or without one, or removes a process.
    rcases k.handleIpcRequest_cases childPid stack message with
      same | ⟨request, resources, free, total, created⟩ | ⟨pid, removed⟩
    · rw [same]
      exact unchanged
    · rw [created]
      exact createPcb_effect k resources ⟨free, total⟩ ..
    · rw [removed]
      exact removePcb_effect k pid

/-- A resume finds no process, or sets the text of the one it finds and nothing else. -/
theorem sendResume_cases (k : Kernel) (pid : Int) :
    (k.findPcb (fun p => p.pid == pid) = none ∧ k.step (.sendResume pid) = k) ∨
    (∃ slot, k.findPcb (fun p => p.pid == pid) = some slot ∧ slot.val < k.pcbs.count ∧
      k.step (.sendResume pid) = k.setState slot stateRunning) := by
  -- The loop stops at the first process with the pid.
  cases found : k.findPcb fun p => p.pid == pid with
  | none => exact Or.inl ⟨rfl, by simp [step, sendResume, found]⟩
  | some slot =>
    exact Or.inr ⟨slot, rfl, (findPcb_some found).1, by simp [step, sendResume, found]⟩

/-- The table and the counters after a process is stopped. -/
theorem stopped_eq (k : Kernel) (slot : Slot) (text : CText.Bytes) :
    (k.setState slot text).dropCore slot =
      { k with
        pcbs := k.pcbs.set slot { (k.pcb slot).setState text with
          coreId := if (k.pcb slot).coreId ≥ 0 then -1 else (k.pcb slot).coreId }
        resources := { k.resources with
          freeCores := k.resources.freeCores + if (k.pcb slot).coreId ≥ 0 then 1 else 0 } } := by
  -- Writing the state leaves the core number for the test that follows.
  have here : (k.setState slot text).pcb slot = (k.pcb slot).setState text := by
    simp [setState, pcb_setPcb]
  have core : ((k.pcb slot).setState text).coreId = (k.pcb slot).coreId := rfl
  unfold dropCore
  rw [here, core]
  -- The two writes to the slot come to one, which hides the first.
  by_cases holds : (k.pcb slot).coreId ≥ 0
  · simp only [if_pos holds, setState, setPcb, releaseCore, SlotArray.set_set]
  · simp only [if_neg holds, Int.add_zero]
    rfl

end Kernel

end Nebula
