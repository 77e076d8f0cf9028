import Nebula.Kernel.State

/-! Creating, removing and reprioritising processes, as the process manager does it. -/

namespace Nebula

open CText

/-- The task names that go to the interactive queue. -/
def interactiveNames : List Bytes :=
  [ascii "Calculator", ascii "Notepad", ascii "Calendar", ascii "Minigame", ascii "Dice Roller",
    ascii "Task Manager", ascii "Mini Terminal", ascii "To-Do List", ascii "Resource Dashboard",
    ascii "Log Viewer", ascii "Instruction Guide"]

def getQueueLevel (taskName : Bytes) : QueueLevel :=
  if taskName = ascii "Clock" ∨ taskName = ascii "Log Daemon" then .system
  else if taskName ∈ interactiveNames then .interactive
  else .background

/-- The block create_pcb fills in, every field of the slot being overwritten. -/
def newProcess (pid : Int) (name : Bytes) (priority : Int) (level : QueueLevel) (ram hdd : Int) :
    Process where
  pid := pid
  name := copyInto maxName name
  state := copyInto maxState stateReady
  priority := priority
  queueLevel := level
  ramAlloc := ram
  hddAlloc := hdd
  waitTime := 0
  coreId := -1

namespace Kernel

/-- The first live process that passes a test, as the table loops look for it. -/
def findPcb (k : Kernel) (test : Process → Bool) : Option Slot := k.pcbs.findFirst test

/-- The part of create_pcb under pcb_lock; a full table is left as it is. -/
def createPcb (k : Kernel) (pid : Int) (name : Bytes) (priority : Int) (level : QueueLevel)
    (ram hdd : Int) : Kernel :=
  if room : k.pcbs.count < maxProcesses then
    { k with pcbs := k.pcbs.append room (newProcess pid name priority level ram hdd) }.push level
      (k.pcbs.nextSlot room)
  else k

/--
The part of remove_pcb under pcb_lock, with the amounts of the block it deleted.

Slots move when the table is shifted, so all queues are drained and filed anew.
-/
def deletePcb (k : Kernel) (pid : Int) : Option (Int × Int) × Kernel :=
  match k.findPcb fun p => p.pid == pid with
  | none => (none, k)
  | some slot =>
    (some ((k.pcb slot).ramAlloc, (k.pcb slot).hddAlloc),
      { k with pcbs := k.pcbs.removeAt slot }.rebuildQueues)

/-- remove_pcb: delete the block and give its amounts back. -/
def removePcb (k : Kernel) (pid : Int) : Kernel :=
  match k.deletePcb pid with
  | (none, k) => k
  | (some (ram, hdd), k) => k.reclaimResources ram hdd

/-- set_process_priority, which holds the new priority between zero and ten. -/
def setProcessPriority (k : Kernel) (pid : Int) (priority : Int) : Kernel :=
  match k.findPcb fun p => p.pid == pid with
  | none => k
  | some slot => k.setPcb slot { k.pcb slot with priority := min (max priority 0) 10 }

theorem findPcb_some {k : Kernel} {test : Process → Bool} {slot : Slot}
    (found : k.findPcb test = some slot) : slot.val < k.pcbs.count ∧ test (k.pcb slot) = true :=
  SlotArray.findFirst_some found

theorem findPcb_none {k : Kernel} {test : Process → Bool} :
    k.findPcb test = none ↔ ∀ slot : Slot, slot.val < k.pcbs.count → test (k.pcb slot) = false :=
  SlotArray.findFirst_none

theorem createPcb_full {k : Kernel} (full : ¬ k.pcbs.count < maxProcesses) (pid : Int) (name : Bytes)
    (priority : Int) (level : QueueLevel) (ram hdd : Int) :
    k.createPcb pid name priority level ram hdd = k := by
  simp [createPcb, full]

@[simp] theorem createPcb_resources (k : Kernel) (pid : Int) (name : Bytes) (priority : Int)
    (level : QueueLevel) (ram hdd : Int) :
    (k.createPcb pid name priority level ram hdd).resources = k.resources := by
  unfold createPcb
  split <;> rfl

theorem createPcb_pcbs {k : Kernel} (room : k.pcbs.count < maxProcesses) (pid : Int) (name : Bytes)
    (priority : Int) (level : QueueLevel) (ram hdd : Int) :
    (k.createPcb pid name priority level ram hdd).pcbs =
      k.pcbs.append room (newProcess pid name priority level ram hdd) := by
  simp [createPcb, room]

/-- The live processes after create_pcb: one more at the end, unless the table is full. -/
theorem createPcb_entries (k : Kernel) (pid : Int) (name : Bytes) (priority : Int)
    (level : QueueLevel) (ram hdd : Int) :
    (k.createPcb pid name priority level ram hdd).pcbs.entries =
      if k.pcbs.count < maxProcesses then
        k.pcbs.entries ++ [newProcess pid name priority level ram hdd]
      else k.pcbs.entries := by
  by_cases room : k.pcbs.count < maxProcesses
  · simp [createPcb_pcbs room, SlotArray.entries_append, room]
  · simp [createPcb_full room, room]

theorem deletePcb_none {k : Kernel} {pid : Int} (absent : k.findPcb (fun p => p.pid == pid) = none) :
    k.deletePcb pid = (none, k) := by
  simp [deletePcb, absent]

theorem deletePcb_some {k : Kernel} {pid : Int} {slot : Slot}
    (found : k.findPcb (fun p => p.pid == pid) = some slot) :
    k.deletePcb pid = (some ((k.pcb slot).ramAlloc, (k.pcb slot).hddAlloc),
      { k with pcbs := k.pcbs.removeAt slot }.rebuildQueues) := by
  simp [deletePcb, found]

@[simp] theorem deletePcb_resources (k : Kernel) (pid : Int) :
    (k.deletePcb pid).2.resources = k.resources := by
  unfold deletePcb
  split
  · rfl
  · simp

/-- A removal that finds its process gives back the amounts of the block it deletes. -/
theorem removePcb_some {k left : Kernel} {pid ram hdd : Int}
    (deleted : k.deletePcb pid = (some (ram, hdd), left)) :
    k.removePcb pid = left.reclaimResources ram hdd := by
  simp only [removePcb, deleted]

/-- A removal that finds no process does no more than its search. -/
theorem removePcb_none {k left : Kernel} {pid : Int} (deleted : k.deletePcb pid = (none, left)) :
    k.removePcb pid = left := by
  simp only [removePcb, deleted]

/-- Removing touches the table and the queues only as its deletion does. -/
theorem removePcb_eq (k : Kernel) (pid : Int) :
    k.removePcb pid = { (k.deletePcb pid).2 with resources := (k.removePcb pid).resources } := by
  unfold removePcb
  split
  · rename_i deleted
    rw [deleted]
  · rename_i deleted
    rw [deleted]
    rfl

/-- The free cores are no concern of removal, even of a process that holds one. -/
@[simp] theorem removePcb_cores (k : Kernel) (pid : Int) :
    (k.removePcb pid).resources.freeCores = k.resources.freeCores ∧
      (k.removePcb pid).resources.totalCores = k.resources.totalCores := by
  -- The deletion leaves the counters alone, and the reclaim adds to two others.
  have same := k.deletePcb_resources pid
  unfold removePcb
  split
  · rename_i deleted
    rw [deleted] at same
    simp [← same]
  · rename_i deleted
    rw [deleted] at same
    simp [reclaimResources, ← same]

/-- The live processes after a deletion: the first one with the pid is gone. -/
theorem deletePcb_entries (k : Kernel) (pid : Int) :
    (k.deletePcb pid).2.pcbs.entries = k.pcbs.entries.eraseP fun p => p.pid == pid := by
  -- The search of the table and that of the list find the same first process.
  cases found : k.findPcb fun p => p.pid == pid with
  | none =>
    rw [deletePcb_none found, List.eraseP_of_forall_not]
    intro p live
    obtain ⟨slot, inside, rfl⟩ := SlotArray.mem_entries.mp live
    simpa [pcb] using findPcb_none.mp found slot inside
  | some slot =>
    rw [deletePcb_some found, rebuildQueues_pcbs]
    exact SlotArray.entries_removeAt_first found

@[simp] theorem setPcb_queue (k : Kernel) (slot : Slot) (p : Process) :
    (k.setPcb slot p).queue = k.queue := rfl

@[simp] theorem setPcb_resources (k : Kernel) (slot : Slot) (p : Process) :
    (k.setPcb slot p).resources = k.resources := rfl

theorem pcb_setPcb (k : Kernel) (slot other : Slot) (p : Process) :
    (k.setPcb slot p).pcb other = if slot = other then p else k.pcb other :=
  SlotArray.get_set ..

end Kernel

end Nebula
