import Mathlib.Logic.Function.Basic
import Nebula.Library.CText
import Nebula.Library.RingQueue
import Nebula.Library.SlotArray

/-! The process table, the run queues and the resource counters of the kernel. -/

namespace Nebula

open CText

/-- MAX_PROCESSES, the size of the process table and of every queue. -/
def maxProcesses : Nat := 256

/-- MAX_NAME and MAX_STATE, the sizes of a process's two text buffers. -/
def maxName : Nat := 64
@[inherit_doc maxName] def maxState : Nat := 32

def defaultPriorityQ0 : Int := 0
def defaultPriorityQ1 : Int := 3
def defaultPriorityQ2 : Int := 6
def agingInterval : Nat := 5
def q0PromoteThresh : Int := 1

instance : NeZero maxProcesses := ⟨Nat.succ_ne_zero 255⟩

/-- QUEUE_SYSTEM, QUEUE_INTERACTIVE and QUEUE_BACKGROUND. -/
inductive QueueLevel where
  | system
  | interactive
  | background
  deriving DecidableEq, Repr

/-- The state texts the kernel writes. -/
def stateReady : Bytes := ascii "READY"
@[inherit_doc stateReady] def stateRunning : Bytes := ascii "RUNNING"
@[inherit_doc stateReady] def stateBlocked : Bytes := ascii "BLOCKED"
@[inherit_doc stateReady] def stateMinimized : Bytes := ascii "MINIMIZED"

/--
A process control block.

The arrival and turnaround times are written once and read by nothing, so they are left out.
-/
structure Process where
  pid : Int
  name : Bytes
  state : Bytes
  priority : Int
  queueLevel : QueueLevel
  ramAlloc : Int
  hddAlloc : Int
  waitTime : Nat
  coreId : Int
  deriving DecidableEq, Repr

/-- The block a constructor leaves in a slot that was never used. -/
instance : Inhabited Process where
  default :=
    { pid := -1, name := [], state := [], priority := 10, queueLevel := .background
      ramAlloc := 0, hddAlloc := 0, waitTime := 0, coreId := -1 }

def Process.setState (p : Process) (text : Bytes) : Process := { p with state := copyInto maxState text }

/-- The scheduler's test for READY, which reads the first two letters. -/
def looksReady (state : Bytes) : Bool := charAt state 0 == ch 'R' && charAt state 1 == ch 'E'

/-- The test for RUNNING in send_interrupt and in the deadlock detector. -/
def looksRunning (state : Bytes) : Bool := charAt state 0 == ch 'R' && charAt state 1 == ch 'U'

/-- The test for BLOCKED, which reads one letter. -/
def looksBlocked (state : Bytes) : Bool := charAt state 0 == ch 'B'

/-- The test that decides whether a process ages, which reads one letter. -/
def looksAging (state : Bytes) : Bool := charAt state 0 == ch 'R'

/-- A pointer into the process table, as the index of the slot it points at. -/
abbrev Slot := Fin maxProcesses

/-- A run queue holds pointers into the process table. -/
abbrev KernelQueue := RingQueue Slot maxProcesses

/-- The counters of the memory manager. -/
structure Resources where
  totalRam : Int
  freeRam : Int
  totalHdd : Int
  freeHdd : Int
  totalCores : Int
  freeCores : Int
  deriving DecidableEq, Repr

/--
The shared state of the kernel.

Counters are exact integers here; the steps on counters that wrap around as ints bring them back, and
a theorem about their range says where the two agree.
-/
structure Kernel where
  /-- pcb_table and pcb_count. -/
  pcbs : SlotArray Process maxProcesses
  /-- queue_Q0, queue_Q1 and queue_Q2. -/
  queue : QueueLevel → KernelQueue
  resources : Resources
  /-- Whether some push has answered false, which the code never looks at. -/
  pushRefused : Bool

namespace Kernel

/-- The process a slot holds. -/
def pcb (k : Kernel) (slot : Slot) : Process := k.pcbs.get slot

/-- pcb_count. -/
def pcbCount (k : Kernel) : Nat := k.pcbs.count

/-- Overwrite the process in a slot. -/
def setPcb (k : Kernel) (slot : Slot) (p : Process) : Kernel := { k with pcbs := k.pcbs.set slot p }

/-- Push a slot onto the queue of a level, ignoring the answer. -/
def push (k : Kernel) (level : QueueLevel) (slot : Slot) : Kernel :=
  let (taken, q) := (k.queue level).push slot
  { k with queue := Function.update k.queue level q, pushRefused := k.pushRefused || !taken }

/-- Push a slot onto the queue its process's level names. -/
def fileSlot (k : Kernel) (slot : Slot) : Kernel := k.push (k.pcb slot).queueLevel slot

/-- File every live slot in table order. -/
def refile (k : Kernel) : Kernel := k.pcbs.slots.foldl fileSlot k

/-- Drain all three queues and file the table anew. -/
def rebuildQueues (k : Kernel) : Kernel :=
  refile { k with queue := fun level => (k.queue level).drain }

/-- The kernel's globals before main runs. -/
def zeroed : Kernel where
  pcbs := SlotArray.empty maxProcesses
  queue := fun _ => RingQueue.empty maxProcesses
  resources := ⟨0, 0, 0, 0, 0, 0⟩
  pushRefused := false

def initResources (k : Kernel) (ramMb hddMb cores : Int) : Kernel :=
  { k with resources := ⟨ramMb, ramMb, hddMb, hddMb, cores, cores⟩ }

/-- The kernel with an empty table and empty queues, its machine configured. -/
def boot (ramMb hddMb cores : Int) : Kernel := zeroed.initResources ramMb hddMb cores

/-- Take both amounts from the free counters if both are free, and answer whether they were. -/
def allocateResources (k : Kernel) (ram hdd : Int) : Bool × Kernel :=
  if k.resources.freeRam ≥ ram ∧ k.resources.freeHdd ≥ hdd then
    (true, { k with resources := { k.resources with
      freeRam := k.resources.freeRam - ram, freeHdd := k.resources.freeHdd - hdd } })
  else (false, k)

def reclaimResources (k : Kernel) (ram hdd : Int) : Kernel :=
  { k with resources := { k.resources with
    freeRam := k.resources.freeRam + ram, freeHdd := k.resources.freeHdd + hdd } }

def releaseCore (k : Kernel) : Kernel :=
  { k with resources := { k.resources with freeCores := k.resources.freeCores + 1 } }

end Kernel

/-- Copying a state text into its buffer keeps all of it. -/
@[simp] theorem copyInto_states :
    copyInto maxState stateReady = stateReady ∧ copyInto maxState stateRunning = stateRunning ∧
      copyInto maxState stateBlocked = stateBlocked ∧
      copyInto maxState stateMinimized = stateMinimized := by decide

@[simp] theorem looksReady_states :
    looksReady stateReady = true ∧ looksReady stateRunning = false ∧
      looksReady stateBlocked = false ∧ looksReady stateMinimized = false := by decide

@[simp] theorem looksRunning_states :
    looksRunning stateReady = false ∧ looksRunning stateRunning = true ∧
      looksRunning stateBlocked = false ∧ looksRunning stateMinimized = false := by decide

@[simp] theorem looksBlocked_states :
    looksBlocked stateReady = false ∧ looksBlocked stateRunning = false ∧
      looksBlocked stateBlocked = true ∧ looksBlocked stateMinimized = false := by decide

/-- The four state texts are told apart by comparison. -/
@[simp] theorem states_ne :
    stateReady ≠ stateRunning ∧ stateBlocked ≠ stateRunning ∧ stateMinimized ≠ stateRunning := by decide

namespace Kernel

@[simp] theorem push_pcbs (k : Kernel) (level : QueueLevel) (slot : Slot) :
    (k.push level slot).pcbs = k.pcbs := rfl

@[simp] theorem push_pcb (k : Kernel) (level : QueueLevel) (slot other : Slot) :
    (k.push level slot).pcb other = k.pcb other := rfl

@[simp] theorem push_resources (k : Kernel) (level : QueueLevel) (slot : Slot) :
    (k.push level slot).resources = k.resources := rfl

/-- A push onto a queue with room is taken, and files the slot behind the others. -/
theorem push_room {k : Kernel} {level : QueueLevel}
    (room : (k.queue level).toList.length < maxProcesses) (slot : Slot) :
    (k.push level slot).pushRefused = k.pushRefused ∧
      ∀ other, ((k.push level slot).queue other).toList =
        (k.queue other).toList ++ if level = other then [slot] else [] := by
  constructor
  · simp only [push, RingQueue.push_fst, room, decide_true, Bool.not_true, Bool.or_false]
  · intro other
    by_cases same : level = other
    · subst other
      simp [push, RingQueue.toList_push room]
    · simp [push, same, Ne.symm same]

/-- Filing a walk over slots appends to each queue the slots of its level. -/
private theorem file_walk (walk : List Slot) (k : Kernel)
    (room : ∀ level, (k.queue level).toList.length + walk.length ≤ maxProcesses) :
    (walk.foldl fileSlot k).pcbs = k.pcbs ∧ (walk.foldl fileSlot k).resources = k.resources ∧
      (walk.foldl fileSlot k).pushRefused = k.pushRefused ∧
      ∀ level, ((walk.foldl fileSlot k).queue level).toList =
        (k.queue level).toList ++ walk.filter fun slot => (k.pcb slot).queueLevel == level := by
  -- Pushing leaves the table alone, so every slot is filed by the level it had at the start.
  induction walk generalizing k with
  | nil => simp
  | cons slot rest ih =>
    simp only [List.length_cons] at room
    have here : (k.queue (k.pcb slot).queueLevel).toList.length < maxProcesses := by
      have := room (k.pcb slot).queueLevel
      omega
    obtain ⟨taken, filedHere⟩ := push_room here slot
    have later := ih (k.fileSlot slot) (fun level => by
      rw [fileSlot, filedHere level]
      have := room level
      split <;> simp only [List.length_append, List.length_cons, List.length_nil] <;> omega)
    obtain ⟨pcbs, resources, refused, queues⟩ := later
    refine ⟨pcbs, resources, refused.trans taken, fun level => ?_⟩
    rw [List.foldl_cons, queues level, fileSlot, filedHere level, List.append_assoc]
    congr 1
    by_cases own : (k.pcb slot).queueLevel = level
    · simp [own]
    · simp [own]

/-- A rebuild files every live slot once, in table order, and every push it makes is taken. -/
theorem rebuildQueues_spec (k : Kernel) :
    k.rebuildQueues.pcbs = k.pcbs ∧ k.rebuildQueues.resources = k.resources ∧
      k.rebuildQueues.pushRefused = k.pushRefused ∧
      ∀ level, (k.rebuildQueues.queue level).toList =
        k.pcbs.slots.filter fun slot => (k.pcb slot).queueLevel == level := by
  -- The drained queues have room for the whole table, so no push is refused.
  have filed := file_walk k.pcbs.slots { k with queue := fun level => (k.queue level).drain }
    (by simp [k.pcbs.count_le])
  simp only [RingQueue.toList_drain, List.nil_append] at filed
  exact filed

@[simp] theorem rebuildQueues_pcbs (k : Kernel) : k.rebuildQueues.pcbs = k.pcbs :=
  k.rebuildQueues_spec.1

@[simp] theorem rebuildQueues_resources (k : Kernel) : k.rebuildQueues.resources = k.resources :=
  k.rebuildQueues_spec.2.1

@[simp] theorem rebuildQueues_pushRefused (k : Kernel) :
    k.rebuildQueues.pushRefused = k.pushRefused :=
  k.rebuildQueues_spec.2.2.1

theorem rebuildQueues_queue (k : Kernel) (level : QueueLevel) :
    (k.rebuildQueues.queue level).toList =
      k.pcbs.slots.filter fun slot => (k.pcb slot).queueLevel == level :=
  k.rebuildQueues_spec.2.2.2 level

end Kernel

end Nebula
