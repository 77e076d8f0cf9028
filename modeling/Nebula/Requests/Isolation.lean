import Nebula.Queues.Filing
import Nebula.Resources.Balance

/-! What the bytes in a child's pipe can do to the other processes. -/

namespace Nebula

open CText

/-- The two threads that read from a child's pipe, the handler with the stack it runs on. -/
inductive PipeReader where
  | handler (stack : Bytes)
  | listener
  deriving DecidableEq, Repr

/-- The pid whose process a reader removes when it finds some bytes in the pipe of a child. -/
def PipeReader.removes (childPid : Int) (message : Bytes) : PipeReader → Option Int
  | .handler _ => terminationOf message
  | .listener => if startsWith "TERM:" (cstring (message.take 255)) then some childPid else none

/-- A live process with the queues that its slot is in. -/
structure Standing where
  process : Process
  queued : QueueLevel → Bool

namespace Kernel

/-- The process of a slot and where it is queued. -/
def standing (k : Kernel) (slot : Slot) : Standing :=
  ⟨k.pcb slot, fun level => decide (slot ∈ (k.queue level).toList)⟩

/-- The live slots of the processes with another pid. -/
def otherSlots (k : Kernel) (childPid : Int) : List Slot :=
  k.pcbs.slots.filter fun slot => (k.pcb slot).pid != childPid

/-- The processes with another pid and where they are queued. -/
def others (k : Kernel) (childPid : Int) : Multiset Standing :=
  ((k.otherSlots childPid).map k.standing : List Standing)

section Created

variable {k : Kernel} (room : k.pcbs.count < maxProcesses) (resources : Resources) (childPid : Int)
  (name : Bytes) (priority : Int) (level : QueueLevel) (ram hdd : Int)

include room

end Created

end Kernel

end Nebula
