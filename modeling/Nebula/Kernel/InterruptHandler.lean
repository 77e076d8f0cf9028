import Nebula.Kernel.ProcessManager

/-! Blocking, waking, minimising and resuming a process. -/

namespace Nebula

namespace Kernel

/-- Take the core number away from a process that has one, and count a core as free. -/
def dropCore (k : Kernel) (slot : Slot) : Kernel :=
  if (k.pcb slot).coreId ≥ 0 then (k.setPcb slot { k.pcb slot with coreId := -1 }).releaseCore
  else k

/-- Write a state text into the process of a slot. -/
def setState (k : Kernel) (slot : Slot) (text : CText.Bytes) : Kernel :=
  k.setPcb slot ((k.pcb slot).setState text)

/-- The part of unblock_after_delay after its sleep, under pcb_lock. -/
def unblockAfterDelay (k : Kernel) (pid : Int) : Kernel :=
  match k.findPcb fun p => p.pid == pid && looksBlocked p.state with
  | none => k
  | some slot => k.setState slot stateReady

/-- send_interrupt, whose timer thread is a step of its own. -/
def sendInterrupt (k : Kernel) (pid : Int) : Kernel :=
  match k.findPcb fun p => p.pid == pid && looksRunning p.state with
  | none => k
  | some slot => (k.setState slot stateBlocked).dropCore slot

def sendMinimize (k : Kernel) (pid : Int) : Kernel :=
  match k.findPcb fun p => p.pid == pid with
  | none => k
  | some slot => (k.setState slot stateMinimized).dropCore slot

/-- send_resume, which writes the state text and no core number. -/
def sendResume (k : Kernel) (pid : Int) : Kernel :=
  match k.findPcb fun p => p.pid == pid with
  | none => k
  | some slot => k.setState slot stateRunning

end Kernel

end Nebula
