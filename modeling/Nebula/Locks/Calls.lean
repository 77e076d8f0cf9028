import Nebula.Library.Threads

/-! What the operations of the kernel do to its mutexes, and why its threads never deadlock. -/

namespace Nebula

open LockCode

/-- The mutexes of the kernel, none of which is recursive. -/
inductive Mutex where
  | pcbLock
  | resourceLock
  | queueMutex
  | coreMutex
  | logLock
  deriving DecidableEq, Repr

/-- The operations that the threads of the kernel run. -/
inductive KernelCall where
  | createPcb
  | removePcb
  | updateState
  | setProcessPriority
  | getAllPcbsCopy
  | allocateResources
  | reclaimResources
  | releaseCore
  | logEvent
  | schedulerTick
  | agingTick
  | runDetection
  | ipcListenerRound
  | handleIpcRequest
  | sendInterrupt
  | sendMinimize
  | sendResume
  | unblockAfterDelay
  deriving DecidableEq, Repr

namespace Locking

/-- A critical section that takes no further mutex. -/
def within (m : Mutex) : Code Mutex := guarded m 1

def logEvent : Code Mutex := within .logLock

def releaseCore : Code Mutex := within .coreMutex

/-- allocate_resources, which logs after its section when it has succeeded. -/
def allocateGranted : Code Mutex := within .resourceLock * logEvent
@[inherit_doc allocateGranted] def allocateDenied : Code Mutex := within .resourceLock

def reclaimResources : Code Mutex := within .resourceLock * logEvent

/-- create_pcb, which signals queue_cond in a section of its own. -/
def createPcb : Code Mutex := within .pcbLock * within .queueMutex * logEvent

/-- remove_pcb, whose second part runs when it has found its process. -/
def removePcb : Code Mutex := within .pcbLock * optional (reclaimResources * logEvent)

/-- update_state, which logs inside its loop. -/
def updateState : Code Mutex := guarded .pcbLock (optional logEvent)

/-- dispatch_process, which the scheduler calls under pcb_lock. -/
def dispatchProcess : Code Mutex := logEvent

/-- A round of scheduler_loop: a dispatch, or a search in vain and a timed wait on queue_cond. -/
def schedulerTick : Code Mutex :=
  guarded .pcbLock dispatchProcess +
    within .pcbLock * guarded .queueMutex (waitOn .queueMutex)

/-- run_detection, which searches the graph after its section and logs what it finds. -/
def runDetection : Code Mutex := within .pcbLock * optional logEvent

/-- A round of ipc_listener_loop, which removes some of the processes it has listed. -/
def ipcListenerRound : Code Mutex := within .pcbLock * .star removePcb

/-- handle_ipc_request: a grant, a denial, a removal or nothing. -/
def handleIpcRequest : Code Mutex :=
  allocateGranted * createPcb + allocateDenied + removePcb + 1

/-- send_interrupt and send_minimize give a core back in their loop. -/
def sendInterrupt : Code Mutex := guarded .pcbLock (optional releaseCore)
@[inherit_doc sendInterrupt] def sendMinimize : Code Mutex := guarded .pcbLock (optional releaseCore)

/-- unblock_after_delay, whose signal to queue_cond comes after its section and takes no mutex. -/
def unblockAfterDelay : Code Mutex := guarded .pcbLock (optional logEvent)

end Locking

/-- What each operation does to the mutexes. -/
def KernelCall.code : KernelCall → Code Mutex
  | .createPcb => Locking.createPcb
  | .removePcb => Locking.removePcb
  | .updateState => Locking.updateState
  | .setProcessPriority => Locking.within .pcbLock
  | .getAllPcbsCopy => Locking.within .pcbLock
  | .allocateResources => Locking.allocateGranted + Locking.allocateDenied
  | .reclaimResources => Locking.reclaimResources
  | .releaseCore => Locking.releaseCore
  | .logEvent => Locking.logEvent
  | .schedulerTick => Locking.schedulerTick
  | .agingTick => Locking.within .pcbLock
  | .runDetection => Locking.runDetection
  | .ipcListenerRound => Locking.ipcListenerRound
  | .handleIpcRequest => Locking.handleIpcRequest
  | .sendInterrupt => Locking.sendInterrupt
  | .sendMinimize => Locking.sendMinimize
  | .sendResume => Locking.within .pcbLock
  | .unblockAfterDelay => Locking.unblockAfterDelay

/-- The order of the mutexes: pcb_lock comes before the ones taken under it. -/
def Mutex.rank : Mutex → Nat
  | .pcbLock => 0
  | _ => 1

theorem Mutex.rank_le (m : Mutex) : m.rank ≤ 1 := by
  cases m <;> decide

/-- Every operation takes its mutexes in order and gives all of them back. -/
theorem KernelCall.checked (call : KernelCall) : check Mutex.rank call.code [] = some [] := by
  cases call <;> decide

/-- Any threads that run the operations of the kernel in any interleaving never deadlock. -/
theorem deadlockFree_kernel {T : Type*} [DecidableEq T]
    (moves : List (Threads.Move T Mutex KernelCall)) :
    Threads.DeadlockFree (Machine.run (Threads.step KernelCall.code) Threads.idle moves) :=
  Threads.deadlockFree_run Mutex.rank_le KernelCall.checked moves

end Nebula
