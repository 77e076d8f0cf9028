import Nebula.Library.Machine
import Nebula.Resources.Balance

/-! The lock sections of request handlers and removers, interleaved in any order. -/

namespace Nebula

open CText

/-- Where a thread stands between two of its lock sections. -/
inductive Worker where
  /-- handle_ipc_request with the bytes it has read. -/
  | reading (childPid : Int) (stack message : Bytes)
  /-- A handler before allocate_resources. -/
  | requesting (childPid : Int) (request : ResourceRequest)
  /-- A handler whose allocation succeeded, before create_pcb. -/
  | granted (childPid : Int) (request : ResourceRequest)
  /-- remove_pcb before its section under pcb_lock. -/
  | removing (pid : Int)
  /-- remove_pcb before reclaim_resources, with the amounts of the block it deleted. -/
  | removed (amounts : Amounts)
  | finished

namespace Worker

/-- Where a handler goes with the message it has read. -/
def afterReading (childPid : Int) (stack message : Bytes) : Worker :=
  match requestOf stack message with
  | some request => .requesting childPid request
  | none =>
    match terminationOf message with
    | some pid => .removing pid
    | none => .finished

/-- What a handler was granted and has not recorded. -/
def unrecorded : Worker → Option Amounts
  | .granted _ request => some request.amounts
  | _ => none

/-- What a remover has deleted and not given back. -/
def unreclaimed : Worker → Option Amounts
  | .removed amounts => some amounts
  | _ => none

end Worker

/-- The kernel, the threads that run their sections on it, and what was granted and given back. -/
structure Sections where
  kernel : Kernel
  workers : List Worker
  /-- The amounts of every successful allocation so far. -/
  granted : Multiset Amounts
  /-- The amounts of every reclamation so far. -/
  reclaimed : Multiset Amounts

namespace Sections

/-- The next section of one thread; a thread that has finished does nothing. -/
def turn (s : Sections) (index : Nat) : Sections :=
  match s.workers[index]? with
  | some (.reading childPid stack message) =>
    { s with workers := s.workers.set index (.afterReading childPid stack message) }
  | some (.requesting childPid request) =>
    match s.kernel.allocateResources request.ram request.hdd with
    | (true, k) =>
      { s with
        kernel := k
        workers := s.workers.set index (.granted childPid request)
        granted := request.amounts ::ₘ s.granted }
    | (false, k) => { s with kernel := k, workers := s.workers.set index .finished }
  | some (.granted childPid request) =>
    { s with
      kernel := s.kernel.createRequested childPid request
      workers := s.workers.set index .finished }
  | some (.removing pid) =>
    match s.kernel.deletePcb pid with
    | (some amounts, k) => { s with kernel := k, workers := s.workers.set index (.removed amounts) }
    | (none, k) => { s with kernel := k, workers := s.workers.set index .finished }
  | some (.removed amounts) =>
    { s with
      kernel := s.kernel.reclaimResources amounts.1 amounts.2
      workers := s.workers.set index .finished
      reclaimed := amounts ::ₘ s.reclaimed }
  | some .finished => s
  | none => s

/-- What can happen next: a handler has read a message, remove_pcb is called, or a thread goes on. -/
inductive Action where
  | handle (childPid : Int) (stack message : Bytes)
  | remove (pid : Int)
  | turn (index : Nat)

def step (s : Sections) : Action → Sections
  | .handle childPid stack message =>
    { s with workers := s.workers ++ [.reading childPid stack message] }
  | .remove pid => { s with workers := s.workers ++ [.removing pid] }
  | .turn index => s.turn index

/-- The configured machine before any thread runs. -/
def start (ramMb hddMb cores : Int) : Sections := ⟨Kernel.boot ramMb hddMb cores, [], 0, 0⟩

/-- A handler left to itself does to the kernel what handle_ipc_request does. -/
theorem turns_alone (k : Kernel) (childPid : Int) (stack message : Bytes)
    (granted reclaimed : Multiset Amounts) :
    (Machine.run step ⟨k, [.reading childPid stack message], granted, reclaimed⟩
      [.turn 0, .turn 0, .turn 0, .turn 0]).kernel = (k.handleIpcRequest childPid stack message).2 := by
  -- Four turns are enough for the longest way through a handler: read, allocate, create, end.
  simp only [Machine.run_cons, Machine.run_nil, step, turn, List.getElem?_cons_zero, List.set_cons_zero,
    Worker.afterReading, Kernel.handleIpcRequest, Kernel.handleRequest]
  cases requestOf stack message with
  | some request =>
    rcases k.allocateResources_cases request.ram request.hdd with ⟨-, -, charged⟩ | ⟨-, denied⟩
    · simp [charged]
    · simp [denied]
  | none =>
    cases terminationOf message with
    | none => simp
    -- A TERM is a removal in its two sections.
    | some pid =>
      cases deleted : k.deletePcb pid with
      | mk amounts rest => cases amounts <;> simp [deleted, Kernel.removePcb]

end Sections

end Nebula
