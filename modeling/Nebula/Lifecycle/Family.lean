import Nebula.Library.Machine
import Nebula.Library.Registry
import Nebula.Resources.Balance

/-! Children that are forked, ask for resources, exit and are reaped, with the threads that serve them. -/

namespace Nebula

/-- The life of a child as its parent sees it. -/
inductive Life where
  | alive
  | exited
  /-- waitpid has returned its pid, which may be used again. -/
  | reaped
  deriving DecidableEq

/-- Where the handler of a child's pipe stands between its sections. -/
inductive Handler where
  /-- Before its read has returned a message. -/
  | waiting
  /-- Between the read and allocate_resources. -/
  | asked (request : ResourceRequest)
  /-- Between a successful allocate_resources and create_pcb. -/
  | granted (request : ResourceRequest)
  | finished
  deriving DecidableEq

structure Child where
  pid : Int
  life : Life
  /-- The request the child has written, if any. -/
  sent : Option ResourceRequest
  handler : Handler
  /-- Whether a remove_pcb for the child's exit has run its section under pcb_lock. -/
  removed : Bool
  deriving DecidableEq

/-- A call of remove_pcb for an exited child. -/
inductive Remover where
  | called (child : Nat)
  /-- Between the deletion and reclaim_resources. -/
  | deleted (amounts : Amounts)
  | finished
  deriving DecidableEq

/-- Where a remove_pcb stands after its first section, which may find no process. -/
def Remover.found : Option Amounts → Remover
  | some amounts => .deleted amounts
  | none => .finished

/--
The kernel with its children, each known by the order of its fork.

No step looks at the last two fields, which record for whom each block was created.
-/
structure Family where
  kernel : Kernel
  children : List Child
  removers : List Remover
  /-- The child that each live block of the table was created for. -/
  owners : List Nat
  /-- The children with a block created for them and no remove_pcb run for their exit. -/
  due : Finset Nat

namespace Family

/-- The pid of a child, if there is such a child. -/
def pidOf (s : Family) (index : Nat) : Option Int := s.children[index]?.map Child.pid

def setChild (s : Family) (index : Nat) (child : Child) : Family :=
  { s with children := s.children.set index child }

/-- A fork never returns a pid that a live or unreaped child has. -/
def fork (s : Family) (pid : Int) : Family :=
  if ∀ child ∈ s.children, child.pid = pid → child.life = .reaped then
    { s with children := s.children ++ [⟨pid, .alive, none, .waiting, false⟩] }
  else s

/-- A child that is alive writes its request, once. -/
def sendRequest (s : Family) (index : Nat) (request : ResourceRequest) : Family :=
  match s.children[index]? with
  | some child =>
    if child.life = .alive ∧ child.sent = none then
      s.setChild index { child with sent := some request }
    else s
  | none => s

def exit (s : Family) (index : Nat) : Family :=
  match s.children[index]? with
  | some child => if child.life = .alive then s.setChild index { child with life := .exited } else s
  | none => s

/-- The handler reads what its child has written, whether or not the child is still there. -/
def read (s : Family) (index : Nat) : Family :=
  match s.children[index]? with
  | some child =>
    match child.handler, child.sent with
    | .waiting, some request => s.setChild index { child with handler := .asked request }
    | _, _ => s
  | none => s

def allocate (s : Family) (index : Nat) : Family :=
  match s.children[index]? with
  | some child =>
    match child.handler with
    | .asked request =>
      match s.kernel.allocateResources request.ram request.hdd with
      | (true, k) => { s with kernel := k }.setChild index { child with handler := .granted request }
      | (false, k) => { s with kernel := k }.setChild index { child with handler := .finished }
    | _ => s
  | none => s

def create (s : Family) (index : Nat) : Family :=
  match s.children[index]? with
  | some child =>
    match child.handler with
    | .granted request =>
      { s with
        kernel := s.kernel.createRequested child.pid request
        owners := if s.kernel.pcbs.count < maxProcesses then s.owners ++ [index] else s.owners
        due := insert index s.due }.setChild index { child with handler := .finished }
    | _ => s
  | none => s

/-- waitpid in sigchld_handler or foreground_task, which then calls remove_pcb. -/
def reap (s : Family) (index : Nat) : Family :=
  match s.children[index]? with
  | some child =>
    if child.life = .exited then
      { s with removers := s.removers ++ [Remover.called index] }.setChild index
        { child with life := .reaped }
    else s
  | none => s

/-- foreground_task calls remove_pcb also when sigchld_handler has reaped the child before it. -/
def removeAgain (s : Family) (index : Nat) : Family :=
  match s.children[index]? with
  | some child =>
    if child.life = .reaped then { s with removers := s.removers ++ [.called index] } else s
  | none => s

/-- The section of remove_pcb under pcb_lock. -/
def delete (s : Family) (remover : Nat) : Family :=
  match s.removers[remover]? with
  | some (.called index) =>
    match s.children[index]? with
    | some child =>
      { s with
        kernel := (s.kernel.deletePcb child.pid).2
        removers := s.removers.set remover (Remover.found (s.kernel.deletePcb child.pid).1)
        owners := Registry.dropFirst s.pidOf (some child.pid) s.owners
        due := s.due.erase index }.setChild index { child with removed := true }
    | none => s
  | _ => s

/-- The section of remove_pcb under resource_lock. -/
def reclaim (s : Family) (remover : Nat) : Family :=
  match s.removers[remover]? with
  | some (.deleted amounts) =>
    { s with
      kernel := s.kernel.reclaimResources amounts.1 amounts.2
      removers := s.removers.set remover .finished }
  | _ => s

/-- What can happen next, in any order; what is not possible yet changes nothing. -/
inductive Action where
  | fork (pid : Int)
  | sendRequest (child : Nat) (request : ResourceRequest)
  | exit (child : Nat)
  | read (child : Nat)
  | allocate (child : Nat)
  | create (child : Nat)
  | reap (child : Nat)
  | removeAgain (child : Nat)
  | delete (remover : Nat)
  | reclaim (remover : Nat)

def step (s : Family) : Action → Family
  | .fork pid => s.fork pid
  | .sendRequest child request => s.sendRequest child request
  | .exit child => s.exit child
  | .read child => s.read child
  | .allocate child => s.allocate child
  | .create child => s.create child
  | .reap child => s.reap child
  | .removeAgain child => s.removeAgain child
  | .delete remover => s.delete remover
  | .reclaim remover => s.reclaim remover

/-- The configured machine before any fork. -/
def start (ramMb hddMb cores : Int) : Family := ⟨Kernel.boot ramMb hddMb cores, [], [], [], ∅⟩

/-- A create_pcb finds a free slot, no removal for its child and no block of a later child of its pid. -/
def CreatesInTime (s : Family) : Action → Prop
  | .create index => ∀ child request, s.children[index]? = some child →
      child.handler = .granted request →
      s.kernel.pcbCount < maxProcesses ∧ child.removed = false ∧
        ∀ other ∈ s.owners, s.pidOf other = some child.pid → other < index
  | _ => True

/-- No handler is in the middle of a request, and every exited child is reaped and removed. -/
structure Quiescent (s : Family) : Prop where
  handlers : ∀ child ∈ s.children, child.handler = .waiting ∨ child.handler = .finished
  reaped : ∀ child ∈ s.children, child.life ≠ .exited
  removers : ∀ remover ∈ s.removers, remover = .finished

/-- The table holds what living children asked for, once each, and everything else is free. -/
structure TableAlive (s : Family) : Prop where
  distinct : (s.kernel.pcbs.entries.map fun p => p.pid).Nodup
  alive : ∀ p ∈ s.kernel.pcbs.entries, ∃ child ∈ s.children, child.life = .alive ∧
    child.pid = p.pid ∧ child.sent.map ResourceRequest.amounts = some p.amounts
  ram : s.kernel.resources.freeRam + (s.kernel.pcbs.entries.map fun p => p.ramAlloc).sum =
    s.kernel.resources.totalRam
  hdd : s.kernel.resources.freeHdd + (s.kernel.pcbs.entries.map fun p => p.hddAlloc).sum =
    s.kernel.resources.totalHdd

end Family

end Nebula
