import Nebula.Library.Fifo
import Nebula.Library.Machine
import Nebula.Requests.AllOrNothing

/-! The pipe of one child, with the child, the handler and the listener as they open, use and close it. -/

namespace Nebula

open CText

/-- Who reads a byte. -/
inductive Party where
  | child
  | handler
  | listener
  deriving DecidableEq, Repr

/-- What a byte was written for. -/
inductive Origin where
  | request
  | reply
  deriving DecidableEq, Repr

/-- A byte in the pipe, with an origin that no reader sees. -/
structure Mark where
  origin : Origin
  byte : UInt8
  deriving DecidableEq, Repr

def marked (origin : Origin) (text : Bytes) : List Mark := text.map (Mark.mk origin)

/-- The child whose pipe it is, what it asks for, and the stack its handler runs on. -/
structure Session where
  childPid : Int
  pidFits : InInt childPid
  message : ResourceMessage
  stack : Bytes

/-- Where the child stands in send_resource_request and then wait_for_grant. -/
inductive ChildStage where
  | start
  /-- In open, which is over when a reader has come. -/
  | openingWrite (released : Bool)
  | writing
  | closingWrite
  | sent
  /-- In open, which is over when a writer has come. -/
  | openingRead (released : Bool)
  | reading
  | closingRead (buffer : Bytes)
  | returned (granted : Bool)
  /-- By SIGPIPE, for writing when nobody can read. -/
  | killed
  deriving DecidableEq, Repr

/-- Where the handler stands in handle_ipc_request. -/
inductive HandlerStage where
  | start
  | opening (released : Bool)
  | reading
  | deciding (message : Bytes)
  | answering (reply : Bytes)
  | writing (reply : Bytes)
  | closingWrite (reply : Bytes)
  | closingRead (reply : Option Bytes)
  | finished (reply : Option Bytes)
  deriving DecidableEq, Repr

/-- Where the listener stands in a round, with how often the pipe is still to be polled in it. -/
inductive ListenerStage where
  | idle
  | polling (left : Nat)
  | opened (left : Nat)
  | closing (left : Nat)
  deriving DecidableEq, Repr

namespace ChildStage

/-- The arrival of a reader ends a wait for one. -/
def readerArrives : ChildStage → ChildStage
  | .openingWrite _ => .openingWrite true
  | stage => stage

/-- The arrival of a writer ends a wait for one. -/
def writerArrives : ChildStage → ChildStage
  | .openingRead _ => .openingRead true
  | stage => stage

/-- The descriptors for reading that the child has open or waits for. -/
def readers : ChildStage → Nat
  | .openingRead _ | .reading | .closingRead _ => 1
  | _ => 0

def writers : ChildStage → Nat
  | .openingWrite _ | .writing | .closingWrite => 1
  | _ => 0

/-- The next step is a close. -/
def closes : ChildStage → Bool
  | .closingWrite | .closingRead _ => true
  | _ => false

/-- The request has been written. -/
def hasWritten : ChildStage → Bool
  | .closingWrite | .sent | .openingRead _ | .reading | .closingRead _ | .returned _ => true
  | _ => false

/-- The read of wait_for_grant is over. -/
def hasRead : ChildStage → Bool
  | .closingRead _ | .returned _ => true
  | _ => false

end ChildStage

namespace HandlerStage

def writerArrives : HandlerStage → HandlerStage
  | .opening _ => .opening true
  | stage => stage

def readers : HandlerStage → Nat
  | .start | .finished _ => 0
  | _ => 1

def writers : HandlerStage → Nat
  | .writing _ | .closingWrite _ => 1
  | _ => 0

def closes : HandlerStage → Bool
  | .closingWrite _ | .closingRead _ => true
  | _ => false

/-- The read of the request is over. -/
def hasRead : HandlerStage → Bool
  | .start | .opening _ | .reading => false
  | _ => true

/-- The reply that has been decided on. -/
def reply : HandlerStage → Option Bytes
  | .answering reply | .writing reply | .closingWrite reply => some reply
  | .closingRead reply | .finished reply => reply
  | _ => none

/-- The reply that has been written. -/
def written : HandlerStage → Option Bytes
  | .closingWrite reply => some reply
  | .closingRead reply | .finished reply => reply
  | _ => none

end HandlerStage

namespace ListenerStage

def readers : ListenerStage → Nat
  | .opened _ | .closing _ => 1
  | _ => 0

def closes : ListenerStage → Bool
  | .closing _ => true
  | _ => false

/-- The next step is a read. -/
def reads : ListenerStage → Bool
  | .opened _ => true
  | _ => false

end ListenerStage

/-- The kernel, the pipe of one child and the three that use it. -/
structure Exchange where
  kernel : Kernel
  fifo : Fifo Party Mark
  child : ChildStage
  handler : HandlerStage
  listener : ListenerStage

namespace Exchange

/-- A reader that opens the pipe releases a child that waits for one. -/
def openRead (s : Exchange) : Exchange :=
  { s with fifo := s.fifo.openRead, child := s.child.readerArrives }

/-- A writer that opens the pipe releases whoever waits for one. -/
def openWrite (s : Exchange) : Exchange :=
  { s with
    fifo := s.fifo.openWrite
    child := s.child.writerArrives
    handler := s.handler.writerArrives }

/-- A read that waits while the pipe is empty and has a writer, and finds its end if it has none. -/
def read (s : Exchange) (party : Party) (size : Nat) : Option (Bytes × Exchange) :=
  if s.fifo.buffer.isEmpty && s.fifo.writers != 0 then none
  else
    let (marks, fifo) := s.fifo.read party size
    some (marks.map Mark.byte, { s with fifo := fifo })

variable (session : Session)

/-- send_resource_request and then wait_for_grant, a call at a time; a step that waits changes nothing. -/
def stepChild (s : Exchange) : Exchange :=
  match s.child with
  | .start => { s.openWrite with child := .openingWrite (s.fifo.readers != 0) }
  | .openingWrite true => { s with child := .writing }
  | .openingWrite false => s
  | .writing =>
    if s.fifo.readers = 0 then { s with fifo := s.fifo.closeWrite, child := .killed }
    else
      { s with
        fifo := s.fifo.write (marked .request session.message.text)
        child := .closingWrite }
  | .closingWrite => { s with fifo := s.fifo.closeWrite, child := .sent }
  | .sent => { s.openRead with child := .openingRead (s.fifo.writers != 0) }
  | .openingRead true => { s with child := .reading }
  | .openingRead false => s
  | .reading =>
    match s.read .child 255 with
    | some (buffer, s) => { s with child := .closingRead buffer }
    | none => s
  | .closingRead buffer =>
    { s with fifo := s.fifo.closeRead, child := .returned (contains "GRANT" (cstring buffer)) }
  | .returned _ => s
  | .killed => s

/-- handle_ipc_request; its second open never waits, because it reads from the pipe itself. -/
def stepHandler (s : Exchange) : Exchange :=
  match s.handler with
  | .start => { s.openRead with handler := .opening (s.fifo.writers != 0) }
  | .opening true => { s with handler := .reading }
  | .opening false => s
  | .reading =>
    match s.read .handler 511 with
    | some ([], s) => { s with handler := .closingRead none }
    | some (message, s) => { s with handler := .deciding message }
    | none => s
  | .deciding message =>
    match s.kernel.handleIpcRequest session.childPid session.stack message with
    | (some reply, k) => { s with kernel := k, handler := .answering reply }
    | (none, k) => { s with kernel := k, handler := .closingRead none }
  | .answering reply => { s.openWrite with handler := .writing reply }
  | .writing reply =>
    { s with fifo := s.fifo.write (marked .reply reply), handler := .closingWrite reply }
  | .closingWrite reply => { s with fifo := s.fifo.closeWrite, handler := .closingRead (some reply) }
  | .closingRead reply => { s with fifo := s.fifo.closeRead, handler := .finished reply }
  | .finished _ => s

/-- The rounds of ipc_listener_loop, as far as they are about this pipe; nothing in them waits. -/
def stepListener (s : Exchange) : Exchange :=
  match s.listener with
  | .idle =>
    { s with listener := .polling (s.kernel.pcbs.entries.countP fun p => p.pid = session.childPid) }
  | .polling 0 => { s with listener := .idle }
  | .polling (left + 1) => { s.openRead with listener := .opened left }
  | .opened left =>
    let (marks, fifo) := s.fifo.read .listener 255
    { s with
      kernel :=
        if startsWith "TERM:" (cstring (marks.map Mark.byte)) then s.kernel.removePcb session.childPid
        else s.kernel
      fifo := fifo
      listener := .closing left }
  | .closing left => { s with fifo := s.fifo.closeRead, listener := .polling left }

/-- Whose turn it is, where the rest of the kernel may do anything to its own state. -/
inductive Action where
  | child
  | handler
  | listener
  | kernel (op : KernelOp)

def step (s : Exchange) : Action → Exchange
  | .child => s.stepChild session
  | .handler => s.stepHandler session
  | .listener => s.stepListener session
  | .kernel op => { s with kernel := s.kernel.step op }

/-- The pipe has just been made, whatever the kernel has done before. -/
def start (k : Kernel) : Exchange := ⟨k, Fifo.empty, .start, .start, .idle⟩

/-- The bytes of one origin among those given. -/
def bytesOf (origin : Origin) (marks : List Mark) : Bytes :=
  (marks.filter fun mark => mark.origin == origin).map Mark.byte

/-- Nobody but the reader has taken bytes of the origin, and none were discarded. -/
def OnlyFor (s : Exchange) (origin : Origin) (reader : Party) : Prop :=
  ∀ entry ∈ s.fifo.gone, entry.2.origin = origin → entry.1 = some reader

/-- The child and the kernel agree, and what they wrote to each other is buffered or was read by the other. -/
structure Agreement (s : Exchange) : Prop where
  request : s.OnlyFor .request .handler
  grant : s.handler.written = some (grantReply session.childPid) →
    s.OnlyFor .reply .child ∧
      bytesOf .reply (s.fifo.gone.map Prod.snd) ++ bytesOf .reply s.fifo.buffer =
        grantReply session.childPid
  outcome : ∀ granted, s.child = .returned granted →
    (granted = true ↔ s.handler.reply = some (grantReply session.childPid))

/-- A request that the handler has not read, or a GRANT that the child has not read, has been written. -/
def Waiting (s : Exchange) : Prop :=
  (s.child.hasWritten = true ∧ s.handler.hasRead = false) ∨
  (s.handler.written = some (grantReply session.childPid) ∧ s.child.hasRead = false)

/-- While a message waits, the listener does not read and nobody closes the last open descriptor. -/
def KeepsMessages (s : Exchange) : Action → Prop
  | .child => s.child.closes = true → s.fifo.readers + s.fifo.writers = 1 → ¬ s.Waiting session
  | .handler => s.handler.closes = true → s.fifo.readers + s.fifo.writers = 1 → ¬ s.Waiting session
  | .listener => s.listener.reads = true ∨
      (s.listener.closes = true ∧ s.fifo.readers + s.fifo.writers = 1) → ¬ s.Waiting session
  | .kernel _ => True

end Exchange

end Nebula
