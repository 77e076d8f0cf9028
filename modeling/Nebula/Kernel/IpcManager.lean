import Nebula.Kernel.InterruptHandler
import Nebula.Kernel.Scheduler

/-! The request handler of a child's pipe, and the steps the kernel takes. -/

namespace Nebula

open CText

/-- The priority a process of a level starts with. -/
def defaultPriority : QueueLevel → Int
  | .system => defaultPriorityQ0
  | .interactive => defaultPriorityQ1
  | .background => defaultPriorityQ2

/-- What the handler reads out of a REQ message. -/
structure ResourceRequest where
  name : Bytes
  ram : Int
  hdd : Int
  deriving DecidableEq, Repr

/--
The C string in the local name buffer after strncpy of at most 63 bytes.

A name that fills all of them gets no terminator, so it runs on into whatever the stack holds.
-/
def localName (stack name : Bytes) : Bytes :=
  if name.length < 63 then name else name.take 63 ++ cstring stack

/-- The fields of the text after "REQ:", or nothing if a separator is missing. -/
def parseRequest (stack text : Bytes) : Option ResourceRequest :=
  match strchr (ch ':') text with
  | none => none
  | some (name, rest) =>
    match strchr (ch ':') rest with
    | none => none
    | some (ram, hdd) => some ⟨localName stack name, atoi ram, atoi hdd⟩

/-- The text a read of at most 511 bytes leaves in the zeroed buffer of the handler. -/
def readText (message : Bytes) : Bytes := cstring (message.take 511)

/-- What a message asks for, if it is a REQ with both separators. -/
def requestOf (stack message : Bytes) : Option ResourceRequest :=
  if startsWith "REQ:" (readText message) then parseRequest stack ((readText message).drop 4)
  else none

/-- REQ with the three fields of a request. -/
def requestOfFields (name ram hdd : Bytes) : Bytes := ascii "REQ:" ++ name ++ ch ':' :: (ram ++ ch ':' :: hdd)

/-- The handler's buffer holds a whole message of at most 511 bytes, if no field ends the text. -/
theorem readText_requestOfFields {name ram hdd : Bytes} (short : (requestOfFields name ram hdd).length ≤ 511)
    (plain : ∀ byte ∈ name, byte ≠ 0) (plainRam : ∀ byte ∈ ram, byte ≠ 0) (plainHdd : ∀ byte ∈ hdd, byte ≠ 0) :
    readText (requestOfFields name ram hdd) = requestOfFields name ram hdd := by
  have literal : (ascii "REQ:").all (· != 0) = true := by decide
  rw [readText, List.take_of_length_le short, cstring, List.takeWhile_eq_self_iff]
  intro byte member
  -- Neither the marks nor the name nor the numbers contain a terminator.
  simp only [requestOfFields, List.mem_append, List.mem_cons] at member
  rcases member with (mark | inName) | rfl | inRam | rfl | inHdd
  · exact List.all_eq_true.mp literal byte mark
  · exact bne_iff_ne.mpr (plain byte inName)
  · decide
  · exact bne_iff_ne.mpr (plainRam byte inRam)
  · decide
  · exact bne_iff_ne.mpr (plainHdd byte inHdd)

/-- The handler takes a message for a request if its text has two more separators. -/
theorem requestOf_eq_some {stack message : Bytes} {request : ResourceRequest} :
    requestOf stack message = some request ↔
      ∃ name ram hdd, readText message = requestOfFields name ram hdd ∧ ch ':' ∉ name ∧ ch ':' ∉ ram ∧
        request = ⟨localName stack name, atoi ram, atoi hdd⟩ := by
  constructor
  · intro asked
    unfold requestOf at asked
    split at asked
    · rename_i begins
      -- The two searches have cut the text where it can be put together again.
      obtain ⟨text, split⟩ := List.isPrefixOf_iff_prefix.mp begins
      rw [← split, show (ascii "REQ:" ++ text).drop 4 = text from rfl] at asked
      unfold parseRequest at asked
      split at asked
      · cases asked
      · rename_i name rest found
        split at asked
        · cases asked
        · rename_i ram hdd found'
          obtain ⟨fresh, here⟩ := strchr_eq_some found
          obtain ⟨fresh', behind⟩ := strchr_eq_some found'
          refine ⟨name, ram, hdd, ?_, fresh, fresh', (Option.some.inj asked).symm⟩
          rw [← split, here, behind, requestOfFields, List.append_assoc]
    · cases asked
  · rintro ⟨name, ram, hdd, text, fresh, fresh', rfl⟩
    have begins : startsWith "REQ:" (readText message) = true := by
      rw [startsWith, List.isPrefixOf_iff_prefix, text, requestOfFields, List.append_assoc]
      exact List.prefix_append _ _
    have fields : (readText message).drop 4 = name ++ ch ':' :: (ram ++ ch ':' :: hdd) := by
      rw [text, requestOfFields, List.append_assoc]
      rfl
    rw [requestOf, if_pos begins, fields, parseRequest, strchr_append fresh]
    dsimp only
    rw [strchr_append fresh']

/-- The pid a message asks to remove, if it is a TERM. -/
def terminationOf (message : Bytes) : Option Int :=
  if startsWith "TERM:" (readText message) then some (atoi ((readText message).drop 5)) else none

def grantReply (childPid : Int) : Bytes := ascii "GRANT:" ++ decimal childPid

def denyReply : Bytes := ascii "DENY"

namespace Kernel

/-- create_pcb as the handler calls it, with the level and the priority the name gives. -/
def createRequested (k : Kernel) (childPid : Int) (request : ResourceRequest) : Kernel :=
  k.createPcb childPid request.name (defaultPriority (getQueueLevel request.name))
    (getQueueLevel request.name) request.ram request.hdd

/-- The REQ branch of the handler, with the reply it writes. -/
def handleRequest (k : Kernel) (childPid : Int) (request : ResourceRequest) : Bytes × Kernel :=
  match k.allocateResources request.ram request.hdd with
  | (true, k) => (grantReply childPid, k.createRequested childPid request)
  | (false, k) => (denyReply, k)

/--
handle_ipc_request on the bytes one read returned, with the reply it writes if any.

An empty read fits neither branch, as the code's own test for it has it.
-/
def handleIpcRequest (k : Kernel) (childPid : Int) (stack message : Bytes) : Option Bytes × Kernel :=
  match requestOf stack message with
  | some request =>
    let (reply, k) := k.handleRequest childPid request
    (some reply, k)
  | none =>
    match terminationOf message with
    | some pid => (none, k.removePcb pid)
    | none => (none, k)

end Kernel

/-- What the threads of the kernel do to its shared state, one lock section or call at a time. -/
inductive KernelOp where
  /-- create_pcb with the level get_queue_level gives for the name. -/
  | createPcb (pid : Int) (name : Bytes) (priority ram hdd : Int)
  | removePcb (pid : Int)
  | setProcessPriority (pid priority : Int)
  | sendInterrupt (pid : Int)
  | unblockAfterDelay (pid : Int)
  | sendMinimize (pid : Int)
  | sendResume (pid : Int)
  | schedulerTick
  | agingTick
  /-- handle_ipc_request of a child, with the stack it runs on and the bytes it reads. -/
  | handleIpcRequest (childPid : Int) (stack message : Bytes)

/-- One step of the kernel. -/
def Kernel.step (k : Kernel) : KernelOp → Kernel
  | .createPcb pid name priority ram hdd =>
    k.createPcb pid name priority (getQueueLevel name) ram hdd
  | .removePcb pid => k.removePcb pid
  | .setProcessPriority pid priority => k.setProcessPriority pid priority
  | .sendInterrupt pid => k.sendInterrupt pid
  | .unblockAfterDelay pid => k.unblockAfterDelay pid
  | .sendMinimize pid => k.sendMinimize pid
  | .sendResume pid => k.sendResume pid
  | .schedulerTick => k.schedulerTick
  | .agingTick => k.agingTick
  | .handleIpcRequest childPid stack message => (k.handleIpcRequest childPid stack message).2

namespace Kernel

theorem allocateResources_cases (k : Kernel) (ram hdd : Int) :
    (ram ≤ k.resources.freeRam ∧ hdd ≤ k.resources.freeHdd ∧
      k.allocateResources ram hdd = (true, { k with resources := { k.resources with
        freeRam := k.resources.freeRam - ram, freeHdd := k.resources.freeHdd - hdd } })) ∨
    (¬ (ram ≤ k.resources.freeRam ∧ hdd ≤ k.resources.freeHdd) ∧
      k.allocateResources ram hdd = (false, k)) := by
  by_cases free : ram ≤ k.resources.freeRam ∧ hdd ≤ k.resources.freeHdd
  · exact Or.inl ⟨free.1, free.2, by simp [allocateResources, free]⟩
  · refine Or.inr ⟨free, ?_⟩
    unfold allocateResources
    rw [if_neg free]

/--
The handler does nothing to the kernel, or creates one process after charging for it, or removes one.

The counters it charges are the free ones of memory and disk only.
-/
theorem handleIpcRequest_cases (k : Kernel) (childPid : Int) (stack message : Bytes) :
    (k.handleIpcRequest childPid stack message).2 = k ∨
    (∃ request resources, resources.freeCores = k.resources.freeCores ∧
      resources.totalCores = k.resources.totalCores ∧
      (k.handleIpcRequest childPid stack message).2 =
        { k with resources := resources }.createRequested childPid request) ∨
    (∃ pid, (k.handleIpcRequest childPid stack message).2 = k.removePcb pid) := by
  -- A message is a request, a termination or neither, and a request is granted or denied.
  unfold handleIpcRequest
  cases requestOf stack message with
  | some request =>
    rcases k.allocateResources_cases request.ram request.hdd with ⟨-, -, granted⟩ | ⟨-, denied⟩
    · refine Or.inr (Or.inl ⟨request, _, ?_, ?_, by simp only [handleRequest, granted]; rfl⟩) <;> rfl
    · exact Or.inl (by simp only [handleRequest, denied])
  | none =>
    cases terminationOf message with
    | some pid => exact Or.inr (Or.inr ⟨pid, rfl⟩)
    | none => exact Or.inl rfl

end Kernel

end Nebula
