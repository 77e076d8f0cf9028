import Nebula.Pipe.Exchange

/-! How the child and the handler come on together, one move of either at a time. -/

namespace Nebula

open CText

/-- The descriptors of the pipe are those of the three that use it. -/
structure Exchange.Counted (s : Exchange) : Prop where
  readers : s.fifo.readers = s.child.readers + s.handler.readers + s.listener.readers
  writers : s.fifo.writers = s.child.writers + s.handler.writers

namespace ChildStage

@[simp] theorem readerArrives_readers (stage : ChildStage) :
    stage.readerArrives.readers = stage.readers := by
  cases stage <;> rfl

@[simp] theorem readerArrives_writers (stage : ChildStage) :
    stage.readerArrives.writers = stage.writers := by
  cases stage <;> rfl

@[simp] theorem readerArrives_hasWritten (stage : ChildStage) :
    stage.readerArrives.hasWritten = stage.hasWritten := by
  cases stage <;> rfl

@[simp] theorem writerArrives_readers (stage : ChildStage) :
    stage.writerArrives.readers = stage.readers := by
  cases stage <;> rfl

@[simp] theorem writerArrives_writers (stage : ChildStage) :
    stage.writerArrives.writers = stage.writers := by
  cases stage <;> rfl

/-- A child that has written its request does not wait for a reader. -/
theorem readerArrives_eq {stage : ChildStage} (sent : stage.hasWritten = true) :
    stage.readerArrives = stage := by
  cases stage with
  | openingWrite released => cases sent
  | _ => rfl

end ChildStage

namespace HandlerStage

@[simp] theorem writerArrives_readers (stage : HandlerStage) :
    stage.writerArrives.readers = stage.readers := by
  cases stage <;> rfl

@[simp] theorem writerArrives_writers (stage : HandlerStage) :
    stage.writerArrives.writers = stage.writers := by
  cases stage <;> rfl

/-- A reply is decided on after the request is read. -/
theorem hasRead_of_reply {stage : HandlerStage} {reply : Bytes} (decided : stage.reply = some reply) :
    stage.hasRead = true := by
  cases stage <;> first | rfl | cases decided

/-- A reply is written after it is decided on. -/
theorem reply_of_written {stage : HandlerStage} {reply : Bytes} (written : stage.written = some reply) :
    stage.reply = some reply := by
  cases stage <;> first | exact written | cases written

theorem hasRead_of_written {stage : HandlerStage} {reply : Bytes} (written : stage.written = some reply) :
    stage.hasRead = true :=
  hasRead_of_reply (reply_of_written written)

end HandlerStage

namespace Exchange

variable {session : Session} {s : Exchange}

/-- A read that does not wait takes from the pipe and changes nothing else. -/
theorem read_cases (s : Exchange) (party : Party) (size : Nat) :
    s.read party size = none ∨
    ((s.fifo.buffer = [] → s.fifo.writers = 0) ∧
      s.read party size = some ((s.fifo.buffer.take size).map Mark.byte,
        { s with fifo := (s.fifo.read party size).2 })) := by
  -- The read waits exactly when the pipe is empty and somebody may still write to it.
  unfold read
  by_cases waits : (s.fifo.buffer.isEmpty && s.fifo.writers != 0) = true
  · rw [if_pos waits]
    exact Or.inl rfl
  · rw [if_neg waits]
    -- A read of an empty pipe that does not wait has found the end.
    refine Or.inr ⟨?_, rfl⟩
    intro empty
    rw [empty, List.isEmpty_nil, Bool.true_and, bne_iff_ne, not_not] at waits
    exact waits

theorem counted_child (counted : s.Counted) : (s.stepChild session).Counted := by
  obtain ⟨readers, writers⟩ := counted
  unfold stepChild
  -- Each stage changes the count of the pipe as it changes what the child holds.
  cases child : s.child <;> rw [child] at readers writers <;> dsimp only
  case start | sent | closingWrite | closingRead =>
    constructor <;>
      simp [openRead, openWrite, readers, writers, ChildStage.readers, ChildStage.writers] <;> omega
  case writing =>
    split <;> constructor <;> simp [readers, writers, ChildStage.readers, ChildStage.writers]
  case reading =>
    -- Reading moves bytes and no descriptors, whether or not it waits.
    rcases s.read_cases .child 255 with blocked | ⟨ended, taken⟩
    · rw [blocked]
      exact ⟨by rw [child]; exact readers, by rw [child]; exact writers⟩
    · rw [taken]
      exact ⟨readers, writers⟩
  case openingWrite released | openingRead released =>
    cases released <;> constructor <;>
      simp [child, readers, writers, ChildStage.readers, ChildStage.writers]
  case returned | killed =>
    constructor <;> simp [child, readers, writers]

theorem counted_handler (counted : s.Counted) : (s.stepHandler session).Counted := by
  obtain ⟨readers, writers⟩ := counted
  unfold stepHandler
  -- The handler holds one descriptor to read from its first open to its last close.
  cases handler : s.handler <;> rw [handler] at readers writers <;> dsimp only
  case start | answering | writing | closingWrite | closingRead =>
    constructor <;>
      simp [openRead, openWrite, readers, writers, HandlerStage.readers, HandlerStage.writers] <;>
      omega
  case reading =>
    rcases s.read_cases .handler 511 with blocked | ⟨ended, taken⟩
    · rw [blocked]
      exact ⟨by rw [handler]; exact readers, by rw [handler]; exact writers⟩
    · rw [taken]
      -- The end of the pipe and a message lead to different stages with the same descriptors.
      cases (s.fifo.buffer.take 511).map Mark.byte <;> exact ⟨readers, writers⟩
  case opening released =>
    cases released <;> constructor <;>
      simp [handler, readers, writers, HandlerStage.readers, HandlerStage.writers]
  case deciding message =>
    split <;> constructor <;> simp [readers, writers, HandlerStage.readers, HandlerStage.writers]
  case finished =>
    constructor <;> simp [handler, readers, writers]

theorem counted_listener (counted : s.Counted) : (s.stepListener session).Counted := by
  obtain ⟨readers, writers⟩ := counted
  unfold stepListener
  -- The listener never writes, so only the readers are affected.
  cases listener : s.listener <;> rw [listener] at readers <;> dsimp only
  case polling left =>
    cases left <;> constructor <;>
      simp [openRead, readers, writers, ListenerStage.readers, Nat.add_assoc]
  case idle | opened | closing =>
    constructor <;> simp [readers, writers, ListenerStage.readers]

theorem counted_step (s : Exchange) (action : Action) (counted : s.Counted) :
    (s.step session action).Counted := by
  cases action with
  | child => exact counted_child counted
  | handler => exact counted_handler counted
  | listener => exact counted_listener counted
  | kernel op => exact ⟨counted.readers, counted.writers⟩

end Exchange

@[simp] theorem bytes_marked (origin : Origin) (text : Bytes) :
    (marked origin text).map Mark.byte = text := by
  -- Marking and forgetting the mark are inverse on every byte.
  rw [marked, List.map_map]
  exact List.map_id text

theorem origin_of_mem_marked {origin : Origin} {text : Bytes} {mark : Mark}
    (member : mark ∈ marked origin text) : mark.origin = origin := by
  obtain ⟨byte, -, rfl⟩ := List.mem_map.mp member
  rfl

/-- A grant fits the buffer of wait_for_grant and is recognised there. -/
theorem grantReply_length {childPid : Int} (fits : InInt childPid) :
    (grantReply childPid).length ≤ 255 := by
  -- Six bytes of the mark and at most eleven of the number stay far below the limit.
  have digits := decimal_length fits
  have mark : (ascii "GRANT:").length = 6 := by decide
  rw [grantReply, List.length_append, mark]
  omega

theorem contains_grantReply (childPid : Int) :
    contains "GRANT" (cstring (grantReply childPid)) = true := by
  -- The reply has no terminator inside, so the child sees all of it.
  have whole : cstring (grantReply childPid) = grantReply childPid := by
    have literal : (ascii "GRANT:").all (· != 0) = true := by decide
    rw [cstring, List.takeWhile_eq_self_iff]
    intro byte member
    rw [grantReply, List.mem_append] at member
    rcases member with mark | number
    · exact List.all_eq_true.mp literal byte mark
    · exact bne_iff_ne.mpr (decimal_plain childPid byte number).1
  -- The mark is the beginning of the reply.
  rw [whole, contains, decide_eq_true_iff]
  exact ⟨[], ch ':' :: decimal childPid, rfl⟩

/-- The handler grants or denies the request of the session. -/
theorem Session.reply_cases (session : Session) (k : Kernel) :
    ∃ k', k.handleIpcRequest session.childPid session.stack session.message.text =
        (some (grantReply session.childPid), k') ∨
      k.handleIpcRequest session.childPid session.stack session.message.text = (some denyReply, k') := by
  unfold Kernel.handleIpcRequest
  rw [session.message.requestOf_text session.stack]
  dsimp only [Kernel.handleRequest]
  -- The message parses, so the counters alone decide.
  rcases k.allocateResources_cases (session.message.request session.stack).ram
    (session.message.request session.stack).hdd with ⟨-, -, charged⟩ | ⟨-, denied⟩
  · rw [charged]
    exact ⟨_, Or.inl rfl⟩
  · rw [denied]
    exact ⟨_, Or.inr rfl⟩

namespace ChildStage

/-- The child waits for a reply that nobody has begun to write. -/
def awaiting : ChildStage → Bool
  | .closingWrite | .sent | .openingRead false => true
  | _ => false

/-- The child has sent its request, and nothing that looks like a grant has reached it. -/
def refused : ChildStage → Bool
  | .closingWrite | .sent | .openingRead _ | .reading => true
  | .closingRead buffer => !contains "GRANT" (cstring buffer)
  | .returned granted => !granted
  | _ => false

theorem awaiting_hasWritten {stage : ChildStage} (awaits : stage.awaiting = true) :
    stage.hasWritten = true := by
  -- Every stage that awaits a reply comes after the write.
  unfold awaiting at awaits
  split at awaits <;> first | rfl | cases awaits

theorem refused_hasWritten {stage : ChildStage} (refused : stage.refused = true) :
    stage.hasWritten = true := by
  cases stage <;> first | rfl | cases refused

end ChildStage

namespace Session

variable (session : Session)

/-- The handler has read the request. -/
def requestTaken : List (Option Party × Mark) :=
  (marked .request session.message.text).map fun mark => (some .handler, mark)

/-- The child has read the grant. -/
def grantTaken : List (Option Party × Mark) :=
  (marked .reply (grantReply session.childPid)).map fun mark => (some .child, mark)

/-- How far the child and the handler have come together, and where their messages are. -/
inductive Progress (child : ChildStage) (handler : HandlerStage) (buffer : List Mark)
    (gone : List (Option Party × Mark)) : Prop
  | asking (unsent : child.hasWritten = false)
      (before : handler = .start ∨ handler = .opening false ∨
        ((handler = .opening true ∨ handler = .reading) ∧ child.writers = 1))
      (empty : buffer = []) (none : gone = [])
  | asked (sent : child.awaiting = true) (before : handler.hasRead = false)
      (request : buffer = marked .request session.message.text) (none : gone = [])
  | deciding (sent : child.awaiting = true)
      (asked : handler = .deciding session.message.text ∨ handler = .answering (grantReply session.childPid))
      (empty : buffer = []) (taken : gone = session.requestTaken)
  | granting (sent : child.hasWritten = true) (unread : child.hasRead = false)
      (granting : handler = .writing (grantReply session.childPid))
      (empty : buffer = []) (taken : gone = session.requestTaken)
  | granted (sent : child.hasWritten = true) (unread : child.hasRead = false)
      (granted : handler.written = some (grantReply session.childPid))
      (grant : buffer = marked .reply (grantReply session.childPid))
      (taken : gone = session.requestTaken)
  | received (read : child = .closingRead (grantReply session.childPid) ∨ child = .returned true)
      (granted : handler.written = some (grantReply session.childPid))
      (empty : buffer = []) (taken : gone = session.requestTaken ++ session.grantTaken)
  | denied (refused : child.refused = true) (denied : handler.reply = some denyReply)
      (deny : buffer = [] ∨ (handler.written = some denyReply ∧ buffer = marked .reply denyReply))
      (taken : ∀ entry ∈ gone, entry.2.origin = .request → entry.1 = some .handler)

variable {session} {child : ChildStage} {handler : HandlerStage} {buffer : List Mark}
  {gone : List (Option Party × Mark)}

namespace Progress

/-- Before the child writes, the pipe is unused. -/
theorem of_unsent (progress : session.Progress child handler buffer gone)
    (unsent : child.hasWritten = false) :
    (handler = .start ∨ handler = .opening false ∨
      ((handler = .opening true ∨ handler = .reading) ∧ child.writers = 1)) ∧
      buffer = [] ∧ gone = [] := by
  -- Only the first phase has a child that has not written.
  cases progress with
  | asking _ before empty none => exact ⟨before, empty, none⟩
  | asked sent =>
    rw [ChildStage.awaiting_hasWritten sent] at unsent
    cases unsent
  | deciding sent =>
    rw [ChildStage.awaiting_hasWritten sent] at unsent
    cases unsent
  | granting sent =>
    rw [sent] at unsent
    cases unsent
  | granted sent =>
    rw [sent] at unsent
    cases unsent
  | received read => rcases read with rfl | rfl <;> cases unsent
  | denied refused =>
    rw [ChildStage.refused_hasWritten refused] at unsent
    cases unsent

/-- The child opens the pipe to write, which releases the handler. -/
theorem openedWrite (progress : session.Progress .start handler buffer gone) (released : Bool) :
    session.Progress (.openingWrite released) handler.writerArrives buffer gone := by
  -- A handler that waits in open for a writer goes on, and none has been let through before.
  obtain ⟨before, empty, none⟩ := progress.of_unsent rfl
  refine .asking rfl ?_ empty none
  rcases before with rfl | rfl | ⟨-, writer⟩
  · exact Or.inl rfl
  · exact Or.inr (Or.inr ⟨Or.inl rfl, rfl⟩)
  · cases writer

theorem released (progress : session.Progress (.openingWrite true) handler buffer gone) :
    session.Progress .writing handler buffer gone := by
  obtain ⟨before, empty, none⟩ := progress.of_unsent rfl
  exact .asking rfl before empty none

/-- A child that nobody can read from is killed, and the handler has not come. -/
theorem killed (progress : session.Progress .writing handler buffer gone)
    (nobody : handler.readers = 0) : session.Progress .killed handler buffer gone := by
  -- A handler past its start would hold a descriptor to read.
  obtain ⟨before, empty, none⟩ := progress.of_unsent rfl
  refine .asking rfl (Or.inl ?_) empty none
  rcases before with here | rfl | ⟨rfl | rfl, -⟩
  · exact here
  all_goals cases nobody

/-- The child writes its request into the empty pipe. -/
theorem wrote (progress : session.Progress .writing handler buffer gone) :
    session.Progress .closingWrite handler (buffer ++ marked .request session.message.text) gone := by
  -- The pipe was empty, so the request is all it holds now.
  obtain ⟨before, empty, none⟩ := progress.of_unsent rfl
  rw [empty, List.nil_append]
  refine .asked rfl ?_ rfl none
  rcases before with rfl | rfl | ⟨rfl | rfl, -⟩ <;> rfl

theorem closedWrite (progress : session.Progress .closingWrite handler buffer gone) :
    session.Progress .sent handler buffer gone := by
  cases progress with
  | asking unsent => cases unsent
  | asked sent before request none => exact .asked rfl before request none
  | deciding sent asked empty taken => exact .deciding rfl asked empty taken
  | granting sent unread granting empty taken => exact .granting rfl rfl granting empty taken
  | granted sent unread granted grant taken => exact .granted rfl rfl granted grant taken
  | received read => rcases read with here | here <;> cases here
  | denied refused denied deny taken => exact .denied rfl denied deny taken

/-- The child opens the pipe to read, and goes on only if the handler is there to write. -/
theorem openedRead (progress : session.Progress .sent handler buffer gone) {released : Bool}
    (writer : released = true → handler.writers ≠ 0) :
    session.Progress (.openingRead released) handler buffer gone := by
  -- The open is over at once only if the handler has the pipe open to write.
  have waits : handler.writers = 0 → released = false := by
    intro nobody
    cases released with
    | false => rfl
    | true => exact absurd nobody (writer rfl)
  cases progress with
  | asking unsent => cases unsent
  | asked sent before request none =>
    -- A handler that has not read the request writes nothing yet.
    have nobody : handler.writers = 0 := by
      cases handler <;> first | rfl | cases before
    rw [waits nobody]
    exact .asked rfl before request none
  | deciding sent asked empty taken =>
    have nobody : handler.writers = 0 := by rcases asked with rfl | rfl <;> rfl
    rw [waits nobody]
    exact .deciding rfl asked empty taken
  | granting sent unread granting empty taken => exact .granting rfl rfl granting empty taken
  | granted sent unread granted grant taken => exact .granted rfl rfl granted grant taken
  | received read => rcases read with here | here <;> cases here
  | denied refused denied deny taken => exact .denied rfl denied deny taken

theorem reading (progress : session.Progress (.openingRead true) handler buffer gone) :
    session.Progress .reading handler buffer gone := by
  cases progress with
  | asking unsent => cases unsent
  | asked sent => cases sent
  | deciding sent => cases sent
  | granting sent unread granting empty taken => exact .granting rfl rfl granting empty taken
  | granted sent unread granted grant taken => exact .granted rfl rfl granted grant taken
  | received read => rcases read with here | here <;> cases here
  | denied refused denied deny taken => exact .denied rfl denied deny taken

/-- The child reads all there is, which is nothing only if the handler has stopped writing. -/
theorem read (progress : session.Progress .reading handler buffer gone)
    (ended : buffer = [] → handler.writers = 0) :
    session.Progress (.closingRead (buffer.map Mark.byte)) handler []
      (gone ++ buffer.map fun mark => (some .child, mark)) := by
  cases progress with
  | asking unsent => cases unsent
  | asked sent => cases sent
  | deciding sent => cases sent
  | granting sent unread granting empty taken =>
    -- The handler is about to write, so an empty pipe makes the child wait.
    rw [granting] at ended
    cases ended empty
  | granted sent unread granted grant taken =>
    -- The grant is all there is, and the child takes the whole of it.
    rw [grant, taken, bytes_marked]
    exact .received (Or.inl rfl) granted rfl rfl
  | received read => rcases read with here | here <;> cases here
  | denied refused denied deny taken =>
    -- The child finds the end of the pipe, or the denial.
    rcases deny with rfl | ⟨-, rfl⟩
    · rw [List.map_nil, List.map_nil, List.append_nil]
      exact .denied rfl denied (Or.inl rfl) taken
    · rw [bytes_marked]
      refine .denied (by decide) denied (Or.inl rfl) ?_
      intro entry member request
      rcases List.mem_append.mp member with before | now
      · exact taken entry before request
      · obtain ⟨mark, inside, rfl⟩ := List.mem_map.mp now
        rw [origin_of_mem_marked inside] at request
        cases request

/-- What wait_for_grant makes of what it has read is what the handler meant. -/
theorem returned {bytes : Bytes} (progress : session.Progress (.closingRead bytes) handler buffer gone) :
    session.Progress (.returned (contains "GRANT" (cstring bytes))) handler buffer gone := by
  cases progress with
  | asking unsent => cases unsent
  | asked sent => cases sent
  | deciding sent => cases sent
  | granting sent unread => cases unread
  | granted sent unread => cases unread
  | received read granted empty taken =>
    rcases read with here | here
    · obtain rfl := ChildStage.closingRead.inj here
      -- A grant is recognised by its mark.
      exact .received (Or.inr (by rw [contains_grantReply])) granted empty taken
    · cases here
  | denied refused denied deny taken => exact .denied refused denied deny taken

/-- Before the handler reads, the request is all there can be. -/
theorem of_unread (progress : session.Progress child handler buffer gone)
    (unread : handler.hasRead = false) :
    (child.hasWritten = false ∧ (handler = .start ∨ handler = .opening false ∨
      ((handler = .opening true ∨ handler = .reading) ∧ child.writers = 1)) ∧
      buffer = [] ∧ gone = []) ∨
    (child.awaiting = true ∧ buffer = marked .request session.message.text ∧ gone = []) := by
  -- In every later phase the handler has read the request.
  cases progress with
  | asking unsent before empty none => exact Or.inl ⟨unsent, before, empty, none⟩
  | asked sent _ request none => exact Or.inr ⟨sent, request, none⟩
  | deciding _ asked => rcases asked with rfl | rfl <;> cases unread
  | granting _ _ granting =>
    rw [granting] at unread
    cases unread
  | granted _ _ granted =>
    rw [HandlerStage.hasRead_of_written granted] at unread
    cases unread
  | received _ granted =>
    rw [HandlerStage.hasRead_of_written granted] at unread
    cases unread
  | denied _ denied =>
    rw [HandlerStage.hasRead_of_reply denied] at unread
    cases unread

/-- The handler opens the pipe to read, which releases the child, and goes on only if the child is there. -/
theorem handlerOpened (progress : session.Progress child .start buffer gone) {released : Bool}
    (writer : released = true → child.writers ≠ 0) :
    session.Progress child.readerArrives (.opening released) buffer gone := by
  -- Either the child is still on its way to write, or its request is in the pipe.
  rcases progress.of_unread rfl with ⟨unsent, -, empty, none⟩ | ⟨sent, request, none⟩
  · refine .asking (by rw [ChildStage.readerArrives_hasWritten, unsent]) ?_ empty none
    rw [ChildStage.readerArrives_writers]
    cases released with
    | false => exact Or.inr (Or.inl rfl)
    | true =>
      -- A child that may write holds one descriptor for it.
      have one : child.writers = 1 := by
        have some := writer rfl
        cases child <;> first | rfl | exact absurd rfl some
      exact Or.inr (Or.inr ⟨Or.inl rfl, one⟩)
  · rw [ChildStage.readerArrives_eq (ChildStage.awaiting_hasWritten sent)]
    exact .asked sent rfl request none

theorem handlerReleased (progress : session.Progress child (.opening true) buffer gone) :
    session.Progress child .reading buffer gone := by
  rcases progress.of_unread rfl with ⟨unsent, before, empty, none⟩ | ⟨sent, request, none⟩
  · refine .asking unsent (Or.inr (Or.inr ⟨Or.inr rfl, ?_⟩)) empty none
    rcases before with here | here | ⟨-, writer⟩
    · cases here
    · cases here
    · exact writer
  · exact .asked sent rfl request none

/-- The handler reads the whole request, since it waits for it while the child may still write. -/
theorem handlerRead (progress : session.Progress child .reading buffer gone)
    (ended : buffer = [] → child.writers = 0) :
    buffer = marked .request session.message.text ∧
      session.Progress child (.deciding session.message.text) [] session.requestTaken := by
  -- With nothing written yet the child still may, so the read cannot have ended.
  rcases progress.of_unread rfl with ⟨-, before, empty, -⟩ | ⟨sent, request, -⟩
  · rcases before with here | here | ⟨-, writer⟩
    · cases here
    · cases here
    · rw [ended empty] at writer
      cases writer
  · exact ⟨request, .deciding sent (Or.inl rfl) rfl rfl⟩

/-- While the handler decides, the child awaits the outcome. -/
theorem of_deciding {text : Bytes} (progress : session.Progress child (.deciding text) buffer gone) :
    text = session.message.text ∧ child.awaiting = true ∧ buffer = [] ∧ gone = session.requestTaken := by
  -- One phase only has the handler deciding, and on the message of the session.
  cases progress with
  | asking _ before => rcases before with here | here | ⟨here | here, -⟩ <;> cases here
  | asked _ before => cases before
  | deciding sent asked empty taken =>
    rcases asked with here | here
    · exact ⟨HandlerStage.deciding.inj here, sent, empty, taken⟩
    · cases here
  | granting _ _ granting => cases granting
  | granted _ _ granted => cases granted
  | received _ granted => cases granted
  | denied _ denied => cases denied

theorem decidedGrant {text : Bytes} (progress : session.Progress child (.deciding text) buffer gone) :
    session.Progress child (.answering (grantReply session.childPid)) buffer gone := by
  obtain ⟨-, sent, empty, taken⟩ := progress.of_deciding
  exact .deciding sent (Or.inr rfl) empty taken

theorem decidedDeny {text : Bytes} (progress : session.Progress child (.deciding text) buffer gone) :
    session.Progress child (.answering denyReply) buffer gone := by
  obtain ⟨-, sent, empty, taken⟩ := progress.of_deciding
  -- A child that awaits a reply has been told nothing, and the request went to the handler.
  refine .denied ?_ rfl (Or.inl empty) ?_
  · unfold ChildStage.awaiting at sent
    split at sent <;> first | rfl | cases sent
  · rw [taken]
    intro entry member _
    obtain ⟨mark, -, rfl⟩ := List.mem_map.mp member
    rfl

/-- The handler opens the pipe to write, which releases the child. -/
theorem answered {reply : Bytes} (progress : session.Progress child (.answering reply) buffer gone) :
    session.Progress child.writerArrives (.writing reply) buffer gone := by
  cases progress with
  | asking _ before => rcases before with here | here | ⟨here | here, -⟩ <;> cases here
  | asked _ before => cases before
  | deciding sent asked empty taken =>
    rcases asked with here | here
    · cases here
    · obtain rfl := HandlerStage.answering.inj here
      -- Releasing the child from its open changes neither that it has written nor that it has not read.
      refine .granting ?_ ?_ rfl empty taken <;>
        (cases child <;> first | rfl | cases sent)
  | granting _ _ granting => cases granting
  | granted _ _ granted => cases granted
  | received _ granted => cases granted
  | denied refused denied deny taken =>
    refine .denied ?_ denied ?_ taken
    · cases child <;> exact refused
    · rcases deny with empty | ⟨written, -⟩
      · exact Or.inl empty
      · cases written

/-- The handler writes its reply into the empty pipe. -/
theorem handlerWrote {reply : Bytes} (progress : session.Progress child (.writing reply) buffer gone) :
    session.Progress child (.closingWrite reply) (buffer ++ marked .reply reply) gone := by
  cases progress with
  | asking _ before => rcases before with here | here | ⟨here | here, -⟩ <;> cases here
  | asked _ before => cases before
  | deciding _ asked => rcases asked with here | here <;> cases here
  | granting sent unread granting empty taken =>
    obtain rfl := HandlerStage.writing.inj granting
    -- The pipe was empty, so the grant is all it holds now.
    rw [empty, List.nil_append]
    exact .granted sent unread rfl rfl taken
  | granted _ _ granted => cases granted
  | received _ granted => cases granted
  | denied refused denied deny taken =>
    obtain rfl := Option.some.inj denied
    rcases deny with empty | ⟨written, -⟩
    · rw [empty, List.nil_append]
      exact .denied refused rfl (Or.inr ⟨rfl, rfl⟩) taken
    · cases written

/-- Nothing depends on where the handler is after it has written. -/
theorem handlerClosed {reply : Bytes} {after : HandlerStage}
    (progress : session.Progress child handler buffer gone)
    (written : handler.written = some reply) (still : after.written = some reply) :
    session.Progress child after buffer gone := by
  -- What the phases say about the handler from here on is only what it has written.
  have same : after.written = handler.written := still.trans written.symm
  cases progress with
  | asking _ before => rcases before with rfl | rfl | ⟨rfl | rfl, -⟩ <;> cases written
  | asked _ before =>
    rw [HandlerStage.hasRead_of_written written] at before
    cases before
  | deciding _ asked => rcases asked with rfl | rfl <;> cases written
  | granting _ _ granting =>
    rw [granting] at written
    cases written
  | granted sent unread granted grant taken => exact .granted sent unread (same.trans granted) grant taken
  | received read granted empty taken => exact .received read (same.trans granted) empty taken
  | denied refused denied deny taken =>
    rw [HandlerStage.reply_of_written written] at denied
    refine .denied refused ((HandlerStage.reply_of_written still).trans denied) ?_ taken
    rw [same]
    exact deny

/-- The handler never closes the pipe without a reply. -/
theorem replied {reply : Option Bytes} (progress : session.Progress child (.closingRead reply) buffer gone) :
    ∃ text, reply = some text := by
  cases progress with
  | asking _ before => rcases before with here | here | ⟨here | here, -⟩ <;> cases here
  | asked _ before => cases before
  | deciding _ asked => rcases asked with here | here <;> cases here
  | granting _ _ granting => cases granting
  | granted _ _ granted => exact ⟨_, granted⟩
  | received _ granted => exact ⟨_, granted⟩
  | denied _ denied => exact ⟨_, denied⟩

/-- Another reader can only release a child that has not written anything. -/
theorem readerArrives (progress : session.Progress child handler buffer gone) :
    session.Progress child.readerArrives handler buffer gone := by
  -- A reader releases only a child that waits to write.
  cases unsent : child.hasWritten with
  | false =>
    obtain ⟨before, empty, none⟩ := progress.of_unsent unsent
    refine .asking (by rw [ChildStage.readerArrives_hasWritten, unsent]) ?_ empty none
    rw [ChildStage.readerArrives_writers]
    exact before
  | true =>
    rw [ChildStage.readerArrives_eq unsent]
    exact progress

end Progress

end Session

end Nebula
