import Nebula.Pipe.Progress

/-! The child and the kernel agree on the grant while no one else takes what they write. -/

namespace Nebula

open CText

namespace Exchange

variable (session : Session) (s : Exchange)

/-- The exchange is somewhere on its way, and the descriptors are counted. -/
structure Sound : Prop where
  counted : s.Counted
  progress : session.Progress s.child s.handler s.fifo.buffer s.fifo.gone

variable {session s}

/-- What waits is all that is buffered. -/
theorem waiting_cases (progress : session.Progress s.child s.handler s.fifo.buffer s.fifo.gone)
    (waiting : s.Waiting session) :
    s.fifo.buffer = marked .request session.message.text ∨
      (s.fifo.buffer = marked .reply (grantReply session.childPid) ∧
        s.handler.written = some (grantReply session.childPid)) := by
  -- Two phases have a message waiting, and in the others one side has not written or the other has read.
  cases progress with
  | asked sent before request none => exact Or.inl request
  | granted sent unread granted grant taken => exact Or.inr ⟨grant, granted⟩
  | asking unsent before empty none =>
    -- Nothing has been written on either side.
    rcases waiting with ⟨written, -⟩ | ⟨written, -⟩
    · rw [unsent] at written
      cases written
    · rcases before with here | here | ⟨here | here, -⟩ <;> (rw [here] at written; cases written)
  | deciding sent asked empty taken =>
    -- The request has been read, and no reply is written.
    rcases waiting with ⟨-, unread⟩ | ⟨written, -⟩
    · rcases asked with here | here <;> (rw [here] at unread; cases unread)
    · rcases asked with here | here <;> (rw [here] at written; cases written)
  | granting sent unread granting empty taken =>
    rcases waiting with ⟨-, unread⟩ | ⟨written, -⟩
    · rw [granting] at unread
      cases unread
    · rw [granting] at written
      cases written
  | received read granted empty taken =>
    rcases waiting with ⟨-, unread⟩ | ⟨-, unread⟩
    · rw [HandlerStage.hasRead_of_written granted] at unread
      cases unread
    -- The child has read the grant too.
    · rcases read with here | here <;> (rw [here] at unread; cases unread)
  | denied refused denied deny taken =>
    rcases waiting with ⟨-, unread⟩ | ⟨written, -⟩
    · rw [HandlerStage.hasRead_of_reply denied] at unread
      cases unread
    · rw [HandlerStage.reply_of_written written] at denied
      -- A denial is no GRANT, so nothing waits for the child.
      exact absurd (Option.some.inj denied) (Kernel.grantReply_ne_denyReply session.childPid)

/-- The whole buffer fits the reads of the child and of the listener. -/
theorem buffer_short (progress : session.Progress s.child s.handler s.fifo.buffer s.fifo.gone) :
    s.fifo.buffer.length ≤ 255 := by
  -- The pipe never holds more than one message, and each of the three is short.
  have request : (marked .request session.message.text).length ≤ 255 := by
    rw [marked, List.length_map]
    exact Nat.le_of_lt_succ session.message.short
  have grant : (marked .reply (grantReply session.childPid)).length ≤ 255 := by
    rw [marked, List.length_map]
    exact grantReply_length session.pidFits
  have nothing : ([] : List Mark).length ≤ 255 := Nat.zero_le _
  cases progress with
  | asked sent before request none => rwa [request]
  | granted sent unread granted grant taken => rwa [grant]
  | denied refused denied deny taken =>
    rcases deny with here | ⟨-, here⟩
    · rwa [here]
    · rw [here]
      decide
  | asking unsent before empty none => rwa [empty]
  | deciding sent asked empty taken => rwa [empty]
  | granting sent unread granting empty taken => rwa [empty]
  | received read granted empty taken => rwa [empty]

/-- Whatever is buffered may go, whoever takes it, while no message waits. -/
theorem emptied (progress : session.Progress s.child s.handler s.fifo.buffer s.fifo.gone)
    (unwaited : ¬ s.Waiting session) (reader : Option Party) :
    session.Progress s.child s.handler []
      (s.fifo.gone ++ s.fifo.buffer.map fun mark => (reader, mark)) := by
  -- Taking nothing changes nothing, so something is buffered that does not wait.
  by_cases empty : s.fifo.buffer = []
  · rw [empty] at progress ⊢
    rwa [List.map_nil, List.append_nil]
  · cases progress with
    | denied refused denied deny taken =>
      refine .denied refused denied (Or.inl rfl) ?_
      intro entry member
      rcases List.mem_append.mp member with before | now
      · exact taken entry before
      · -- All that can be buffered is the denial.
        obtain ⟨mark, inside, rfl⟩ := List.mem_map.mp now
        rcases deny with none | ⟨-, deny⟩
        · exact absurd none empty
        · rw [deny] at inside
          intro request
          rw [origin_of_mem_marked inside] at request
          cases request
    | asked sent before request none =>
      exact absurd (Or.inl ⟨ChildStage.awaiting_hasWritten sent, before⟩) unwaited
    | granted sent unread granted grant taken => exact absurd (Or.inr ⟨granted, unread⟩) unwaited
    | asking unsent before none gone => exact absurd none empty
    | deciding sent asked none taken => exact absurd none empty
    | granting sent unread granting none taken => exact absurd none empty
    | received read granted none taken => exact absurd none empty

/-- A message that goes to someone else while it waits breaks the agreement. -/
theorem exposed (progress : session.Progress s.child s.handler s.fifo.buffer s.fifo.gone)
    (waiting : s.Waiting session) {reader : Option Party}
    (outside : reader ≠ some .handler ∧ reader ≠ some .child) {s' : Exchange}
    (written : s'.handler.written = s.handler.written)
    (gone : s'.fifo.gone = s.fifo.gone ++ s.fifo.buffer.map fun mark => (reader, mark)) :
    ¬ s'.Agreement session := by
  intro agreement
  -- The first byte of the message is enough.
  have first : ∀ mark ∈ s.fifo.buffer, (reader, mark) ∈ s'.fifo.gone := by
    intro mark member
    rw [gone]
    exact List.mem_append_right _ (List.mem_map_of_mem member)
  rcases waiting_cases progress waiting with request | ⟨grant, granted⟩
  · have member : Mark.mk .request (ch 'R') ∈ s.fifo.buffer := by
      rw [request]
      exact List.mem_cons_self
    exact outside.1 (agreement.request _ (first _ member) rfl)
  · have member : Mark.mk .reply (ch 'G') ∈ s.fifo.buffer := by
      rw [grant]
      exact List.mem_cons_self
    exact outside.2 ((agreement.grant (written.trans granted)).1 _ (first _ member) rfl)

/-- A close keeps what is buffered, or it drops the last descriptor while no message waits. -/
theorem closed_progress (progress : session.Progress s.child s.handler s.fifo.buffer s.fifo.gone)
    {q : Fifo Party Mark}
    (closed : (q.buffer = s.fifo.buffer ∧ q.gone = s.fifo.gone) ∨
      (s.fifo.readers + s.fifo.writers = 1 ∧ q.buffer = [] ∧
        q.gone = s.fifo.gone ++ s.fifo.buffer.map fun mark => (none, mark)))
    (met : s.fifo.readers + s.fifo.writers = 1 → ¬ s.Waiting session) :
    session.Progress s.child s.handler q.buffer q.gone := by
  -- With another descriptor open nothing is discarded.
  rcases closed with ⟨buffer, gone⟩ | ⟨last, buffer, gone⟩
  · rw [buffer, gone]
    exact progress
  · rw [buffer, gone]
    exact emptied progress (met last) none

theorem progress_child (sound : s.Sound session) (met : s.KeepsMessages session .child) :
    session.Progress (s.stepChild session).child (s.stepChild session).handler
      (s.stepChild session).fifo.buffer (s.stepChild session).fifo.gone := by
  obtain ⟨⟨readers, writers⟩, progress⟩ := sound
  unfold stepChild
  -- Each call of the child is one move, or waits.
  cases child : s.child with
  | start =>
    rw [child] at progress
    exact progress.openedWrite _
  | openingWrite released =>
    cases released with
    | true =>
      rw [child] at progress
      exact progress.released
    | false => exact progress
  | writing =>
    rw [child] at progress readers writers
    dsimp only
    by_cases nobody : s.fifo.readers = 0
    · rw [if_pos nobody]
      have absent : s.handler.readers = 0 := by omega
      have opened : 0 < s.fifo.writers := by
        rw [writers]
        exact Nat.lt_add_right _ Nat.one_pos
      -- Nothing has been written, so closing discards nothing.
      obtain ⟨-, empty, -⟩ := progress.of_unsent rfl
      rcases s.fifo.closeWrite_cases opened with ⟨buffer, gone⟩ | ⟨-, buffer, gone⟩
      · rw [buffer, gone]
        exact progress.killed absent
      · rw [buffer, gone, empty, List.map_nil, List.append_nil]
        rw [empty] at progress
        exact progress.killed absent
    · rw [if_neg nobody]
      exact progress.wrote
  | closingWrite =>
    -- The child closes its descriptor to write, which may be the last one.
    have opened : 0 < s.fifo.writers := by
      rw [writers, child]
      exact Nat.lt_add_right _ Nat.one_pos
    have closes : s.child.closes = true := by rw [child]; rfl
    have after := closed_progress progress (Fifo.closeWrite_cases opened) (met closes)
    rw [child] at after
    exact after.closedWrite
  | sent =>
    rw [child] at progress writers
    -- Only the handler can be the writer it finds, as its own descriptor is closed.
    refine progress.openedRead ?_
    intro released
    rw [bne_iff_ne, writers] at released
    intro nobody
    exact released (by rw [nobody]; rfl)
  | openingRead released =>
    cases released with
    | true =>
      rw [child] at progress
      exact progress.reading
    | false => exact progress
  | reading =>
    dsimp only
    rcases s.read_cases .child 255 with blocked | ⟨ended, taken⟩
    · rw [blocked]
      exact progress
    · rw [taken, Fifo.read_whole (buffer_short progress)]
      rw [child] at progress writers
      rw [List.take_of_length_le (buffer_short (by rw [child]; exact progress))]
      -- A read that has ended has found no writer, so the handler is not about to write.
      apply progress.read
      intro empty
      have nobody := ended empty
      rw [writers] at nobody
      omega
  | closingRead bytes =>
    -- The child closes its descriptor to read, after taking what was there.
    have opened : 0 < s.fifo.readers := by
      rw [readers, child, Nat.add_assoc]
      exact Nat.lt_add_right _ Nat.one_pos
    have closes : s.child.closes = true := by rw [child]; rfl
    have after := closed_progress progress (Fifo.closeRead_cases opened) (met closes)
    rw [child] at after
    exact after.returned
  | returned granted => exact progress
  | killed => exact progress

theorem progress_handler (sound : s.Sound session) (met : s.KeepsMessages session .handler) :
    session.Progress (s.stepHandler session).child (s.stepHandler session).handler
      (s.stepHandler session).fifo.buffer (s.stepHandler session).fifo.gone := by
  obtain ⟨⟨readers, writers⟩, progress⟩ := sound
  unfold stepHandler
  -- Each call of the handler is one move, or waits.
  cases handler : s.handler with
  | start =>
    rw [handler] at progress writers
    -- Only the child can be the writer it finds.
    refine progress.handlerOpened ?_
    intro released
    rw [bne_iff_ne, writers] at released
    exact released
  | opening released =>
    cases released with
    | true =>
      rw [handler] at progress
      exact progress.handlerReleased
    | false => exact progress
  | reading =>
    dsimp only
    rcases s.read_cases .handler 511 with blocked | ⟨ended, taken⟩
    · rw [blocked]
      exact progress
    · have short := buffer_short progress
      rw [handler] at progress writers
      -- The read takes the request, since an empty pipe would make it wait for the child.
      obtain ⟨request, after⟩ := progress.handlerRead fun empty => by
        have nobody := ended empty
        rw [writers] at nobody
        exact nobody
      rcases progress.of_unread rfl with ⟨-, -, empty, -⟩ | ⟨-, -, none⟩
      · rw [request] at empty
        cases empty
      · rw [taken, Fifo.read_whole (by omega), List.take_of_length_le (by omega), request,
          bytes_marked, none]
        exact after
  | deciding text =>
    rw [handler] at progress
    obtain ⟨same, -⟩ := progress.of_deciding
    dsimp only
    rw [same]
    -- The reply depends on the free counters, whatever the other threads have done to them.
    obtain ⟨k, granted | denied⟩ := session.reply_cases s.kernel
    · rw [granted]
      exact progress.decidedGrant
    · rw [denied]
      exact progress.decidedDeny
  | answering reply =>
    rw [handler] at progress
    exact progress.answered
  | writing reply =>
    rw [handler] at progress
    exact progress.handlerWrote
  | closingWrite reply =>
    have opened : 0 < s.fifo.writers := by
      rw [writers, handler]
      exact Nat.lt_add_left _ Nat.one_pos
    have closes : s.handler.closes = true := by rw [handler]; rfl
    have after := closed_progress progress (Fifo.closeWrite_cases opened) (met closes)
    rw [handler] at after
    exact after.handlerClosed rfl rfl
  | closingRead reply =>
    have opened : 0 < s.fifo.readers := by
      rw [readers, handler]
      exact Nat.lt_of_lt_of_le (Nat.lt_add_left _ Nat.one_pos) (Nat.le_add_right _ _)
    -- This close drops the last descriptor if the child has not opened the pipe to read.
    have closes : s.handler.closes = true := by rw [handler]; rfl
    have after := closed_progress progress (Fifo.closeRead_cases opened) (met closes)
    rw [handler] at after
    obtain ⟨text, rfl⟩ := after.replied
    exact after.handlerClosed rfl rfl
  | finished reply => exact progress

/-- A child whom the listener might release has not written anything yet. -/
theorem progress_listener (sound : s.Sound session) (met : s.KeepsMessages session .listener) :
    session.Progress (s.stepListener session).child (s.stepListener session).handler
      (s.stepListener session).fifo.buffer (s.stepListener session).fifo.gone := by
  obtain ⟨⟨readers, writers⟩, progress⟩ := sound
  unfold stepListener
  cases listener : s.listener with
  | idle => exact progress
  | polling left =>
    cases left with
    | zero => exact progress
    -- The listener opens the pipe without waiting.
    | succ left => exact progress.readerArrives
  | opened left =>
    -- No message waits, so the listener finds nothing, or a denial.
    have unwaited := met (Or.inl (by rw [listener]; rfl))
    dsimp only
    rw [Fifo.read_whole (buffer_short progress)]
    exact emptied progress unwaited (some .listener)
  | closing left =>
    have opened : 0 < s.fifo.readers := by
      rw [readers, listener]
      exact Nat.lt_add_left _ Nat.one_pos
    apply closed_progress progress (Fifo.closeRead_cases opened)
    intro last
    exact met (Or.inr ⟨by rw [listener]; rfl, last⟩)

/-- A step that keeps the messages leads on. -/
theorem sound_step (s : Exchange) (action : Action) (sound : s.Sound session)
    (met : s.KeepsMessages session action) : (s.step session action).Sound session := by
  refine ⟨counted_step s action sound.counted, ?_⟩
  cases action with
  | child => exact progress_child sound met
  | handler => exact progress_handler sound met
  | listener => exact progress_listener sound met
  | kernel op => exact sound.progress

theorem sound_start (k : Kernel) : (start k).Sound session :=
  ⟨⟨rfl, rfl⟩, .asking rfl (Or.inl rfl) rfl rfl⟩

theorem requestTaken_entry {entry : Option Party × Mark} (member : entry ∈ session.requestTaken) :
    entry.1 = some .handler ∧ entry.2.origin = .request := by
  -- Every entry is a marked byte with the same reader.
  obtain ⟨mark, inside, rfl⟩ := List.mem_map.mp member
  exact ⟨rfl, origin_of_mem_marked inside⟩

theorem grantTaken_entry {entry : Option Party × Mark} (member : entry ∈ session.grantTaken) :
    entry.1 = some .child ∧ entry.2.origin = .reply := by
  obtain ⟨mark, inside, rfl⟩ := List.mem_map.mp member
  exact ⟨rfl, origin_of_mem_marked inside⟩

theorem bytesOf_append (origin : Origin) (first second : List Mark) :
    bytesOf origin (first ++ second) = bytesOf origin first ++ bytesOf origin second := by
  rw [bytesOf, List.filter_append, List.map_append]
  rfl

theorem bytesOf_marked (origin : Origin) (text : Bytes) :
    bytesOf origin (marked origin text) = text := by
  -- The filter keeps all bytes of its own origin.
  have all : (marked origin text).filter (fun mark => mark.origin == origin) = marked origin text := by
    rw [List.filter_eq_self]
    intro mark member
    exact beq_iff_eq.mpr (origin_of_mem_marked member)
  rw [bytesOf, all, bytes_marked]

theorem bytesOf_other {origin other : Origin} (different : other ≠ origin) (text : Bytes) :
    bytesOf origin (marked other text) = [] := by
  -- The filter drops all bytes of another origin.
  have none : (marked other text).filter (fun mark => mark.origin == origin) = [] := by
    rw [List.filter_eq_nil_iff]
    intro mark member same
    exact different ((origin_of_mem_marked member).symm.trans (beq_iff_eq.mp same))
  rw [bytesOf, none, List.map_nil]

/-- The grant is buffered, or the child has read it, and nobody has read any of it otherwise. -/
theorem grant_of_sound (sound : s.Sound session)
    (written : s.handler.written = some (grantReply session.childPid)) :
    s.OnlyFor .reply .child ∧
      bytesOf .reply (s.fifo.gone.map Prod.snd) ++ bytesOf .reply s.fifo.buffer =
        grantReply session.childPid := by
  -- Forgetting the readers leaves the two messages.
  have request : session.requestTaken.map Prod.snd = marked .request session.message.text := by
    rw [Session.requestTaken, List.map_map]
    exact List.map_id _
  have grant : session.grantTaken.map Prod.snd = marked .reply (grantReply session.childPid) := by
    rw [Session.grantTaken, List.map_map]
    exact List.map_id _
  have different : Origin.request ≠ Origin.reply := by decide
  obtain ⟨-, progress⟩ := sound
  -- The grant is written in two phases only: still buffered in one, read in the other.
  cases progress with
  | asking _ before =>
    rcases before with here | here | ⟨here | here, -⟩ <;> (rw [here] at written; cases written)
  | asked _ before =>
    rw [HandlerStage.hasRead_of_written written] at before
    cases before
  | deciding _ asked => rcases asked with here | here <;> (rw [here] at written; cases written)
  | granting _ _ granting =>
    rw [granting] at written
    cases written
  | granted sent unread granted buffered taken =>
    constructor
    · intro entry member reply
      rw [taken] at member
      rw [(requestTaken_entry member).2] at reply
      cases reply
    -- Only the request has left, and the grant is buffered.
    · rw [taken, buffered, request, bytesOf_other different, bytesOf_marked, List.nil_append]
  | received read granted empty taken =>
    constructor
    · intro entry member reply
      rw [taken] at member
      rcases List.mem_append.mp member with before | now
      · rw [(requestTaken_entry before).2] at reply
        cases reply
      · exact (grantTaken_entry now).1
    -- Both messages have left, the grant to the child.
    · rw [taken, empty, List.map_append, request, grant, bytesOf_append, bytesOf_other different,
        bytesOf_marked, List.nil_append]
      exact List.append_nil _
  | denied _ denied =>
    rw [HandlerStage.reply_of_written written] at denied
    exact absurd (Option.some.inj denied) (Kernel.grantReply_ne_denyReply session.childPid)

theorem request_of_sound (sound : s.Sound session) : s.OnlyFor .request .handler := by
  obtain ⟨-, progress⟩ := sound
  -- What has left is nothing, the request, or the request and then a reply.
  intro entry member request
  cases progress with
  | asking _ _ _ none =>
    rw [none] at member
    cases member
  | asked _ _ _ none =>
    rw [none] at member
    cases member
  | deciding _ _ _ taken =>
    rw [taken] at member
    exact (requestTaken_entry member).1
  | granting _ _ _ _ taken =>
    rw [taken] at member
    exact (requestTaken_entry member).1
  | granted _ _ _ _ taken =>
    rw [taken] at member
    exact (requestTaken_entry member).1
  | received _ _ _ taken =>
    rw [taken] at member
    rcases List.mem_append.mp member with before | now
    · exact (requestTaken_entry before).1
    · rw [(grantTaken_entry now).2] at request
      cases request
  | denied _ _ _ taken => exact taken entry member request

theorem outcome_of_sound (sound : s.Sound session) {granted : Bool}
    (returned : s.child = .returned granted) :
    granted = true ↔ s.handler.reply = some (grantReply session.childPid) := by
  obtain ⟨-, progress⟩ := sound
  -- A child that has returned has received the grant, or was denied.
  rw [returned] at progress
  cases progress with
  | asking unsent => cases unsent
  | asked sent => cases sent
  | deciding sent => cases sent
  | granting _ unread => cases unread
  | granted _ unread => cases unread
  | received read written =>
    rcases read with here | here
    · cases here
    · obtain rfl := ChildStage.returned.inj here
      exact ⟨fun _ => HandlerStage.reply_of_written written, fun _ => rfl⟩
  | denied refused denied =>
    rw [denied]
    constructor
    · rintro rfl
      cases refused
    -- The denial is not the grant.
    · intro same
      exact absurd (Option.some.inj same).symm (Kernel.grantReply_ne_denyReply session.childPid)

/-- Wherever the exchange stands, the two agree. -/
theorem agreement_of_sound (s : Exchange) (sound : s.Sound session) : s.Agreement session :=
  ⟨request_of_sound sound, grant_of_sound sound, fun _ => outcome_of_sound sound⟩

/-- Nobody, and the listener least of all, is the party that a message is for. -/
theorem strangers : ((none : Option Party) ≠ some .handler ∧ (none : Option Party) ≠ some .child) ∧
    some Party.listener ≠ some .handler ∧ some Party.listener ≠ some .child := by
  decide

/-- A call of the child that discards a message breaks the agreement. -/
theorem keeps_child (sound : s.Sound session) (agreement : (s.step session .child).Agreement session) :
    s.KeepsMessages session .child := by
  obtain ⟨⟨readers, writers⟩, progress⟩ := sound
  intro closes last waiting
  cases child : s.child with
  | closingWrite =>
    have opened : 0 < s.fifo.writers := by
      rw [writers, child]
      exact Nat.lt_add_right _ Nat.one_pos
    -- Closing the last descriptor to write discards what waits.
    have after : s.step session .child = { s with fifo := s.fifo.closeWrite, child := .sent } := by
      rw [step, stepChild, child]
    rw [after] at agreement
    exact exposed progress waiting strangers.1 (by rfl) (Fifo.closeWrite_last opened last) agreement
  | closingRead bytes =>
    have opened : 0 < s.fifo.readers := by
      rw [readers, child, Nat.add_assoc]
      exact Nat.lt_add_right _ Nat.one_pos
    -- Closing the last descriptor to read discards what waits.
    have after : s.step session .child = { s with
        fifo := s.fifo.closeRead
        child := .returned (contains "GRANT" (cstring bytes)) } := by
      rw [step, stepChild, child]
    rw [after] at agreement
    exact exposed progress waiting strangers.1 (by rfl) (Fifo.closeRead_last opened last) agreement
  | _ =>
    rw [child] at closes
    cases closes

/-- So does a call of the handler. -/
theorem keeps_handler (sound : s.Sound session) (agreement : (s.step session .handler).Agreement session) :
    s.KeepsMessages session .handler := by
  obtain ⟨⟨readers, writers⟩, progress⟩ := sound
  intro closes last waiting
  cases handler : s.handler with
  | closingWrite reply =>
    -- The handler still has the pipe open for reading.
    rw [handler] at readers writers
    have reads : s.fifo.readers = s.child.readers + 1 + s.listener.readers := readers
    have writes : s.fifo.writers = s.child.writers + 1 := writers
    omega
  | closingRead reply =>
    have opened : 0 < s.fifo.readers := by
      rw [readers, handler]
      exact Nat.lt_of_lt_of_le (Nat.lt_add_left _ Nat.one_pos) (Nat.le_add_right _ _)
    have after : s.step session .handler =
        { s with fifo := s.fifo.closeRead, handler := .finished reply } := by
      rw [step, stepHandler, handler]
    rw [after] at agreement
    refine exposed progress waiting strangers.1 ?_ (Fifo.closeRead_last opened last) agreement
    rw [handler]
    rfl
  | _ =>
    rw [handler] at closes
    cases closes

/-- The listener discards a message by closing, or takes it by reading. -/
theorem keeps_listener (sound : s.Sound session) (agreement : (s.step session .listener).Agreement session) :
    s.KeepsMessages session .listener := by
  obtain ⟨⟨readers, writers⟩, progress⟩ := sound
  intro turn waiting
  rcases turn with reads | ⟨closes, last⟩
  · cases listener : s.listener with
    | opened left =>
      -- The listener takes all that is buffered.
      have fifo : (s.step session .listener).fifo = (s.fifo.read .listener 255).2 := by
        rw [step, stepListener, listener]
      have handler : (s.step session .listener).handler = s.handler := by
        rw [step, stepListener, listener]
      refine exposed progress waiting strangers.2 ?_ ?_ agreement
      · rw [handler]
      · rw [fifo, Fifo.read_whole (buffer_short progress)]
    | _ =>
      rw [listener] at reads
      cases reads
  · cases listener : s.listener with
    | closing left =>
      have opened : 0 < s.fifo.readers := by
        rw [readers, listener]
        exact Nat.lt_add_left _ Nat.one_pos
      have after : s.step session .listener =
          { s with fifo := s.fifo.closeRead, listener := .polling left } := by
        rw [step, stepListener, listener]
      rw [after] at agreement
      exact exposed progress waiting strangers.1 (by rfl) (Fifo.closeRead_last opened last) agreement
    | _ =>
      rw [listener] at closes
      cases closes

/-- A step that does not keep the messages breaks the agreement. -/
theorem keeps_of_agreement (s : Exchange) (action : Action) (sound : s.Sound session)
    (agreement : (s.step session action).Agreement session) : s.KeepsMessages session action := by
  cases action with
  | child => exact keeps_child sound agreement
  | handler => exact keeps_handler sound agreement
  | listener => exact keeps_listener sound agreement
  | kernel op => trivial

/-- Process 101 asks for what "Alarm" needs. -/
def alarmSession : Session := ⟨101, by decide, Kernel.alarmRequest, []⟩

/-- The child sends its request, and the handler reads it and writes its reply. -/
def untilReply : List Action :=
  [.child, .handler, .child, .child, .child, .handler, .handler, .handler, .handler, .handler]

/-- The listener polls the pipe of the new process, and then the child reads. -/
def listenerFirst : List Action :=
  untilReply ++ [.child, .listener, .listener, .listener, .handler, .handler, .child, .listener,
    .child, .child]

/-- The handler closes the pipe before the child has opened it again. -/
def handlerGone : List Action := untilReply ++ [.handler, .handler]

/-- The listener reads the GRANT, or the last close discards it. -/
theorem grant_lost :
    ¬ (Machine.run (step alarmSession) (start (Kernel.boot 1024 1024 4)) listenerFirst).Agreement
        alarmSession ∧
    ¬ (Machine.run (step alarmSession) (start (Kernel.boot 1024 1024 4)) handlerGone).Agreement
        alarmSession := by
  constructor
  · intro agreement
    -- The child has returned 0, though the handler granted its request.
    have ended : (Machine.run (step alarmSession) (start (Kernel.boot 1024 1024 4))
          listenerFirst).child = .returned false ∧
        (Machine.run (step alarmSession) (start (Kernel.boot 1024 1024 4))
          listenerFirst).handler.reply = some (grantReply 101) := by
      decide +kernel
    exact absurd ((agreement.outcome false ended.1).mpr ended.2) (by decide)
  · intro agreement
    -- The handler has written the grant, and no one has read its first byte.
    have written : (Machine.run (step alarmSession) (start (Kernel.boot 1024 1024 4))
        handlerGone).handler.written = some (grantReply 101) := by
      decide +kernel
    have discarded : (none, Mark.mk .reply (ch 'G')) ∈
        (Machine.run (step alarmSession) (start (Kernel.boot 1024 1024 4)) handlerGone).fifo.gone := by
      decide +kernel
    exact absurd ((agreement.grant written).1 _ discarded rfl) (by decide)

end Exchange

end Nebula
