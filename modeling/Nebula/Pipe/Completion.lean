import Nebula.Library.Rounds
import Nebula.Pipe.Agreement

/-! A child gets its answer in the end exactly if each side is still there when the other comes. -/

namespace Nebula

namespace ChildStage

/-- The child has come to its second open. -/
def opened : ChildStage → Bool
  | .openingRead _ | .reading | .closingRead _ | .returned _ => true
  | _ => false

/-- A child that has opened the pipe again and not read from it has it open. -/
theorem readers_of_unread {stage : ChildStage} (opened : stage.opened = true) (unread : stage.hasRead = false) :
    stage.readers = 1 := by
  cases stage with
  | openingRead released | reading => rfl
  | closingRead buffer | returned granted => cases unread
  | _ => cases opened

/-- How many moves the child is from its end. -/
def left : ChildStage → Nat
  | .start => 10
  | .openingWrite false => 9
  | .openingWrite true => 8
  | .writing => 7
  | .closingWrite => 6
  | .sent => 5
  | .openingRead false => 4
  | .openingRead true => 3
  | .reading => 2
  | .closingRead _ => 1
  | .returned _ | .killed => 0

theorem readerArrives_left (stage : ChildStage) : stage.readerArrives.left ≤ stage.left := by
  cases stage with
  | openingWrite released => cases released <;> decide
  | _ => exact Nat.le_refl _

theorem writerArrives_left (stage : ChildStage) : stage.writerArrives.left ≤ stage.left := by
  cases stage with
  | openingRead released => cases released <;> decide
  | _ => exact Nat.le_refl _

end ChildStage

namespace HandlerStage

/-- The next step closes the end to write. -/
def closesWrite : HandlerStage → Bool
  | .closingWrite _ => true
  | _ => false

/-- The handler has come to its second open, or will not come to it any more. -/
def answers : HandlerStage → Bool
  | .writing _ | .closingWrite _ | .closingRead _ | .finished _ => true
  | _ => false

/-- The handler will not write any more. -/
def leaves : HandlerStage → Bool
  | .closingRead _ | .finished _ => true
  | _ => false

/-- A handler that has come and not read the request has the pipe open. -/
theorem readers_of_unread {stage : HandlerStage} (came : stage ≠ .start) (unread : stage.hasRead = false) :
    stage.readers = 1 := by
  cases stage with
  | start => exact absurd rfl came
  | opening released | reading => rfl
  | _ => cases unread

/-- How many moves the handler is from its end. -/
def left : HandlerStage → Nat
  | .start => 9
  | .opening false => 8
  | .opening true => 7
  | .reading => 6
  | .deciding _ => 5
  | .answering _ => 4
  | .writing _ => 3
  | .closingWrite _ => 2
  | .closingRead _ => 1
  | .finished _ => 0

theorem answers_of_leaves {stage : HandlerStage} (gone : stage.leaves = true) : stage.answers = true := by
  cases stage with
  | closingRead reply | finished reply => rfl
  | _ => cases gone

theorem answers_of_left {stage : HandlerStage} (ends : stage.left = 0) : stage.answers = true := by
  cases stage with
  | opening released => cases released <;> cases ends
  | finished reply => rfl
  | _ => cases ends

theorem writerArrives_left (stage : HandlerStage) : stage.writerArrives.left ≤ stage.left := by
  cases stage with
  | opening released => cases released <;> decide
  | _ => exact Nat.le_refl _

end HandlerStage

/-- A listener that has not come neither reads nor closes. -/
theorem ListenerStage.still_of_away {stage : ListenerStage} (away : stage.readers = 0) :
    stage.reads = false ∧ stage.closes = false := by
  cases stage with
  | idle | polling left => exact ⟨rfl, rfl⟩
  | opened left | closing left => cases away

/-- Neither waits in vain: who waits in open comes first, and the other is on its way. -/
structure InStep (child : ChildStage) (handler : HandlerStage) : Prop where
  alive : child ≠ .killed
  reader : child = .openingWrite false → handler = .start
  writer : handler = .opening false → child = .start
  came : child.hasWritten = true → child ≠ .closingWrite → handler ≠ .start
  answer : child = .openingRead false → handler.answers = false
  stayed : handler.leaves = true → child.opened = true

namespace InStep

variable {child child' : ChildStage} {handler handler' : HandlerStage}

/-- The child makes a move that is its own affair: nobody else has to be there for it. -/
theorem childMoves (together : InStep child handler) (begun : child ≠ .start) (alive : child' ≠ .killed)
    (reader : child' ≠ .openingWrite false)
    (came : child'.hasWritten = false ∨ child' = .closingWrite ∨ handler ≠ .start)
    (answer : child' ≠ .openingRead false ∨ handler.answers = false)
    (opened : child.opened = false ∨ child'.opened = true) : InStep child' handler where
  alive := alive
  reader := fun waits => absurd waits reader
  writer := fun waits => absurd (together.writer waits) begun
  came := by
    intro written closed
    -- The handler has come, for the child is past its close.
    rcases came with unwritten | closing | came
    · rw [unwritten] at written
      cases written
    · exact absurd closing closed
    · exact came
  answer := fun blocked => answer.resolve_left (not_not_intro blocked)
  stayed := by
    intro gone
    apply opened.resolve_left
    rw [together.stayed gone]
    simp

/-- A child past its second open goes on there. -/
theorem childReads (together : InStep child handler) (opened : child.opened = true)
    (opened' : child'.opened = true) (free : child' ≠ .openingRead false) : InStep child' handler := by
  -- Such a child has written and closed its end, so the handler has come.
  have came : handler ≠ .start := by
    apply together.came
    · cases child <;> first | rfl | cases opened
    · rintro rfl
      cases opened
  apply together.childMoves ?_ ?_ ?_ (Or.inr (Or.inr came)) (Or.inl free) (Or.inr opened')
  · rintro rfl
    cases opened
  · rintro rfl
    cases opened'
  · rintro rfl
    cases opened'

/-- A handler that has come goes on towards its answer. -/
theorem handlerAsks (together : InStep child handler) (begun : handler ≠ .start) (on : handler' ≠ .start)
    (free : handler' ≠ .opening false) (asks : handler'.answers = false) : InStep child handler' where
  alive := together.alive
  reader := fun waits => absurd (together.reader waits) begun
  writer := fun waits => absurd waits free
  came := fun _ _ => on
  answer := fun _ => asks
  stayed := by
    intro gone
    rw [HandlerStage.answers_of_leaves gone] at asks
    cases asks

/-- A handler that has begun to answer has found the child at its second open or released it there. -/
theorem unblocked (together : InStep child handler) (answers : handler.answers = true) :
    child ≠ .openingRead false := by
  intro blocked
  rw [together.answer blocked] at answers
  cases answers

/-- A handler that answers goes on, and stays for the child. -/
theorem handlerAnswers (together : InStep child handler) (unblocked : child ≠ .openingRead false)
    (begun : handler ≠ .start) (answers : handler'.answers = true)
    (stayed : handler'.leaves = true → child.opened = true) : InStep child handler' where
  alive := together.alive
  reader := fun waits => absurd (together.reader waits) begun
  writer := by
    rintro rfl
    cases answers
  came := by
    rintro - - rfl
    cases answers
  answer := fun blocked => absurd blocked unblocked
  stayed := stayed

/-- A reader that comes can only release the child. -/
theorem readerArrives (together : InStep child handler) : InStep child.readerArrives handler := by
  cases child with
  | openingWrite released =>
    rw [ChildStage.readerArrives]
    exact together.childMoves (by simp) (by simp) (by simp) (Or.inl rfl) (Or.inl (by simp)) (Or.inl rfl)
  | _ => exact together

end InStep

namespace Exchange

/-- Where the child and the handler stand. -/
def stages (s : Exchange) : ChildStage × HandlerStage := (s.child, s.handler)

/-- How many moves the two are from their ends together. -/
def left (stages : ChildStage × HandlerStage) : Nat := stages.1.left + stages.2.left

/--
The child writes to somebody and does not close before the handler has come, and the handler does not
close its end to write before the child has come to its second open.
-/
def WaitsForOther (s : Exchange) : Action → Prop
  | .child =>
    (s.child = .writing → s.fifo.readers ≠ 0) ∧ (s.child = .closingWrite → s.handler ≠ .start)
  | .handler => s.handler.closesWrite = true → s.child.opened = true
  | .listener => True
  | .kernel _ => True

/-- The exchange is sound, and neither side waits in vain. -/
structure Together (session : Session) (s : Exchange) : Prop where
  sound : s.Sound session
  inStep : InStep s.child s.handler

variable {session : Session} {s : Exchange}

theorem inStep_child (together : s.Together session) (waits : s.WaitsForOther .child) :
    InStep (s.stepChild session).child (s.stepChild session).handler := by
  -- Its two opens are where the child may begin to wait, so there the descriptors are counted.
  obtain ⟨⟨⟨readers, writers⟩, progress⟩, inStep⟩ := together
  unfold stepChild
  cases child : s.child with
  | start =>
    rw [child] at progress readers
    obtain ⟨before, -⟩ := progress.of_unsent rfl
    -- The handler has not come, or it waits in open and is released.
    rcases before with handler | handler | ⟨-, writer⟩
    · dsimp only [openWrite]
      rw [handler]
      refine ⟨?_, fun _ => rfl, ?_, ?_, ?_, ?_⟩ <;> (intro impossible; cases impossible)
    · rw [handler] at readers
      have somebody : (s.fifo.readers != 0) = true := by
        rw [readers, bne_iff_ne]
        simp [HandlerStage.readers]
      dsimp only [openWrite]
      rw [handler, somebody]
      constructor <;> (intro impossible; cases impossible)
    · cases writer
  | openingWrite released =>
    rw [child] at inStep
    cases released with
    | true =>
      exact inStep.childMoves (by simp) (by simp) (by simp) (Or.inl rfl) (Or.inl (by simp)) (Or.inl rfl)
    | false =>
      rw [← child] at inStep
      exact inStep
  | writing =>
    rw [child] at inStep
    dsimp only
    -- Somebody is there to read, so the child is not killed.
    rw [if_neg (waits.1 child)]
    exact inStep.childMoves (by simp) (by simp) (by simp) (Or.inr (Or.inl rfl)) (Or.inl (by simp)) (Or.inl rfl)
  | closingWrite =>
    rw [child] at inStep
    exact inStep.childMoves (by simp) (by simp) (by simp) (Or.inr (Or.inr (waits.2 child))) (Or.inl (by simp))
      (Or.inl rfl)
  | sent =>
    rw [child] at inStep writers
    have came := inStep.came rfl (by simp)
    refine inStep.childMoves (by simp) (by simp) (by simp) (Or.inr (Or.inr came)) ?_ (Or.inl rfl)
    rw [or_iff_not_imp_left, not_not]
    intro blocked
    have nobody : s.handler.writers = 0 := by
      have none := ChildStage.openingRead.inj blocked
      rw [bne_eq_false_iff_eq, writers] at none
      simpa [ChildStage.writers] using none
    -- A handler that has left would have waited for the child to come to this open.
    cases handler : s.handler with
    | writing reply =>
      rw [handler] at nobody
      cases nobody
    | closingWrite reply =>
      rw [handler] at nobody
      cases nobody
    | closingRead reply =>
      rw [handler] at inStep
      cases inStep.stayed rfl
    | finished reply =>
      rw [handler] at inStep
      cases inStep.stayed rfl
    | _ => rfl
  | openingRead released =>
    rw [child] at inStep
    cases released with
    | true =>
      exact inStep.childReads rfl rfl (by simp)
    | false =>
      rw [← child] at inStep
      exact inStep
  | reading =>
    dsimp only
    rcases s.read_cases .child 255 with blocked | ⟨-, taken⟩
    · rw [blocked]
      exact inStep
    · rw [taken]
      rw [child] at inStep
      exact inStep.childReads rfl rfl (by simp)
  | closingRead bytes =>
    rw [child] at inStep
    exact inStep.childReads rfl rfl (by simp)
  | returned granted => exact inStep
  | killed => exact inStep

theorem inStep_handler (together : s.Together session) (met : s.KeepsMessages session .handler)
    (waits : s.WaitsForOther .handler) :
    InStep (s.stepHandler session).child (s.stepHandler session).handler := by
  -- That the handler is not gone without an answer is known from the phases after its step.
  have after := progress_handler together.sound met
  obtain ⟨⟨⟨readers, writers⟩, progress⟩, inStep⟩ := together
  unfold stepHandler at after ⊢
  cases handler : s.handler with
  | start =>
    rw [handler] at inStep writers
    dsimp only [openRead]
    -- The child is released if it waits, and the handler waits only for a child that has yet to come.
    refine ⟨inStep.readerArrives.alive, ?_, ?_, fun _ _ => (by simp), ?_, fun gone => by cases gone⟩
    · intro blocked
      cases child : s.child <;> (rw [child] at blocked; cases blocked)
    · intro blocked
      have nobody : s.child.writers = 0 := by
        have none := HandlerStage.opening.inj blocked
        rw [bne_eq_false_iff_eq, writers] at none
        simpa [HandlerStage.writers] using none
      cases child : s.child with
      | start => rfl
      | killed => exact absurd child inStep.alive
      | openingWrite _ | writing | closingWrite =>
        rw [child] at nobody
        cases nobody
      | _ => exact absurd rfl (inStep.came (by rw [child]; rfl) (by simp [child]))
    · intro _
      rfl
  | opening released =>
    rw [handler] at inStep
    cases released with
    | true => exact inStep.handlerAsks (by simp) (by simp) (by simp) rfl
    | false =>
      rw [← handler] at inStep
      exact inStep
  | reading =>
    rw [handler] at after
    dsimp only at after ⊢
    rcases s.read_cases .handler 511 with blocked | ⟨-, taken⟩
    · rw [blocked]
      exact inStep
    · rw [taken] at after ⊢
      rw [handler] at inStep
      cases text : (s.fifo.buffer.take 511).map Mark.byte with
      | nil =>
        -- The handler does not find the end of the pipe instead of the request.
        rw [text] at after
        obtain ⟨reply, wrong⟩ := after.replied
        cases wrong
      | cons byte rest => exact inStep.handlerAsks (by simp) (by simp) (by simp) rfl
  | deciding text =>
    rw [handler] at progress inStep
    obtain ⟨same, -⟩ := progress.of_deciding
    dsimp only
    rw [same]
    -- The request parses, so there is an answer to give.
    obtain ⟨k, granted | denied⟩ := session.reply_cases s.kernel
    · rw [granted]
      exact inStep.handlerAsks (by simp) (by simp) (by simp) rfl
    · rw [denied]
      exact inStep.handlerAsks (by simp) (by simp) (by simp) rfl
  | answering reply =>
    rw [handler] at inStep
    dsimp only [openWrite]
    -- A child that waits in its second open is released.
    cases child : s.child with
    | openingRead released =>
      rw [child] at inStep
      have on : InStep (.openingRead true) (.answering reply) :=
        inStep.childMoves (by simp) (by simp) (by simp) (Or.inr (Or.inr (by simp))) (Or.inl (by simp)) (Or.inr rfl)
      exact on.handlerAnswers (by simp) (by simp) rfl fun gone => by cases gone
    | _ =>
      rw [child] at inStep
      exact inStep.handlerAnswers (by simp) (by simp) rfl fun gone => by cases gone
  | writing reply =>
    rw [handler] at inStep
    exact inStep.handlerAnswers (inStep.unblocked rfl) (by simp) rfl fun gone => by cases gone
  | closingWrite reply =>
    have opened := waits (by rw [handler]; rfl)
    rw [handler] at inStep
    exact inStep.handlerAnswers (inStep.unblocked rfl) (by simp) rfl fun _ => opened
  | closingRead reply =>
    rw [handler] at inStep
    exact inStep.handlerAnswers (inStep.unblocked rfl) (by simp) rfl fun _ => inStep.stayed rfl
  | finished reply => exact inStep

theorem inStep_listener (inStep : InStep s.child s.handler) :
    InStep (s.stepListener session).child (s.stepListener session).handler := by
  unfold stepListener
  -- The listener can only release a child by coming to read.
  cases s.listener with
  | polling left =>
    cases left with
    | zero => exact inStep
    | succ left => exact inStep.readerArrives
  | _ => exact inStep

/-- The messages are kept, and each side waits for the other where it must. -/
structure Served (session : Session) (s : Exchange) (action : Action) : Prop where
  keeps : s.KeepsMessages session action
  waits : s.WaitsForOther action

theorem together_step (s : Exchange) (action : Action) (together : s.Together session)
    (served : s.Served session action) : (s.step session action).Together session := by
  refine ⟨sound_step s action together.sound served.keeps, ?_⟩
  cases action with
  | child => exact inStep_child together served.waits
  | handler => exact inStep_handler together served.keeps served.waits
  | listener => exact inStep_listener together.inStep
  | kernel op => exact together.inStep

theorem together_start (k : Kernel) : (start k).Together session :=
  ⟨sound_start k, by constructor <;> (intro impossible; cases impossible)⟩

/-- A read that waits has somebody to wait for. -/
theorem writers_of_blocked {party : Party} {size : Nat} (blocked : s.read party size = none) :
    s.fifo.writers ≠ 0 := by
  intro nobody
  simp [read, nobody] at blocked

/-- The two stages together, where a move of one side does not set the other back. -/
theorem left_lt {c c' : ChildStage} {h h' : HandlerStage}
    (less : (c'.left < c.left ∧ h'.left ≤ h.left) ∨ (c'.left ≤ c.left ∧ h'.left < h.left)) :
    left (c', h') < left (c, h) := by
  simp only [left]
  omega

/-- The child makes a move, or it is through, or it waits in an open or in its read. -/
theorem child_turn (s : Exchange) :
    left (s.stepChild session).stages < left s.stages ∨
    ((s.stepChild session).stages = s.stages ∧
      (s.child.left = 0 ∨ s.child = .openingWrite false ∨ s.child = .openingRead false ∨
        (s.child = .reading ∧ s.fifo.writers ≠ 0))) := by
  -- Every call that returns brings the child on by one stage.
  rw [stages, stages]
  unfold stepChild
  cases child : s.child with
  | start =>
    refine Or.inl (left_lt (Or.inl ⟨?_, s.handler.writerArrives_left⟩))
    dsimp only
    cases s.fifo.readers != 0 <;> decide
  | sent =>
    refine Or.inl (left_lt (Or.inl ⟨?_, Nat.le_refl _⟩))
    dsimp only
    cases s.fifo.writers != 0 <;> decide
  | openingWrite released | openingRead released =>
    cases released with
    | true =>
      dsimp only
      exact Or.inl (left_lt (Or.inl ⟨by decide, Nat.le_refl _⟩))
    | false =>
      dsimp only
      rw [child]
      simp
  | writing =>
    dsimp only
    split <;> (dsimp only; exact Or.inl (left_lt (Or.inl ⟨by decide, Nat.le_refl _⟩)))
  | reading =>
    dsimp only
    rcases blocked : s.read .child 255 with _ | ⟨buffer, s'⟩
    · dsimp only
      rw [child]
      exact Or.inr ⟨rfl, Or.inr (Or.inr (Or.inr ⟨rfl, writers_of_blocked blocked⟩))⟩
    · have taken := (s.read_cases .child 255).resolve_left (by simp [blocked])
      rw [blocked] at taken
      obtain ⟨-, same⟩ := taken
      obtain ⟨rfl, rfl⟩ := Prod.mk.inj (Option.some.inj same)
      exact Or.inl (left_lt (Or.inl ⟨Nat.one_lt_two, Nat.le_refl _⟩))
  | closingWrite =>
    dsimp only
    exact Or.inl (left_lt (Or.inl ⟨by decide, Nat.le_refl _⟩))
  | closingRead bytes => exact Or.inl (left_lt (Or.inl ⟨Nat.one_pos, Nat.le_refl _⟩))
  | returned | killed =>
    dsimp only
    rw [child]
    exact Or.inr ⟨rfl, Or.inl rfl⟩

/-- The handler makes a move, or it is through, or it waits in its first open or in its read. -/
theorem handler_turn (s : Exchange) :
    left (s.stepHandler session).stages < left s.stages ∨
    ((s.stepHandler session).stages = s.stages ∧
      (s.handler.left = 0 ∨ s.handler = .opening false ∨
        (s.handler = .reading ∧ s.fifo.writers ≠ 0))) := by
  -- Its second open never waits, because the handler reads from the pipe itself.
  rw [stages, stages]
  unfold stepHandler
  cases handler : s.handler with
  | start =>
    refine Or.inl (left_lt (Or.inr ⟨s.child.readerArrives_left, ?_⟩))
    dsimp only
    cases s.fifo.writers != 0 <;> decide
  | opening released =>
    cases released with
    | true =>
      dsimp only
      exact Or.inl (left_lt (Or.inr ⟨Nat.le_refl _, by decide⟩))
    | false =>
      dsimp only
      rw [handler]
      simp
  | reading =>
    dsimp only
    rcases blocked : s.read .handler 511 with _ | ⟨buffer, s'⟩
    · dsimp only
      rw [handler]
      exact Or.inr ⟨rfl, Or.inr (Or.inr ⟨rfl, writers_of_blocked blocked⟩)⟩
    · have taken := (s.read_cases .handler 511).resolve_left (by simp [blocked])
      rw [blocked] at taken
      obtain ⟨-, same⟩ := taken
      obtain ⟨rfl, rfl⟩ := Prod.mk.inj (Option.some.inj same)
      -- The end of the pipe and a message both lead on.
      cases (s.fifo.buffer.take 511).map Mark.byte with
      | nil => exact Or.inl (left_lt (Or.inr ⟨Nat.le_refl _, by simp [HandlerStage.left]⟩))
      | cons byte rest => exact Or.inl (left_lt (Or.inr ⟨Nat.le_refl _, by simp [HandlerStage.left]⟩))
  | deciding text =>
    dsimp only
    split <;> exact Or.inl (left_lt (Or.inr ⟨Nat.le_refl _, by simp [HandlerStage.left]⟩))
  | answering reply =>
    exact Or.inl (left_lt (Or.inr ⟨s.child.writerArrives_left, by simp [HandlerStage.left]⟩))
  | writing | closingWrite | closingRead =>
    exact Or.inl (left_lt (Or.inr ⟨Nat.le_refl _, by simp [HandlerStage.left]⟩))
  | finished reply =>
    dsimp only
    rw [handler]
    exact Or.inr ⟨rfl, Or.inl rfl⟩

/-- A turn of the listener can release the child, and nothing else. -/
theorem listener_turn (s : Exchange) :
    (s.stepListener session).stages = s.stages ∨
      left (s.stepListener session).stages < left s.stages := by
  -- Only its open is seen by others.
  rw [stages, stages]
  unfold stepListener
  cases s.listener with
  | polling times =>
    cases times with
    | zero => exact Or.inl rfl
    | succ times =>
      dsimp only [openRead]
      cases s.child with
      | openingWrite released =>
        cases released with
        | false => exact Or.inr (left_lt (Or.inl ⟨by decide, Nat.le_refl _⟩))
        | true => exact Or.inl rfl
      | _ => exact Or.inl rfl
  | _ => exact Or.inl rfl

/-- Every step that serves the two keeps them together, and shortens what is left of them or changes neither. -/
theorem shortens (session : Session) :
    Machine.Shortens (step session) (Together session) (Served session) stages left where
  kept := together_step
  moves := by
    intro s action _ _
    cases action with
    | child => exact s.child_turn.symm.imp_left And.left
    | handler => exact s.handler_turn.symm.imp_left And.left
    | listener => exact s.listener_turn
    | kernel op => exact Or.inl rfl

/-- A child that does not move is through, or it waits in an open or in its read. -/
theorem child_waits (stays : (s.step session .child).stages = s.stages) :
    s.child.left = 0 ∨ s.child = .openingWrite false ∨ s.child = .openingRead false ∨
      (s.child = .reading ∧ s.fifo.writers ≠ 0) := by
  rcases s.child_turn with less | ⟨-, waits⟩
  · exact absurd less (Nat.not_lt.mpr (Nat.le_of_eq (congrArg left stays.symm)))
  · exact waits

/-- So does a handler that does not move, which opens once only. -/
theorem handler_waits (stays : (s.step session .handler).stages = s.stages) :
    s.handler.left = 0 ∨ s.handler = .opening false ∨ (s.handler = .reading ∧ s.fifo.writers ≠ 0) := by
  rcases s.handler_turn with less | ⟨-, waits⟩
  · exact absurd less (Nat.not_lt.mpr (Nat.le_of_eq (congrArg left stays.symm)))
  · exact waits

/-- Where the child and the handler both stall, the child is through. -/
theorem through_of_stalls (session : Session) {seen : ChildStage × HandlerStage}
    (stalled : ∀ action ∈ [Action.child, .handler],
      Machine.Stalls (step session) (Together session) (Served session) stages seen action) :
    seen.1.left = 0 := by
  obtain ⟨s, together, -, same, stays⟩ := stalled .child (by simp)
  obtain ⟨s', together', -, same', stays'⟩ := stalled .handler (by simp)
  have waits := child_waits (stays.trans same.symm)
  have waits' := handler_waits (stays'.trans same'.symm)
  rw [together.sound.counted.writers] at waits
  rw [together'.sound.counted.writers] at waits'
  have inStep := together.inStep
  obtain ⟨child, handler⟩ := seen
  obtain ⟨rfl, rfl⟩ := Prod.mk.inj same
  obtain ⟨child, handler⟩ := Prod.mk.inj same'
  rw [child, handler] at waits'
  -- Whatever the child waits for is the handler's next move, or the handler has not to wait for the child.
  rcases waits with through | blocked | blocked | ⟨reads, writer⟩
  · exact through
  · -- The handler has not come, so it need not wait.
    rw [inStep.reader blocked] at waits'
    rcases waits' with ends | waiting | ⟨reads, -⟩
    · cases ends
    · cases waiting
    · cases reads
  · -- The handler has still to answer, and nobody else has the pipe open to write.
    have unanswered := inStep.answer blocked
    rcases waits' with ends | waiting | ⟨reads, writer⟩
    · rw [HandlerStage.answers_of_left ends] at unanswered
      cases unanswered
    · have early := inStep.writer waiting
      rw [blocked] at early
      cases early
    · rw [blocked, reads] at writer
      exact absurd rfl writer
  · -- The handler has the pipe open to write.
    rw [reads] at writer
    cases stage : s.handler <;> rw [stage] at writer waits' <;> first
      | exact absurd rfl writer
      | (rcases waits' with ends | waiting | ⟨other, -⟩
         · cases ends
         · cases waiting
         · cases other)

/-- A child that nobody will answer. -/
inductive Unanswered : ChildStage → HandlerStage → Prop
  | killed {handler : HandlerStage} : Unanswered .killed handler
  | apart {child : ChildStage} {handler : HandlerStage} (sent : child = .sent ∨ child = .openingRead false)
      (before : handler = .start ∨ handler = .opening false) : Unanswered child handler
  | left {child : ChildStage} {handler : HandlerStage}
      (unopened : child.opened = false ∨ child = .openingRead false) (gone : handler.leaves = true) :
      Unanswered child handler

/-- Nobody has the pipe open to write whom such a child could wait for. -/
theorem Unanswered.writers {child : ChildStage} {handler : HandlerStage}
    (lost : Unanswered child handler) (alive : child ≠ .killed) : handler.writers = 0 := by
  cases lost with
  | killed => exact absurd rfl alive
  | apart sent before => rcases before with rfl | rfl <;> rfl
  | left unopened gone => cases handler <;> first | rfl | cases gone

/-- A child that has not yet come to wait for the answer is unanswered because the handler has left. -/
theorem Unanswered.gone {child : ChildStage} {handler : HandlerStage} (lost : Unanswered child handler)
    (alive : child ≠ .killed) (unsent : child ≠ .sent) (free : child ≠ .openingRead false) :
    child.opened = false ∧ handler.leaves = true := by
  cases lost with
  | killed => exact absurd rfl alive
  | apart sent =>
    rcases sent with here | here
    · exact absurd here unsent
    · exact absurd here free
  | left unopened gone => exact ⟨unopened.resolve_right free, gone⟩

/-- It stays unanswered when a reader comes. -/
theorem Unanswered.readerArrives {child : ChildStage} {handler : HandlerStage}
    (lost : Unanswered child handler) : Unanswered child.readerArrives handler := by
  cases child with
  | openingWrite released =>
    exact .left (Or.inl rfl) (lost.gone (by simp) (by simp) (by simp)).2
  | _ => exact lost

theorem unanswered_child (counted : s.Counted) (lost : Unanswered s.child s.handler) :
    Unanswered (s.stepChild session).child (s.stepChild session).handler := by
  -- The child may still come as far as its second open, and waits there.
  have writers := counted.writers
  unfold stepChild
  cases child : s.child with
  | start =>
    rw [child] at lost
    obtain ⟨-, gone⟩ := lost.gone (by simp) (by simp) (by simp)
    -- The handler has left and is not released any more.
    refine .left (Or.inl rfl) ?_
    dsimp only [openWrite]
    cases handler : s.handler <;> rw [handler] at gone <;> first | rfl | cases gone
  | sent =>
    rw [child] at lost writers
    -- Nobody has the pipe open to write, so the child waits.
    have blocked : (s.fifo.writers != 0) = false := by
      rw [bne_eq_false_iff_eq, writers, lost.writers (by simp)]
      rfl
    dsimp only [openRead]
    rw [blocked]
    cases lost with
    | apart sent before => exact .apart (Or.inr rfl) before
    | left unopened gone => exact .left (Or.inr rfl) gone
  | openingWrite released =>
    cases released with
    | true =>
      rw [child] at lost
      exact .left (Or.inl rfl) (lost.gone (by simp) (by simp) (by simp)).2
    | false => exact lost
  | openingRead released =>
    cases released with
    | true =>
      rw [child] at lost
      cases (lost.gone (by simp) (by simp) (by simp)).1
    | false => exact lost
  | writing =>
    rw [child] at lost
    have gone := (lost.gone (by simp) (by simp) (by simp)).2
    dsimp only
    split
    · exact .killed
    · exact .left (Or.inl rfl) gone
  | closingWrite =>
    rw [child] at lost
    exact .left (Or.inl rfl) (lost.gone (by simp) (by simp) (by simp)).2
  | reading | closingRead bytes =>
    rw [child] at lost
    cases (lost.gone (by simp) (by simp) (by simp)).1
  | returned granted | killed => exact lost

/-- The handler can only release the child. -/
theorem handler_child (s : Exchange) :
    (s.stepHandler session).child = s.child ∨ (s.stepHandler session).child = s.child.readerArrives ∨
      (s.stepHandler session).child = s.child.writerArrives := by
  unfold stepHandler
  cases s.handler with
  | start => exact Or.inr (Or.inl rfl)
  | answering reply => exact Or.inr (Or.inr rfl)
  | opening released => cases released <;> exact Or.inl rfl
  | reading =>
    dsimp only
    rcases s.read_cases .handler 511 with blocked | ⟨-, taken⟩
    · rw [blocked]
      exact Or.inl rfl
    · rw [taken]
      cases (s.fifo.buffer.take 511).map Mark.byte <;> exact Or.inl rfl
  | deciding text =>
    dsimp only
    split <;> exact Or.inl rfl
  | _ => exact Or.inl rfl

theorem unanswered_handler (counted : s.Counted) (lost : Unanswered s.child s.handler) :
    Unanswered (s.stepHandler session).child (s.stepHandler session).handler := by
  -- The handler is dealt with in each of the three ways.
  have writers := counted.writers
  generalize atChild : s.child = child at lost
  generalize atHandler : s.handler = handler at lost
  cases lost with
  | killed =>
    -- Nothing brings the child back.
    have dead : (s.stepHandler session).child = .killed := by
      have same := @handler_child session s
      rw [atChild] at same
      rcases same with here | here | here <;> exact here
    rw [dead]
    exact .killed
  | apart sent before =>
    rcases before with rfl | rfl
    · -- Nobody has the pipe open to write, so the handler waits.
      have blocked : (s.fifo.writers != 0) = false := by
        rw [bne_eq_false_iff_eq, writers, atChild, atHandler]
        rcases sent with rfl | rfl <;> rfl
      rw [stepHandler, atHandler]
      dsimp only [openRead]
      rw [blocked, atChild]
      rcases sent with rfl | rfl
      · exact .apart (Or.inl rfl) (Or.inr rfl)
      · exact .apart (Or.inr rfl) (Or.inr rfl)
    · rw [stepHandler, atHandler]
      dsimp only
      rw [atHandler, atChild]
      exact .apart sent (Or.inr rfl)
  | left unopened gone =>
    rw [stepHandler, atHandler]
    cases handler with
    | closingRead reply =>
      dsimp only
      rw [atChild]
      exact .left unopened rfl
    | finished reply =>
      dsimp only
      rw [atChild, atHandler]
      exact .left unopened rfl
    | _ => cases gone

theorem unanswered_step (s : Exchange) (action : Action)
    (lost : s.Counted ∧ Unanswered s.child s.handler) :
    (s.step session action).Counted ∧
      Unanswered (s.step session action).child (s.step session action).handler := by
  refine ⟨counted_step s action lost.1, ?_⟩
  cases action with
  | child => exact unanswered_child lost.1 lost.2
  | handler => exact unanswered_handler lost.1 lost.2
  | listener =>
    rw [step]
    unfold stepListener
    -- The listener can only come to read.
    cases s.listener with
    | polling left =>
      cases left with
      | zero => exact lost.2
      | succ left => exact lost.2.readerArrives
    | _ => exact lost.2
  | kernel op => exact lost.2

/-- A step that does not wait for the other leaves the child unanswered. -/
theorem unanswered_of_hasty (s : Exchange) (action : Action) (hasty : ¬ s.WaitsForOther action) :
    Unanswered (s.step session action).child (s.step session action).handler := by
  -- Each of the three conditions, when it fails, leads to one of the ways to be unanswered.
  cases action with
  | child =>
    simp only [WaitsForOther, not_and_or, Classical.not_imp, ne_eq, not_not] at hasty
    rw [step, stepChild]
    rcases hasty with ⟨child, nobody⟩ | ⟨child, handler⟩
    · rw [child]
      dsimp only
      rw [if_pos nobody]
      exact .killed
    · rw [child]
      dsimp only
      rw [handler]
      exact .apart (Or.inl rfl) (Or.inl rfl)
  | handler =>
    rw [WaitsForOther, Classical.not_imp, Bool.not_eq_true] at hasty
    obtain ⟨closes, unopened⟩ := hasty
    rw [step, stepHandler]
    cases handler : s.handler with
    | closingWrite reply => exact .left (Or.inl unopened) rfl
    | _ =>
      rw [handler] at closes
      cases closes
  | listener => exact absurd trivial hasty
  | kernel op => exact absurd trivial hasty

/-- A child that nobody will answer does not return. -/
theorem unreturned_run {actions : List Action} (counted : s.Counted) (lost : Unanswered s.child s.handler)
    (granted : Bool) : (Machine.run (step session) s actions).child ≠ .returned granted := by
  have remains := @Machine.invariant_run _ _ (step session) (fun s => s.Counted ∧ Unanswered s.child s.handler)
    unanswered_step s ⟨counted, lost⟩ actions
  intro returned
  have gone := remains.2
  rw [returned] at gone
  cases (gone.gone (by simp) (by simp) (by simp)).1

/-- In a run in which the two agree and the child returns, each step has served them. -/
theorem served_of_answered {actions : List Action} {granted : Bool} (together : s.Together session)
    (agreed : Machine.Throughout (step session) (Agreement session) s actions)
    (returned : (Machine.run (step session) s actions).child = .returned granted) :
    Machine.EachStep (step session) (Served session) s actions := by
  -- Along the run, what holds so far makes the next step serve the two, or the end would be another.
  induction actions generalizing s with
  | nil => trivial
  | cons action rest ih =>
    have after : (s.step session action).Agreement session :=
      Machine.throughout_iff_reached.mp agreed.2 [] List.nil_prefix
    -- The step keeps the messages, for the two still agree, and it waits, for the child still returns.
    have keeps := keeps_of_agreement s action together.sound after
    have waits : s.WaitsForOther action := by
      by_contra hasty
      have counted : (s.step session action).Counted := counted_step s action together.sound.counted
      exact unreturned_run counted (unanswered_of_hasty s action hasty) granted returned
    exact ⟨⟨keeps, waits⟩, ih (together_step s action together ⟨keeps, waits⟩) agreed.2 returned⟩

/-- A child that is through stays where it is. -/
theorem through_step (s : Exchange) (action : Action) (through : s.child.left = 0) :
    (s.step session action).child.left = 0 := by
  -- Whoever comes to the pipe releases only a child that waits in open.
  have kept : s.child.readerArrives.left = 0 ∧ s.child.writerArrives.left = 0 :=
    ⟨Nat.le_zero.mp (through ▸ s.child.readerArrives_left), Nat.le_zero.mp (through ▸ s.child.writerArrives_left)⟩
  cases action with
  | child =>
    rw [step, stepChild]
    cases child : s.child with
    | returned | killed => exact through
    | openingWrite released | openingRead released =>
      rw [child] at through
      cases released <;> cases through
    | _ =>
      rw [child] at through
      cases through
  | handler =>
    rcases @handler_child session s with here | here | here <;> rw [step, here]
    · exact through
    · exact kept.1
    · exact kept.2
  | listener =>
    rw [step]
    unfold stepListener
    cases s.listener with
    | polling left =>
      cases left with
      | zero => exact through
      | succ left => exact kept.1
    | _ => exact through
  | kernel op => exact through

/-- A child that is through has returned, for it has not been killed. -/
theorem returned_of_through (together : s.Together session) (through : s.child.left = 0) :
    ∃ granted, s.child = .returned granted := by
  have alive := together.inStep.alive
  cases child : s.child with
  | returned granted => exact ⟨granted, rfl⟩
  | killed => exact absurd child alive
  | openingWrite released | openingRead released =>
    rw [child] at through
    cases released <;> cases through
  | _ =>
    rw [child] at through
    cases through

/-- Where each step serves the two, the child has returned after enough rounds in which both have a turn. -/
theorem returned_of_served (together : s.Together session) {rounds : List (List Action)}
    (fair : ∀ round ∈ rounds, [.child, .handler] ⊆ round) (enough : left s.stages ≤ rounds.length)
    (served : Machine.EachStep (step session) (Served session) s rounds.flatten) :
    ∃ granted, (Machine.run (step session) s rounds.flatten).child = .returned granted := by
  have through : (Machine.run (step session) s rounds.flatten).stages.1.left = 0 :=
    @Machine.Shortens.run_rounds _ _ _ _ _ _ _ _ (shortens session) _ (fun seen => seen.1.left = 0)
      (fun _ stalled => through_of_stalls session stalled)
      (fun _ nothing => Nat.eq_zero_of_add_eq_zero_right nothing)
      (fun s action _ _ through => through_step s action through) _ together _ fair enough served
  exact returned_of_through (Machine.invariant_run_of_eachStep together_step together served) through

/-- The handler does not close its end to write before the child has come to its second open. -/
def Stays (s : Exchange) : Action → Prop
  | .handler => s.handler.closesWrite = true → s.child.opened = true
  | _ => True

/-- A handler that has come reads from the pipe until the child has come to its second open. -/
theorem reader_of_came (together : s.Together session) (came : s.handler ≠ .start)
    (unopened : s.child.opened = false) : s.handler.readers = 1 := by
  have stayed := together.inStep.stayed
  cases handler : s.handler with
  | start => exact absurd handler came
  | finished reply =>
    have opened := stayed (by rw [handler]; rfl)
    rw [unopened] at opened
    cases opened
  | _ => rfl

/-- A child that finds the handler where it writes or closes its end to write serves with every step. -/
theorem served_child (together : s.Together session)
    (came : s.child = .writing ∨ s.child = .closingWrite → s.handler ≠ .start) : s.Served session .child := by
  -- While a message waits, whoever is to read it has the pipe open beside the one who closes.
  have readers := together.sound.counted.readers
  have writers := together.sound.counted.writers
  refine ⟨?_, ?_, fun closes => came (Or.inr closes)⟩
  · intro closes last waiting
    cases child : s.child with
    | closingWrite =>
      -- The handler has the pipe open too.
      have reads := reader_of_came together (came (Or.inr child)) (by rw [child]; rfl)
      rw [child] at readers writers
      simp only [ChildStage.readers, ChildStage.writers] at readers writers
      omega
    | closingRead bytes =>
      rcases waiting with ⟨-, unread⟩ | ⟨-, unread⟩
      · have came := together.inStep.came (by rw [child]; rfl) (by simp [child])
        have reads := HandlerStage.readers_of_unread came unread
        rw [child] at readers
        simp only [ChildStage.readers] at readers
        omega
      · rw [child] at unread
        cases unread
    | _ =>
      rw [child] at closes
      cases closes
  · intro writes nobody
    have reads := reader_of_came together (came (Or.inl writes)) (by rw [writes]; rfl)
    omega

/-- A handler that stays for the child serves with every step. -/
theorem served_handler (together : s.Together session) (stays : s.Stays .handler) : s.Served session .handler := by
  have readers := together.sound.counted.readers
  have writers := together.sound.counted.writers
  refine ⟨?_, stays⟩
  intro closes last waiting
  cases handler : s.handler with
  | closingWrite reply =>
    -- The handler has the pipe open both ways.
    rw [handler] at readers writers
    simp only [HandlerStage.readers, HandlerStage.writers] at readers writers
    omega
  | closingRead reply =>
    rcases waiting with ⟨-, unread⟩ | ⟨-, unread⟩
    · rw [handler] at unread
      cases unread
    -- A child that has not read yet has the pipe open.
    · have opened := together.inStep.stayed (by rw [handler]; rfl)
      have reads := ChildStage.readers_of_unread opened unread
      rw [handler] at readers
      simp only [HandlerStage.readers] at readers
      omega
  | _ =>
    rw [handler] at closes
    cases closes

/-- As long as the child is not through, it or the handler has a move that serves the two. -/
theorem exists_move (together : s.Together session) (unfinished : s.child.left ≠ 0) :
    ∃ action, s.Served session action ∧ left (s.step session action).stages < left s.stages := by
  by_cases came : s.handler = .start
  · -- The handler has still to come, and nothing keeps it from that.
    refine ⟨.handler, served_handler together fun closes => ?_, ?_⟩
    · rw [came] at closes
      cases closes
    · rcases @handler_turn session s with less | ⟨-, waits⟩
      · exact less
      · rw [came] at waits
        rcases waits with ends | waiting | ⟨reads, -⟩
        · cases ends
        · cases waiting
        · cases reads
  · have childServes : s.Served session .child := served_child together fun _ => came
    rcases @child_turn session s with less | ⟨idle, waits⟩
    · exact ⟨.child, childServes, less⟩
    -- The child waits, and it has opened the pipe again before the handler closes its end.
    have handlerServes : s.Served session .handler := by
      refine served_handler together fun closes => ?_
      rcases waits with through | blocked | blocked | ⟨reads, -⟩
      · exact absurd through unfinished
      · exact absurd (together.inStep.reader blocked) came
      · rw [blocked]
        rfl
      · rw [reads]
        rfl
    rcases @handler_turn session s with less | ⟨idle', -⟩
    · exact ⟨.handler, handlerServes, less⟩
    · -- Both would wait for each other.
      refine absurd (@through_of_stalls session s.stages fun action turn => ?_) unfinished
      rcases List.mem_cons.mp turn with rfl | other
      · exact ⟨s, together, childServes, rfl, idle⟩
      · rw [List.mem_singleton.mp other]
        exact ⟨s, together, handlerServes, rfl, idle'⟩

/-- The child has returned from wait_for_grant as the handler answered, or some way to go on brings it there. -/
def CanReturn (session : Session) (s : Exchange) : Prop :=
  ∃ more granted, (Machine.run (step session) s more).child = .returned granted ∧
    (Machine.run (step session) s more).Agreement session

/-- Where neither side waits in vain, the child can return. -/
theorem canReturn_of_together (together : s.Together session) : s.CanReturn session := by
  -- Move by move the two come nearer to their ends.
  induction moves : left s.stages using Nat.strong_induction_on generalizing s with
  | _ moves ih =>
    by_cases through : s.child.left = 0
    · obtain ⟨granted, returned⟩ := returned_of_through together through
      exact ⟨[], granted, returned, agreement_of_sound s together.sound⟩
    · obtain ⟨action, served, less⟩ := exists_move together through
      obtain ⟨more, granted, returned⟩ := ih _ (moves ▸ less) (together_step s action together served) rfl
      exact ⟨action :: more, granted, returned⟩

/-- A step after which the two agree and the child can return has served them. -/
theorem served_of_canReturn (s : Exchange) (action : Action) (together : s.Together session)
    (after : (s.step session action).Agreement session ∧ (s.step session action).CanReturn session) :
    s.Served session action := by
  refine ⟨keeps_of_agreement s action together.sound after.1, ?_⟩
  by_contra hasty
  -- Otherwise nobody would answer the child any more.
  obtain ⟨more, granted, returned, -⟩ := after.2
  exact unreturned_run (counted_step s action together.sound.counted) (unanswered_of_hasty s action hasty) granted
    returned

/--
In a run of the child, the handler, the listener and the kernel the two agree throughout and the child
can always come back from wait_for_grant exactly when every step serves the two.
-/
theorem answerable_throughout_iff (session : Session) (k : Kernel) (actions : List Action) :
    Machine.Throughout (step session) (fun s => s.Agreement session ∧ s.CanReturn session) (start k) actions ↔
      Machine.EachStep (step session) (Served session) (start k) actions :=
  Machine.throughout_iff_met
    (fun s together => ⟨agreement_of_sound s together.sound, canReturn_of_together together⟩) together_step
    served_of_canReturn (together_start k) actions

/-- The listener does not come to the pipe. -/
def Unpolled (session : Session) (s : Exchange) : Action → Prop
  | .listener => (s.step session .listener).listener.readers = 0
  | _ => True

/-- The child has been let through its first open by the handler. -/
structure Attended (s : Exchange) : Prop where
  away : s.listener.readers = 0
  attended : s.child = .openingWrite true ∨ s.child = .writing ∨ s.child = .closingWrite → s.handler ≠ .start

theorem served_of_attended (together : s.Together session) (attended : s.Attended) {action : Action}
    (stays : s.Stays action) : s.Served session action := by
  cases action with
  | child => exact served_child together fun writes => attended.attended (Or.inr writes)
  | handler => exact served_handler together stays
  | listener =>
    refine ⟨?_, trivial⟩
    intro turn
    obtain ⟨reads, closes⟩ := ListenerStage.still_of_away attended.away
    rcases turn with here | ⟨here, -⟩
    · rw [reads] at here
      cases here
    · rw [closes] at here
      cases here
  | kernel op => exact ⟨trivial, trivial⟩

/-- A handler that has had a turn has come, and the listener is where it was. -/
theorem handler_came (s : Exchange) :
    (s.stepHandler session).listener = s.listener ∧ (s.stepHandler session).handler ≠ .start := by
  unfold stepHandler
  cases handler : s.handler with
  | opening released =>
    cases released with
    | true => exact ⟨rfl, (by simp)⟩
    | false => exact ⟨rfl, by simp [handler]⟩
  | reading =>
    dsimp only
    rcases s.read_cases .handler 511 with blocked | ⟨-, taken⟩
    · rw [blocked]
      exact ⟨rfl, by simp [handler]⟩
    · rw [taken]
      cases (s.fifo.buffer.take 511).map Mark.byte <;> exact ⟨rfl, (by simp)⟩
  | deciding text =>
    dsimp only
    split <;> exact ⟨rfl, (by simp)⟩
  | finished reply => exact ⟨rfl, by simp [handler]⟩
  | _ => exact ⟨rfl, (by simp)⟩

/-- A child on its way to close its end to write has been let through by the handler. -/
theorem attended_child (together : s.Together session) (attended : s.Attended) :
    (s.stepChild session).Attended := by
  -- Only the first open lets the child through, and only the handler can have it open by then.
  obtain ⟨away, came⟩ := attended
  have readers := together.sound.counted.readers
  unfold stepChild
  cases child : s.child with
  | start =>
    rw [away, child] at readers
    refine ⟨away, ?_⟩
    dsimp only [openWrite]
    rintro (here | here | here)
    · -- The child need not wait only if the handler reads already.
      have somebody := ChildStage.openingWrite.inj here
      rw [bne_iff_ne, readers] at somebody
      intro start
      rw [← HandlerStage.writerArrives_readers, start] at somebody
      exact somebody rfl
    · cases here
    · cases here
  | openingWrite released =>
    cases released with
    | true => exact ⟨away, fun _ => came (Or.inl child)⟩
    | false => exact ⟨away, came⟩
  | writing =>
    dsimp only
    split
    · exact ⟨away, (by simp)⟩
    · exact ⟨away, fun _ => came (Or.inr (Or.inl child))⟩
  | openingRead released =>
    cases released with
    | true => exact ⟨away, (by simp)⟩
    | false => exact ⟨away, came⟩
  | reading =>
    dsimp only
    rcases s.read_cases .child 255 with blocked | ⟨-, taken⟩
    · rw [blocked]
      exact ⟨away, came⟩
    · rw [taken]
      exact ⟨away, (by simp)⟩
  | returned granted | killed => exact ⟨away, came⟩
  | closingWrite | sent | closingRead bytes => exact ⟨away, (by simp)⟩

theorem attended_step (s : Exchange) (action : Action) (together : s.Together session)
    (attended : s.Attended) (unpolled : s.Unpolled session action) :
    (s.step session action).Attended := by
  cases action with
  | child => exact attended_child together attended
  | handler =>
    have came := @handler_came session s
    refine ⟨?_, fun _ => came.2⟩
    rw [step, came.1]
    exact attended.away
  | listener =>
    refine ⟨unpolled, ?_⟩
    rw [Unpolled] at unpolled
    rw [step] at unpolled ⊢
    unfold stepListener at unpolled ⊢
    -- A listener that does not come changes nothing but its own stage.
    cases listener : s.listener with
    | polling left =>
      rw [listener] at unpolled
      cases left with
      | zero => exact attended.attended
      | succ left => cases unpolled
    | _ => exact attended.attended
  | kernel op => exact ⟨attended.away, attended.attended⟩

/-- Where the listener stays away, it is enough that the handler stays for the child. -/
theorem served_iff_stays {actions : List Action} (together : s.Together session) (attended : s.Attended)
    (unpolled : Machine.EachStep (step session) (Unpolled session) s actions) :
    Machine.EachStep (step session) (Served session) s actions ↔
      Machine.EachStep (step session) Stays s actions := by
  -- Both conditions keep the same invariant, from which they are the same for the next step.
  induction actions generalizing s with
  | nil => exact Iff.rfl
  | cons action rest ih =>
    constructor
    · rintro ⟨served, later⟩
      have after := together_step s action together served
      refine ⟨?_, (ih after (attended_step s action together attended unpolled.1) unpolled.2).mp later⟩
      cases action with
      | handler => exact served.waits
      | _ => trivial
    · rintro ⟨stays, later⟩
      have served := served_of_attended together attended stays
      have after := together_step s action together served
      exact ⟨served, (ih after (attended_step s action together attended unpolled.1) unpolled.2).mpr later⟩

theorem attended_start (k : Kernel) : (start k).Attended :=
  ⟨rfl, fun writes => by rcases writes with here | here | here <;> cases here⟩

/--
The child gets its answer exactly if each step serves the two.

In a run with enough rounds in which the child and the handler both have a turn, the two agree
throughout and the child returns exactly when every step keeps the messages that wait, the child writes
only to somebody and closes only after the handler has come, and the handler closes its end to write
only after the child has come to its second open. Without the listener the last of these is all it takes.
-/
theorem answered_iff (session : Session) (k : Kernel) {rounds : List (List Action)}
    (fair : ∀ round ∈ rounds, .child ∈ round ∧ .handler ∈ round) (enough : 19 ≤ rounds.length) :
    ((Machine.Throughout (step session) (Agreement session) (start k) rounds.flatten ∧
        ∃ granted, (Machine.run (step session) (start k) rounds.flatten).child = .returned granted) ↔
      Machine.EachStep (step session) (Served session) (start k) rounds.flatten) ∧
    (Machine.EachStep (step session) (Unpolled session) (start k) rounds.flatten →
      (Machine.EachStep (step session) (Served session) (start k) rounds.flatten ↔
        Machine.EachStep (step session) Stays (start k) rounds.flatten)) := by
  -- A step that does not serve shows in the run, and steps that serve lead to the end.
  refine ⟨⟨?_, ?_⟩, served_iff_stays (together_start k) (attended_start k)⟩
  · rintro ⟨agreed, granted, returned⟩
    exact served_of_answered (together_start k) agreed returned
  · intro served
    refine ⟨?_, returned_of_served (together_start k) ?_ enough served⟩
    · exact Machine.throughout_of_eachStep (fun s together => agreement_of_sound s together.sound)
        together_step (together_start k) served
    · intro round member action turn
      rcases List.mem_cons.mp turn with rfl | other
      · exact (fair round member).1
      · rw [List.mem_singleton.mp other]
        exact (fair round member).2

instance decidableUnpolled (session : Session) (s : Exchange) :
    ∀ action, Decidable (s.Unpolled session action)
  | .listener => inferInstanceAs (Decidable (_ = _))
  | .child | .handler | .kernel _ => isTrue trivial

instance decidableStays (s : Exchange) : ∀ action, Decidable (s.Stays action)
  | .handler => inferInstanceAs (Decidable (_ → _))
  | .child | .listener | .kernel _ => isTrue trivial

/-- The child and the handler of its request take turns. -/
def inTurns : List (List Action) := List.replicate 19 [.child, .handler]

/-- Where the two take turns, the child is answered. -/
theorem answered_iff_in_turns :
    Machine.Throughout (step alarmSession) (Agreement alarmSession) (start (Kernel.boot 1024 1024 4))
      inTurns.flatten ∧
    ∃ granted, (Machine.run (step alarmSession) (start (Kernel.boot 1024 1024 4)) inTurns.flatten).child =
      .returned granted := by
  have fair : ∀ round ∈ inTurns, Action.child ∈ round ∧ Action.handler ∈ round := by
    intro round member
    rw [List.eq_of_mem_replicate member]
    simp
  -- The listener does not come, and the handler closes its end when the child waits for the answer.
  obtain ⟨answered, alone⟩ := answered_iff alarmSession (Kernel.boot 1024 1024 4) fair (by decide)
  exact answered.mpr ((alone (by decide +kernel)).mpr (by decide +kernel))

end Exchange

end Nebula
