import Nebula.Locks.Calls

/-! When a SIGCHLD handler never waits for a mutex that the thread it interrupted holds. -/

namespace Nebula

open LockCode

/--
The two flows of control of a thread: the operation it runs, and the handler that interrupts it.

A mutex belongs to the flow that locked it, so one of the operation is told from one of the handler.
-/
inductive Flow (T : Type*) where
  | operation (t : T)
  | handler (t : T)
  deriving DecidableEq

/-- One round of the loop in sigchld_handler. -/
def Locking.reapChild : Code Mutex := logEvent * removePcb

/-- sigchld_handler with at least one child to reap. -/
def Locking.sigchldHandler : Code Mutex := reapChild * .star reapChild

/-- What a flow can be called on to run: an operation of the kernel, or the handler. -/
def flowCode : Option KernelCall → Code Mutex
  | some call => call.code
  | none => Locking.sigchldHandler

/-- The mutexes, and what each flow still has to do. -/
abbrev Interruptible (T : Type*) := Threads (Flow T) Mutex

/-- A call by a thread, one action of a thread, or the delivery of a SIGCHLD to a thread. -/
inductive SignalMove (T : Type*) where
  | call (t : T) (call : KernelCall) (trace : List (Action Mutex))
  | turn (t : T)
  | sigchld (t : T) (trace : List (Action Mutex))

namespace Interruptible

variable {T : Type*} [DecidableEq T]

/-- A thread runs its handler to the end before it goes on, and blocks further signals meanwhile. -/
def step (s : Interruptible T) : SignalMove T → Interruptible T
  | .call t call trace =>
    if s.rest (.handler t) = [] then Threads.step flowCode s (.call (.operation t) (some call) trace)
    else s
  | .turn t =>
    Threads.step flowCode s (.turn (if s.rest (.handler t) = [] then .operation t else .handler t))
  | .sigchld t trace => Threads.step flowCode s (.call (.handler t) none trace)

/-- No handler is about to lock a mutex that the operation it interrupted holds. -/
def NeverSelfLocks (s : Interruptible T) : Prop :=
  ∀ t m, s.Wants (.handler t) m → s.owner m ≠ some (.operation t)

/--
A SIGCHLD is delivered outside the critical sections that its handler enters too.

The handler always takes log_lock and pcb_lock, and resource_lock when a child it reaps has a block.
-/
def DeliversOutside (s : Interruptible T) : SignalMove T → Prop
  | .sigchld t trace =>
    s.owner .logLock ≠ some (.operation t) ∧ s.owner .pcbLock ≠ some (.operation t) ∧
      (.lock .resourceLock ∈ trace → s.owner .resourceLock ≠ some (.operation t))
  | _ => True

/-- The operation a handler interrupted holds nothing that the handler has still to lock. -/
def Apart (s : Interruptible T) : Prop :=
  ∀ t m, .lock m ∈ s.rest (.handler t) → s.owner m ≠ some (.operation t)

omit [DecidableEq T] in
theorem Apart.neverSelfLocks {s : Interruptible T} (apart : Apart s) : NeverSelfLocks s := by
  rintro t m ⟨rest, left⟩
  refine apart t m ?_
  rw [left]
  exact List.mem_cons_self

/-- The mutexes the handler locks. -/
theorem sigchldHandler_locks {trace : List (Action Mutex)}
    (runs : Locking.sigchldHandler.rmatch trace = true) {m : Mutex} (locks : .lock m ∈ trace) :
    m = .logLock ∨ m = .pcbLock ∨ m = .resourceLock := by
  -- Only what occurs in its code can come up in a sequence of it.
  have occurs := mem_actions ((RegularExpression.rmatch_iff_matches' _ _).mp runs) locks
  cases m with
  | logLock => exact Or.inl rfl
  | pcbLock => exact Or.inr (Or.inl rfl)
  | resourceLock => exact Or.inr (Or.inr rfl)
  | _ => exact absurd occurs (by decide)

/-- A turn of a flow that interrupts or is not interrupted keeps the handlers apart. -/
private theorem Apart.turn {s s' : Interruptible T} (apart : Apart s) {flow : Flow T}
    (taken : s.turn flow = some s') (free : ∀ t, flow = .operation t → s.rest (.handler t) = []) :
    Apart s' := by
  intro t m left owned
  obtain ⟨⟨action, mine⟩, others⟩ := Threads.turn_rest taken
  by_cases operation : flow = .operation t
  · -- The operation only runs while its handler has nothing to do.
    rw [others (.handler t) (by simp [operation]), free t operation] at left
    exact absurd left List.not_mem_nil
  · have before := Threads.turn_owner taken owned (Ne.symm operation)
    refine apart t m ?_ before
    by_cases handler : flow = .handler t
    · rw [← handler, mine]
      exact List.mem_cons_of_mem _ (handler ▸ left)
    · rw [← others _ (Ne.symm handler)]
      exact left

theorem Apart.step {s : Interruptible T} (apart : Apart s) (move : SignalMove T)
    (outside : DeliversOutside s move) : Apart (s.step move) := by
  cases move with
  | call t call trace =>
    unfold Interruptible.step Threads.step
    dsimp only
    split
    · split
      · -- A call changes what an operation has to do, and no owner.
        intro u m left
        dsimp only at left
        rw [Function.update_of_ne (by simp)] at left
        exact apart u m left
      · exact apart
    · exact apart
  | turn t =>
    unfold Interruptible.step Threads.step
    dsimp only
    -- Whether the handler has something left to do decides which flow moves.
    generalize chosen : (if s.rest (.handler t) = [] then Flow.operation t else .handler t) = flow
    cases taken : s.turn flow with
    | none => exact apart
    | some s' =>
      refine apart.turn taken fun u same => ?_
      rw [same] at chosen
      split at chosen
      · rename_i free
        rw [← Flow.operation.inj chosen]
        exact free
      · cases chosen
  | sigchld t trace =>
    unfold Interruptible.step Threads.step
    dsimp only
    split
    · rename_i starts
      intro u m left
      dsimp only at left
      by_cases same : u = t
      · -- The handler starts outside every section that it enters.
        rw [same, Function.update_self] at left
        rw [same]
        rcases sigchldHandler_locks starts.2 left with rfl | rfl | rfl
        · exact outside.1
        · exact outside.2.1
        · exact outside.2.2 left
      · rw [Function.update_of_ne (by simpa using same)] at left
        exact apart u m left
    · exact apart

/-- If every SIGCHLD of a run is delivered outside, no handler ever waits for its own thread. -/
theorem neverSelfLocks_of_deliversOutside (moves : List (SignalMove T))
    (outside : Machine.EachStep step DeliversOutside Threads.idle moves) :
    Machine.Throughout step NeverSelfLocks (Threads.idle : Interruptible T) moves := by
  have start : Apart (Threads.idle : Interruptible T) := fun _ _ left => absurd left List.not_mem_nil
  have kept : ∀ (s : Interruptible T) move, Apart s → DeliversOutside s move → Apart (s.step move) :=
    fun _ move apart outside => apart.step move outside
  exact Machine.throughout_of_eachStep (fun _ apart => apart.neverSelfLocks) kept start outside

/-- A signal that comes between two critical sections. -/
theorem neverSelfLocks_of_deliversOutside_after_log :
    Machine.Throughout step NeverSelfLocks (Threads.idle : Interruptible Unit)
      [.call () .logEvent [.lock .logLock, .unlock .logLock], .turn (), .turn (),
        .sigchld () [.lock .logLock, .unlock .logLock, .lock .pcbLock, .unlock .pcbLock],
        .turn (), .turn (), .turn ()] :=
  neverSelfLocks_of_deliversOutside _ ⟨trivial, trivial, trivial,
    ⟨by decide +kernel, by decide +kernel, fun _ => by decide +kernel⟩, trivial, trivial, trivial,
    trivial⟩

/-- A child exits while create_pcb is in its section: the handler waits for pcb_lock for ever. -/
theorem handler_waits_for_own_thread :
    ¬ NeverSelfLocks (Machine.run step (Threads.idle : Interruptible Unit)
      [.call () .createPcb [.lock .pcbLock, .unlock .pcbLock, .lock .queueMutex,
          .unlock .queueMutex, .lock .logLock, .unlock .logLock], .turn (),
        .sigchld () [.lock .logLock, .unlock .logLock, .lock .pcbLock, .unlock .pcbLock],
        .turn (), .turn ()]) := by
  intro never
  exact never () .pcbLock ⟨[.unlock .pcbLock], by decide +kernel⟩ (by decide +kernel)

end Interruptible

end Nebula
