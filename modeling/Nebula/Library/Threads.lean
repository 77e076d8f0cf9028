import Mathlib.Logic.Relation
import Nebula.Library.LockCode
import Nebula.Library.Machine

/-! Threads that run lock code in any interleaving; without a deadlock if all code locks in order. -/

open LockCode

/-- Who holds each mutex, and what each thread still has to do. -/
structure Threads (T M : Type*) where
  owner : M → Option T
  rest : T → List (Action M)

namespace Threads

variable {T M Call : Type*} [DecidableEq T] [DecidableEq M]

/-- Nobody holds or does anything. -/
def idle : Threads T M := ⟨fun _ => none, fun _ => []⟩

/-- The owners after an action of a thread, unless it has to wait for its mutex. -/
def perform (owner : M → Option T) (t : T) : Action M → Option (M → Option T)
  | .lock m => if owner m = none then some (Function.update owner m (some t)) else none
  | .unlock m => if owner m = some t then some (Function.update owner m none) else none
  | .pause => some owner

/-- A mutex that could be locked was free. -/
private theorem perform_lock {owner owner' : M → Option T} {t : T} {m : M}
    (performed : perform owner t (.lock m) = some owner') :
    owner m = none ∧ owner' = Function.update owner m (some t) := by
  simp only [perform] at performed
  split at performed
  · rename_i free
    exact ⟨free, (Option.some.inj performed).symm⟩
  · cases performed

/-- A mutex that could be unlocked was held by the thread. -/
private theorem perform_unlock {owner owner' : M → Option T} {t : T} {m : M}
    (performed : perform owner t (.unlock m) = some owner') :
    owner m = some t ∧ owner' = Function.update owner m none := by
  simp only [perform] at performed
  split at performed
  · rename_i owned
    exact ⟨owned, (Option.some.inj performed).symm⟩
  · cases performed

/-- The next action of a thread, if it has one and need not wait. -/
def turn (s : Threads T M) (t : T) : Option (Threads T M) :=
  match s.rest t with
  | [] => none
  | action :: rest =>
    (perform s.owner t action).map fun owner => ⟨owner, Function.update s.rest t rest⟩

/-- A turn takes the next action of the thread and leaves the others alone. -/
theorem turn_rest {s s' : Threads T M} {t : T} (taken : s.turn t = some s') :
    (∃ action, s.rest t = action :: s'.rest t) ∧ ∀ u, u ≠ t → s'.rest u = s.rest u := by
  unfold turn at taken
  split at taken
  · cases taken
  · rename_i action rest left
    obtain ⟨owner, -, rfl⟩ := Option.map_eq_some_iff.mp taken
    exact ⟨⟨action, by simpa using left⟩, fun u apart => Function.update_of_ne apart _ _⟩

/-- An action gives no mutex to another thread. -/
private theorem perform_owner {owner owner' : M → Option T} {t u : T} {action : Action M} {m : M}
    (performed : perform owner t action = some owner') (owned : owner' m = some u) (apart : u ≠ t) :
    owner m = some u := by
  -- Only the mutex of the action changes hands, to the thread itself or to nobody.
  cases action with
  | lock other =>
    rw [(perform_lock performed).2] at owned
    by_cases same : m = other
    · rw [same, Function.update_self] at owned
      exact absurd (Option.some.inj owned).symm apart
    · rwa [Function.update_of_ne same] at owned
  | unlock other =>
    rw [(perform_unlock performed).2] at owned
    by_cases same : m = other
    · rw [same, Function.update_self] at owned
      cases owned
    · rwa [Function.update_of_ne same] at owned
  | pause =>
    rw [Option.some.inj performed]
    exact owned

theorem turn_owner {s s' : Threads T M} {t u : T} {m : M} (taken : s.turn t = some s')
    (owned : s'.owner m = some u) (apart : u ≠ t) : s.owner m = some u := by
  unfold turn at taken
  split at taken
  · cases taken
  · obtain ⟨owner, performed, rfl⟩ := Option.map_eq_some_iff.mp taken
    exact perform_owner performed owned apart

/-- A call by a thread that has nothing left to do, or one action of a thread. -/
inductive Move (T M Call : Type*) where
  | call (t : T) (call : Call) (trace : List (Action M))
  | turn (t : T)

/-- A move of some thread; one that is not possible changes nothing. -/
def step (code : Call → Code M) (s : Threads T M) : Move T M Call → Threads T M
  | .call t call trace =>
    if s.rest t = [] ∧ (code call).rmatch trace then
      { s with rest := Function.update s.rest t trace }
    else s
  | .turn t => (s.turn t).getD s

omit [DecidableEq T] [DecidableEq M] in
/-- The next action of a thread is to lock a mutex. -/
def Wants (s : Threads T M) (t : T) (m : M) : Prop := ∃ rest, s.rest t = .lock m :: rest

/-- A thread waits for a mutex that another one holds. -/
def Awaits (s : Threads T M) (t u : T) : Prop := ∃ m, s.Wants t m ∧ s.owner m = some u

/-- What is promised of threads that wait for one another. -/
structure DeadlockFree (s : Threads T M) : Prop where
  /-- No threads wait for one another in a circle. -/
  acyclic : ∀ t, ¬ Relation.TransGen s.Awaits t t
  /-- If a thread has to wait for a mutex, some thread that holds one can go on. -/
  progress : ∀ t m, s.Wants t m → s.owner m ≠ none →
    ∃ u held, s.owner held = some u ∧ (s.turn u).isSome

/-- The lists say which mutexes each thread holds. -/
def Holds (owner : M → Option T) (held : T → List M) : Prop :=
  ∀ t m, owner m = some t ↔ m ∈ held t

/-- Every thread holds the mutexes of its list, and does the rest of its code in order. -/
structure Ordered (rank : M → Nat) (s : Threads T M) (held : T → List M) : Prop where
  holds : Holds s.owner held
  once : ∀ t, (held t).Nodup
  follows : ∀ t, follow rank (held t) (s.rest t) = some []

omit [DecidableEq T] in
private theorem Holds.lock {owner : M → Option T} {held held' : T → List M} {t : T} {m : M}
    (holds : Holds owner held) (free : owner m = none) (mine : held' t = m :: held t)
    (others : ∀ u, u ≠ t → held' u = held u) :
    Holds (Function.update owner m (some t)) held' := by
  intro u other
  -- A free mutex is on no list, so the new holder is the only one to list it.
  have nobody : m ∉ held u := fun member => by
    rw [(holds u m).mpr member] at free
    cases free
  by_cases same : other = m
  · subst other
    rw [Function.update_self]
    by_cases self : u = t
    · simp [self, mine]
    · rw [others u self]
      simp [nobody, Ne.symm self]
  · rw [Function.update_of_ne same, holds]
    by_cases self : u = t
    · simp [self, mine, same]
    · rw [others u self]

omit [DecidableEq T] in
private theorem Holds.unlock {owner : M → Option T} {held held' : T → List M} {t : T} {m : M}
    (holds : Holds owner held) (once : (held t).Nodup) (owned : owner m = some t)
    (mine : held' t = (held t).erase m) (others : ∀ u, u ≠ t → held' u = held u) :
    Holds (Function.update owner m none) held' := by
  -- Only the mutex that is given back changes its owner, and only its owner loses one.
  intro u other
  by_cases same : other = m
  · subst other
    rw [Function.update_self]
    by_cases self : u = t
    · simp [self, mine, once.not_mem_erase]
    · have nobody : m ∉ held u := fun member => by
        rw [(holds u m).mpr member] at owned
        exact self (Option.some.inj owned)
      rw [others u self]
      simp [nobody]
  · rw [Function.update_of_ne same, holds]
    by_cases self : u = t
    · rw [self, mine, List.mem_erase_of_ne same]
    · rw [others u self]

/-- The list of a thread follows its actions. -/
theorem Holds.performed {owner owner' : M → Option T} {held held' : T → List M} {t : T}
    {action : Action M} (holds : Holds owner held) (once : (held t).Nodup)
    (performed : perform owner t action = some owner') (mine : held' t = action.effect (held t))
    (others : ∀ u, u ≠ t → held' u = held u) : Holds owner' held' ∧ (held' t).Nodup := by
  cases action with
  | lock m =>
    obtain ⟨free, rfl⟩ := perform_lock performed
    refine ⟨holds.lock free mine others, ?_⟩
    -- A free mutex is on nobody's list.
    rw [mine]
    refine List.nodup_cons.mpr ⟨fun member => ?_, once⟩
    rw [(holds t m).mpr member] at free
    cases free
  | unlock m =>
    obtain ⟨owned, rfl⟩ := perform_unlock performed
    refine ⟨holds.unlock once owned mine others, ?_⟩
    rw [mine]
    exact once.erase m
  | pause =>
    rw [← Option.some.inj performed]
    have same : held' = held := by
      funext u
      by_cases self : u = t
      · rw [self, mine]
        rfl
      · exact others u self
    rw [same]
    exact ⟨holds, once⟩

/-- An action in order can be done, unless it locks a mutex that somebody holds. -/
theorem perform_isSome {rank : M → Nat} {owner : M → Option T} {held : List M} {t : T}
    {action : Action M} (inOrder : action.InOrder rank held)
    (owned : ∀ m ∈ held, owner m = some t) (free : ∀ m, action = .lock m → owner m = none) :
    (perform owner t action).isSome := by
  cases action with
  | lock m => simp [perform, free m rfl]
  | unlock m => simp [perform, owned m inOrder]
  | pause => rfl

omit [DecidableEq T] in
theorem ordered_idle (rank : M → Nat) : Ordered rank (idle : Threads T M) fun _ => [] :=
  ⟨fun t m => by simp [idle], fun _ => List.nodup_nil, fun _ => rfl⟩

theorem Ordered.turn {rank : M → Nat} {s s' : Threads T M} {held : T → List M} {t : T}
    (ordered : Ordered rank s held) (taken : s.turn t = some s') : ∃ held', Ordered rank s' held' := by
  unfold Threads.turn at taken
  have follows := ordered.follows t
  cases left : s.rest t with
  | nil => simp [left] at taken
  | cons action rest =>
    rw [left] at follows
    rw [left, Option.map_eq_some_iff] at taken
    obtain ⟨owner, performed, rfl⟩ := taken
    obtain ⟨-, onward⟩ := follow_cons_eq_some.mp follows
    -- The list of the thread changes by its action, and the others' lists do not.
    obtain ⟨holds, once⟩ := ordered.holds.performed (ordered.once t) performed
      (Function.update_self t (action.effect (held t)) held)
      fun u apart => Function.update_of_ne apart _ _
    refine ⟨Function.update held t (action.effect (held t)), holds, fun u => ?_, fun u => ?_⟩
    · by_cases self : u = t
      · rw [self]
        exact once
      · rw [Function.update_of_ne self]
        exact ordered.once u
    · dsimp only
      by_cases self : u = t
      · rw [self, Function.update_self, Function.update_self]
        exact onward
      · rw [Function.update_of_ne self, Function.update_of_ne self]
        exact ordered.follows u

/-- Calls of code that passes the check, and turns, keep the threads in order. -/
theorem Ordered.step {rank : M → Nat} {code : Call → Code M}
    (checked : ∀ call, check rank (code call) [] = some []) {s : Threads T M} {held : T → List M}
    (ordered : Ordered rank s held) (move : Move T M Call) :
    ∃ held', Ordered rank (s.step code move) held' := by
  cases move with
  | turn t =>
    unfold Threads.step
    dsimp only
    cases taken : s.turn t with
    | none => exact ⟨held, ordered⟩
    | some s' => exact ordered.turn taken
  | call t call trace =>
    unfold Threads.step
    dsimp only
    split
    · rename_i starts
      -- A thread with nothing left to do holds nothing, so its call starts in order.
      have nothing : held t = [] := by
        have follows := ordered.follows t
        rw [starts.1] at follows
        exact Option.some.inj follows
      have follows := follow_of_check (checked call)
        ((RegularExpression.rmatch_iff_matches' _ _).mp starts.2)
      refine ⟨held, ordered.holds, ordered.once, fun u => ?_⟩
      by_cases self : u = t
      · rw [self, nothing]
        simpa using follows
      · simpa [self] using ordered.follows u
    · exact ⟨held, ordered⟩

omit [DecidableEq T] in
/-- A thread only wants a mutex above those that it holds. -/
theorem Ordered.rank_lt {rank : M → Nat} {s : Threads T M} {held : T → List M}
    (ordered : Ordered rank s held) {t : T} {owned wanted : M} (owns : s.owner owned = some t)
    (wants : s.Wants t wanted) : rank owned < rank wanted := by
  -- The lock is its next action, which is in order after all that it holds.
  obtain ⟨rest, left⟩ := wants
  have follows := ordered.follows t
  rw [left] at follows
  exact (follow_cons_eq_some.mp follows).1 owned ((ordered.holds t owned).mp owns)

omit [DecidableEq T] in
/-- Along a chain of waiting threads the wanted mutexes go upwards. -/
private theorem Ordered.rank_lt_of_chain {rank : M → Nat} {s : Threads T M} {held : T → List M}
    (ordered : Ordered rank s held) {t u : T} (chain : Relation.TransGen s.Awaits t u) {last : M}
    (wants : s.Wants u last) : ∃ first, s.Wants t first ∧ rank first < rank last := by
  -- Each thread of the chain waits for a mutex of the next, which is above those that it holds.
  induction chain generalizing last with
  | single awaits =>
    obtain ⟨first, wantsFirst, owns⟩ := awaits
    exact ⟨first, wantsFirst, ordered.rank_lt owns wants⟩
  | tail _ awaits ih =>
    obtain ⟨middle, wantsMiddle, owns⟩ := awaits
    obtain ⟨first, wantsFirst, below⟩ := ih wantsMiddle
    exact ⟨first, wantsFirst, below.trans (ordered.rank_lt owns wants)⟩

omit [DecidableEq T] in
theorem Ordered.acyclic {rank : M → Nat} {s : Threads T M} {held : T → List M}
    (ordered : Ordered rank s held) (t : T) : ¬ Relation.TransGen s.Awaits t t := by
  intro cycle
  obtain ⟨_, ⟨m, wants, -⟩, -⟩ := Relation.TransGen.head'_iff.mp cycle
  obtain ⟨first, wantsFirst, below⟩ := ordered.rank_lt_of_chain cycle wants
  -- A thread wants one mutex at a time, which would lie below itself.
  obtain ⟨rest, left⟩ := wants
  obtain ⟨rest', left'⟩ := wantsFirst
  rw [left] at left'
  obtain rfl : m = first := Action.lock.inj (List.cons.inj left').1
  exact Nat.lt_irrefl _ below

/-- Whoever holds a wanted mutex can go on, or wants one further up that is held in turn. -/
theorem Ordered.progress {rank : M → Nat} {limit : Nat} (bounded : ∀ m, rank m ≤ limit)
    {s : Threads T M} {held : T → List M} (ordered : Ordered rank s held) {m : M}
    (taken : s.owner m ≠ none) : ∃ u owned, s.owner owned = some u ∧ (s.turn u).isSome := by
  -- The ranks are bounded, so the chain of wanted mutexes comes to an end.
  induction left : limit - rank m using Nat.strong_induction_on generalizing m with
  | _ distance ih =>
    obtain ⟨u, owns⟩ := Option.ne_none_iff_exists'.mp taken
    have follows := ordered.follows u
    cases next : s.rest u with
    | nil =>
      -- One who has nothing left to do holds nothing.
      rw [next] at follows
      have nothing : held u = [] := Option.some.inj follows
      have member := (ordered.holds u m).mp owns
      rw [nothing] at member
      exact absurd member List.not_mem_nil
    | cons action rest =>
      rw [next] at follows
      have inOrder := (follow_cons_eq_some.mp follows).1
      by_cases waits : ∃ wanted, action = .lock wanted ∧ s.owner wanted ≠ none
      · -- The holder waits in turn, for a mutex that is closer to the end of the order.
        obtain ⟨wanted, rfl, held'⟩ := waits
        have above := ordered.rank_lt owns ⟨rest, next⟩
        have := bounded wanted
        exact ih (limit - rank wanted) (by omega) held' rfl
      · have performed := perform_isSome inOrder
          (fun m member => (ordered.holds u m).mpr member) fun wanted same => by
            by_contra held'
            exact waits ⟨wanted, same, held'⟩
        refine ⟨u, m, owns, ?_⟩
        unfold Threads.turn
        rw [next]
        simpa using performed

/-- Threads whose code all passes the check for one bounded order never deadlock. -/
theorem deadlockFree_run {rank : M → Nat} {limit : Nat} (bounded : ∀ m, rank m ≤ limit)
    {code : Call → Code M} (checked : ∀ call, check rank (code call) [] = some [])
    (moves : List (Move T M Call)) : DeadlockFree (Machine.run (step code) (idle : Threads T M) moves) := by
  have preserved : ∀ (s : Threads T M) (move : Move T M Call), (∃ held, Ordered rank s held) →
      ∃ held, Ordered rank (step code s move) held :=
    fun _ move ⟨_, ordered⟩ => ordered.step checked move
  obtain ⟨held, ordered⟩ := Machine.invariant_run preserved ⟨_, ordered_idle rank⟩ moves
  exact ⟨ordered.acyclic, fun _ _ _ taken => ordered.progress bounded taken⟩

end Threads
