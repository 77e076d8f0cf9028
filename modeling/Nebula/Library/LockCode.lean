import Mathlib.Computability.RegularExpressions

/-! Code seen as the mutexes it locks and unlocks, with a check that it takes them in order. -/

namespace LockCode

variable {M : Type*}

/-- What code does to a mutex; a pause waits for something other than a mutex. -/
inductive Action (M : Type*) where
  | lock (m : M)
  | unlock (m : M)
  | pause
  deriving DecidableEq, Repr

/-- Code, as the sequences of actions its branches and loops can come to. -/
abbrev Code (M : Type*) := RegularExpression (Action M)

/-- Code between the lock and the unlock of a mutex. -/
def guarded (m : M) (body : Code M) : Code M := .char (.lock m) * body * .char (.unlock m)

/-- Code of a branch that may not be taken. -/
def optional (body : Code M) : Code M := 1 + body

/-- A wait on a condition variable, which gives a mutex back while it lasts. -/
def waitOn (m : M) : Code M := .char (.unlock m) * .char .pause * .char (.lock m)

/-- Every action that occurs in code. -/
def actions : Code M → List (Action M)
  | .zero => []
  | .epsilon => []
  | .char action => [action]
  | .plus first second => actions first ++ actions second
  | .comp first second => actions first ++ actions second
  | .star body => actions body

variable [DecidableEq M] (rank : M → Nat)

/-- What a thread holds after an action. -/
def Action.effect (held : List M) : Action M → List M
  | .lock m => m :: held
  | .unlock m => held.erase m
  | .pause => held

/--
A thread may do an action while it holds some mutexes.

A mutex is only taken above all that are held, only given back when it is held, and nothing is held
during a pause.
-/
def Action.InOrder (held : List M) : Action M → Prop
  | .lock m => ∀ other ∈ held, rank other < rank m
  | .unlock m => m ∈ held
  | .pause => held = []

instance (held : List M) (action : Action M) : Decidable (action.InOrder rank held) :=
  match action with
  | .lock m => inferInstanceAs (Decidable (∀ other ∈ held, rank other < rank m))
  | .unlock m => inferInstanceAs (Decidable (m ∈ held))
  | .pause => inferInstanceAs (Decidable (held = []))

/-- What a thread holds after an action, if the action is in order. -/
def Action.apply (held : List M) (action : Action M) : Option (List M) :=
  if action.InOrder rank held then some (action.effect held) else none

/-- What a thread holds after a sequence of actions, if they are all in order. -/
def follow (held : List M) (trace : List (Action M)) : Option (List M) :=
  trace.foldlM (fun held action => action.apply rank held) held

/-- What is held after code, if that is the same for all its sequences and they are in order. -/
def check : Code M → List M → Option (List M)
  | .zero, _ => none
  | .epsilon, held => some held
  | .char action, held => action.apply rank held
  | .plus first second, held =>
    if check first held = check second held then check first held else none
  | .comp first second, held => (check first held).bind (check second)
  | .star body, held => if check body held = some held then some held else none

omit [DecidableEq M] in
/-- A sequence of code is made of the actions that occur in it. -/
theorem mem_actions {code : Code M} {trace : List (Action M)} (member : trace ∈ code.matches')
    {action : Action M} (inside : action ∈ trace) : action ∈ actions code := by
  -- A sequence of a construct is put together from sequences of its parts.
  induction code generalizing trace with
  | zero => exact absurd member (Set.notMem_empty trace)
  | epsilon =>
    rw [RegularExpression.one_def, RegularExpression.matches'_epsilon, Language.mem_one] at member
    rw [member] at inside
    exact absurd inside List.not_mem_nil
  | char own =>
    rw [RegularExpression.matches'_char] at member
    rw [Set.mem_singleton_iff.mp member] at inside
    exact inside
  | plus first second ihFirst ihSecond =>
    rw [RegularExpression.plus_def, RegularExpression.matches'_add, Language.mem_add] at member
    rcases member with here | there
    · exact List.mem_append_left _ (ihFirst here inside)
    · exact List.mem_append_right _ (ihSecond there inside)
  | comp first second ihFirst ihSecond =>
    rw [RegularExpression.comp_def, RegularExpression.matches'_mul, Language.mem_mul] at member
    obtain ⟨before, here, after, there, rfl⟩ := member
    rcases List.mem_append.mp inside with early | late
    · exact List.mem_append_left _ (ihFirst here early)
    · exact List.mem_append_right _ (ihSecond there late)
  | star body ih =>
    rw [RegularExpression.matches'_star, Language.mem_kstar] at member
    obtain ⟨rounds, rfl, each⟩ := member
    obtain ⟨round, listed, within⟩ := List.mem_flatten.mp inside
    exact ih (each round listed) within

variable {rank}

theorem follow_cons (held : List M) (action : Action M) (rest : List (Action M)) :
    follow rank held (action :: rest) =
      (action.apply rank held).bind fun held => follow rank held rest := rfl

/-- A sequence is in order if its first action is and the others are after it. -/
theorem follow_cons_eq_some {held after : List M} {action : Action M} {rest : List (Action M)} :
    follow rank held (action :: rest) = some after ↔
      action.InOrder rank held ∧ follow rank (action.effect held) rest = some after := by
  rw [follow_cons, Action.apply]
  split
  · rename_i inOrder
    simp [inOrder]
  · rename_i outOfOrder
    simp [outOfOrder]

theorem follow_append (held : List M) (before after : List (Action M)) :
    follow rank held (before ++ after) =
      (follow rank held before).bind fun held => follow rank held after :=
  List.foldlM_append

/-- Every sequence of code that passes the check is in order and ends with what the check says. -/
theorem follow_of_check {code : Code M} {held after : List M}
    (checked : check rank code held = some after) {trace : List (Action M)}
    (member : trace ∈ code.matches') : follow rank held trace = some after := by
  induction code generalizing held after trace with
  | zero => cases checked
  | epsilon =>
    rw [RegularExpression.one_def, RegularExpression.matches'_epsilon, Language.mem_one] at member
    rw [member]
    exact checked
  | char action =>
    rw [RegularExpression.matches'_char] at member
    rw [Set.mem_singleton_iff.mp member, follow_cons]
    rw [check] at checked
    rw [checked]
    rfl
  | plus first second ihFirst ihSecond =>
    rw [check] at checked
    split at checked
    · rename_i same
      -- Both branches end with the same mutexes, whichever is taken.
      rw [RegularExpression.plus_def, RegularExpression.matches'_add, Language.mem_add] at member
      rcases member with here | there
      · exact ihFirst checked here
      · exact ihSecond (same ▸ checked) there
    · cases checked
  | comp first second ihFirst ihSecond =>
    -- The second part starts with what the first one ends with.
    rw [check, Option.bind_eq_some_iff] at checked
    obtain ⟨middle, here, there⟩ := checked
    rw [RegularExpression.comp_def, RegularExpression.matches'_mul, Language.mem_mul] at member
    obtain ⟨before, early, late, later, rfl⟩ := member
    rw [follow_append, ihFirst here early]
    exact ihSecond there later
  | star body ih =>
    rw [check] at checked
    split at checked
    · rename_i unchanged
      obtain rfl : held = after := Option.some.inj checked
      rw [RegularExpression.matches'_star, Language.mem_kstar] at member
      obtain ⟨rounds, rfl, each⟩ := member
      -- Each round of the loop ends with what it began with.
      induction rounds with
      | nil => rfl
      | cons round rest ihRest =>
        rw [List.flatten_cons, follow_append, ih unchanged (each round List.mem_cons_self)]
        exact ihRest fun other later => each other (List.mem_cons_of_mem _ later)
    · cases checked

end LockCode
