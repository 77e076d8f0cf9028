import Mathlib.Data.List.Infix
import Mathlib.Tactic.Common

/-! Paths of a hierarchy of directories, resolved by their components alone. -/

namespace Paths

/-- What stands between two separators of a path. -/
inductive Component (ν : Type*) where
  | blank
  | self
  | parent
  | name (name : ν)
  deriving DecidableEq, Repr

/-- A path in its shortest form: so many steps up, and then names, the deepest one first. -/
structure Resolved (ν : Type*) where
  ups : Nat
  names : List ν
  deriving DecidableEq, Repr

/-- Where a walk is that has started in a directory: below it, below its parent only, or above both. -/
inductive Whereabouts where
  | inside (depth : Nat)
  | beside (depth : Nat)
  | above
  deriving DecidableEq, Repr

variable {ν : Type*}

/-- The path with one more component. -/
def Resolved.push (r : Resolved ν) : Component ν → Resolved ν
  | .blank | .self => r
  | .name name => { r with names := name :: r.names }
  | .parent =>
    match r.names with
    | [] => { r with ups := r.ups + 1 }
    | _ :: names => { r with names := names }

/-- The shortest form of a path. -/
def resolve (path : List (Component ν)) : Resolved ν := path.foldl Resolved.push ⟨0, []⟩

/-- A path leads to something below a directory. -/
def StrictlyInside (home : ν) (r : Resolved ν) : Prop :=
  r.ups = 0 ∧ ∃ inner, inner ≠ [] ∧ r.names = inner ++ [home]

/-- What a component does to a walk: only the directory's own name leads back into it from its parent. -/
def Whereabouts.walk [DecidableEq ν] (home : ν) (w : Whereabouts) : Component ν → Whereabouts
  | .blank | .self => w
  | .parent =>
    match w with
    | .inside 0 => .beside 0
    | .inside (depth + 1) => .inside depth
    | .beside 0 => .above
    | .beside (depth + 1) => .beside depth
    | .above => .above
  | .name name =>
    match w with
    | .inside depth => .inside (depth + 1)
    | .beside 0 => if name = home then .inside 0 else .beside 1
    | .beside (depth + 1) => .beside (depth + 2)
    | .above => .above

/-- A walk from a directory ends below it. -/
def Confined [DecidableEq ν] (home : ν) (path : List (Component ν)) : Prop :=
  ∃ depth, path.foldl (Whereabouts.walk home) (.inside 0) = .inside (depth + 1)

/-- A walk counts how deep a path leads, and on which side of the directory. -/
def Counts (home : ν) (r : Resolved ν) : Whereabouts → Prop
  | .inside depth => r.ups = 0 ∧ ∃ inner, r.names = inner ++ [home] ∧ inner.length = depth
  | .beside depth => r.ups = 0 ∧ r.names.length = depth ∧ r.names.getLast? ≠ some home
  | .above => 0 < r.ups

/-- One component keeps the count right. -/
theorem Counts.walk [DecidableEq ν] {home : ν} {r : Resolved ν} {w : Whereabouts} (counts : Counts home r w)
    (component : Component ν) : Counts home (r.push component) (w.walk home component) := by
  obtain ⟨ups, names⟩ := r
  cases component with
  | blank => exact counts
  | self => exact counts
  | parent =>
    cases w with
    | inside depth =>
      obtain ⟨here, inner, rfl, rfl⟩ := counts
      cases inner with
      -- The directory itself is left for its parent.
      | nil => exact ⟨here, rfl, fun last => by cases last⟩
      | cons name inner => exact ⟨here, inner, rfl, rfl⟩
    | beside depth =>
      obtain ⟨here, rfl, other⟩ := counts
      cases names with
      | nil => exact Nat.succ_pos ups
      | cons name names =>
        refine ⟨here, rfl, fun last => other ?_⟩
        cases names with
        | nil => cases last
        | cons next names => rwa [List.getLast?_cons_cons]
    | above =>
      cases names with
      | nil => exact Nat.succ_pos ups
      | cons name names => exact counts
  | name name =>
    cases w with
    | inside depth =>
      obtain ⟨here, inner, rfl, rfl⟩ := counts
      exact ⟨here, name :: inner, rfl, rfl⟩
    | beside depth =>
      obtain ⟨here, rfl, other⟩ := counts
      cases names with
      | nil =>
        show Counts home ⟨ups, [name]⟩ (if name = home then .inside 0 else .beside 1)
        by_cases back : name = home
        · rw [if_pos back, back]
          exact ⟨here, [], rfl, rfl⟩
        · rw [if_neg back]
          exact ⟨here, rfl, by simpa using back⟩
      | cons next names =>
        refine ⟨here, rfl, fun last => other ?_⟩
        rwa [Resolved.push, List.getLast?_cons_cons] at last
    | above => exact counts

/-- The count tells whether a path leads below the directory. -/
theorem Counts.strictlyInside {home : ν} {r : Resolved ν} {w : Whereabouts} (counts : Counts home r w) :
    StrictlyInside home r ↔ ∃ depth, w = .inside (depth + 1) := by
  obtain ⟨ups, names⟩ := r
  cases w with
  | inside depth =>
    obtain ⟨here, inner, rfl, rfl⟩ := counts
    constructor
    · intro ⟨_, deeper, nonempty, same⟩
      obtain rfl := List.append_cancel_right same
      obtain ⟨name, rest, rfl⟩ := List.exists_cons_of_ne_nil nonempty
      exact ⟨rest.length, rfl⟩
    · intro ⟨depth, same⟩
      refine ⟨here, inner, fun none => ?_, rfl⟩
      rw [none] at same
      cases same
  | beside depth =>
    obtain ⟨-, -, other⟩ := counts
    -- Beside the directory the last name is another one.
    refine iff_of_false (fun ⟨_, inner, _, same⟩ => other ?_) (fun ⟨_, same⟩ => by cases same)
    dsimp only at same
    rw [same, List.getLast?_concat]
  | above =>
    have left : 0 < ups := counts
    exact iff_of_false (fun ⟨here, _⟩ => absurd here (Nat.pos_iff_ne_zero.mp left))
      (fun ⟨_, same⟩ => by cases same)

/-- A path that begins with a directory leads below it exactly if the walk of the rest ends below it. -/
theorem strictlyInside_iff_confined [DecidableEq ν] (home : ν) (path : List (Component ν)) :
    StrictlyInside home (resolve (.name home :: path)) ↔ Confined home path := by
  -- The count is right at the start, and each component keeps it right.
  have general : ∀ (path : List (Component ν)) (r : Resolved ν) (w : Whereabouts), Counts home r w →
      Counts home (path.foldl Resolved.push r) (path.foldl (Whereabouts.walk home) w) := by
    intro path
    induction path with
    | nil => exact fun r w counts => counts
    | cons component path ih => exact fun r w counts => ih _ _ (counts.walk component)
  have start : Counts home (Resolved.push ⟨0, []⟩ (.name home)) (.inside 0) := ⟨rfl, [], rfl, rfl⟩
  exact (general path _ _ start).strictlyInside

end Paths
