import Mathlib.Logic.Function.Basic

/-! Named pipes in a directory: which pipe a name leads to while names are unlinked and made again. -/

/-- A pipe that was made under a name, with the number of pipes made before. -/
structure NamedPipe (ν : Type*) where
  name : ν
  number : Nat
  deriving DecidableEq

/-- The names of a directory, each with the pipe it leads to. -/
structure PipeDir (ν : Type*) where
  pipe : ν → Option (NamedPipe ν)
  made : Nat
  numbered : ∀ name found, pipe name = some found → found.name = name ∧ found.number < made

namespace PipeDir

variable {ν : Type*} [DecidableEq ν]

/-- unlink: the name leads nowhere, whoever still has the pipe open. -/
def unlink (d : PipeDir ν) (name : ν) : PipeDir ν where
  pipe := Function.update d.pipe name none
  made := d.made
  numbered := by
    intro other found here
    by_cases same : other = name
    · subst same
      rw [Function.update_self] at here
      cases here
    · rw [Function.update_of_ne same] at here
      exact d.numbered other found here

/-- A new pipe has a name. -/
def link (d : PipeDir ν) (name : ν) : PipeDir ν where
  pipe := Function.update d.pipe name (some ⟨name, d.made⟩)
  made := d.made + 1
  numbered := by
    intro other found here
    by_cases same : other = name
    · subst same
      rw [Function.update_self] at here
      obtain rfl := Option.some.inj here
      exact ⟨rfl, Nat.lt_succ_self _⟩
    · rw [Function.update_of_ne same] at here
      have before := d.numbered other found here
      exact ⟨before.1, Nat.lt_succ_of_lt before.2⟩

/-- mkfifo: a new pipe, unless the name is taken. -/
def mkfifo (d : PipeDir ν) (name : ν) : PipeDir ν := if (d.pipe name).isSome then d else d.link name

@[simp] theorem pipe_unlink (d : PipeDir ν) (name : ν) : (d.unlink name).pipe name = none :=
  Function.update_self ..

theorem pipe_unlink_of_ne (d : PipeDir ν) {name other : ν} (apart : other ≠ name) :
    (d.unlink name).pipe other = d.pipe other := Function.update_of_ne apart ..

/-- mkfifo leaves a name that is taken with its pipe. -/
theorem pipe_mkfifo_taken {d : PipeDir ν} {name : ν} (taken : d.pipe name ≠ none) :
    (d.mkfifo name).pipe name = d.pipe name := by
  rw [mkfifo, if_pos (Option.isSome_iff_ne_none.mpr taken)]

/-- mkfifo gives a free name a pipe that has not been there before. -/
theorem pipe_mkfifo_free {d : PipeDir ν} {name : ν} (free : d.pipe name = none) :
    (d.mkfifo name).pipe name = some ⟨name, d.made⟩ := by
  rw [mkfifo, if_neg (by simp [free])]
  exact Function.update_self ..

/-- After mkfifo the name leads to a pipe. -/
theorem pipe_mkfifo_ne_none (d : PipeDir ν) (name : ν) : (d.mkfifo name).pipe name ≠ none := by
  by_cases free : d.pipe name = none
  · simp [pipe_mkfifo_free free]
  · rwa [pipe_mkfifo_taken free]

theorem pipe_mkfifo_of_ne (d : PipeDir ν) {name other : ν} (apart : other ≠ name) :
    (d.mkfifo name).pipe other = d.pipe other := by
  -- Whether or not a pipe is made, the other names are left alone.
  unfold mkfifo
  split
  · rfl
  · exact Function.update_of_ne apart ..

/-- The numbers of pipes only grow. -/
theorem made_le_mkfifo (d : PipeDir ν) (name : ν) : d.made ≤ (d.mkfifo name).made := by
  -- A pipe more is made, or none.
  unfold mkfifo
  split
  · exact Nat.le_refl _
  · exact Nat.le_succ _

end PipeDir
