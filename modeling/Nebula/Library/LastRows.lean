import Mathlib.Algebra.GroupWithZero.Nat
import Mathlib.Data.List.Induction
import Mathlib.Data.Vector.Basic
import Mathlib.Tactic.Common

/-! A fixed number of rows, written in turn, that hold the last entries of a sequence. -/

/-- The rows, with how many entries have been stored in them. -/
structure LastRows (α : Type*) (cap : Nat) where
  rows : Vector α cap
  count : Nat

namespace LastRows

variable {α : Type*} {cap : Nat} [NeZero cap]

/-- Write an entry into the row whose turn it is. -/
def store (r : LastRows α cap) (entry : α) : LastRows α cap where
  rows := r.rows.set (r.count % cap) entry (Nat.mod_lt _ (Nat.pos_of_neZero cap))
  count := r.count + 1

/-- The row at a place counted from the first one, wrapping at the last. -/
def row (r : LastRows α cap) (place : Nat) : α :=
  have inside : place % cap < cap := Nat.mod_lt _ (Nat.pos_of_neZero cap)
  r.rows[place % cap]

/-- The rows that have been written, the oldest entry first. -/
def toList (r : LastRows α cap) : List α :=
  let start := if r.count > cap then r.count % cap else 0
  let total := if r.count > cap then cap else r.count
  (List.range total).map fun i => r.row (start + i)

/-- Storing entries keeps the last ones, each in the row of its number. -/
theorem row_stored (rows : Vector α cap) (entries : List α) :
    let r := entries.foldl store (⟨rows, 0⟩ : LastRows α cap)
    r.count = entries.length ∧ ∀ index entry, entries[index]? = some entry →
      entries.length ≤ index + cap → r.row index = entry := by
  -- The sequence grows at its end, where each entry takes the row of the one a turn earlier.
  induction entries using List.reverseRecOn with
  | nil =>
    refine ⟨rfl, fun index entry here => ?_⟩
    cases here
  | append_singleton entries last ih =>
    obtain ⟨counted, kept⟩ := ih
    simp only [List.foldl_append, List.foldl_cons, List.foldl_nil]
    refine ⟨by simp [store, counted], fun index entry here recent => ?_⟩
    rw [List.length_append, List.length_singleton] at recent
    have inside := (List.getElem?_eq_some_iff.mp here).1
    rw [List.length_append, List.length_singleton] at inside
    by_cases new : index = entries.length
    · rw [new, List.getElem?_append_right (Nat.le_refl _), Nat.sub_self] at here
      have same : last = entry := Option.some.inj here
      simp [row, store, counted, new, same]
    · rw [List.getElem?_append_left (by omega)] at here
      rw [← kept index entry here (by omega)]
      -- The row written last is another one, less than a turn away.
      have apart : entries.length % cap ≠ index % cap := by
        intro same
        have divides : cap ∣ entries.length - index :=
          Nat.dvd_of_mod_eq_zero (Nat.sub_mod_eq_zero_of_mod_eq same)
        have := Nat.le_of_dvd (by omega) divides
        omega
      simp only [row, store, counted]
      exact Vector.getElem_set_ne _ _ apart

/-- What is read out of the rows are the last entries, as many as there are rows. -/
theorem toList_stored (rows : Vector α cap) (entries : List α) :
    (entries.foldl store (⟨rows, 0⟩ : LastRows α cap)).toList =
      entries.drop (entries.length - cap) := by
  obtain ⟨counted, kept⟩ := row_stored rows entries
  apply List.ext_getElem
  · simp only [toList, counted, List.length_map, List.length_range, List.length_drop]
    split <;> omega
  · intro place inside inside'
    rw [List.length_drop] at inside'
    simp only [toList, List.getElem_map, List.getElem_range, List.getElem_drop, counted]
    have here : entries[entries.length - cap + place]? =
        some entries[entries.length - cap + place] := List.getElem?_eq_getElem _
    rw [← kept _ _ here (by omega)]
    split
    · -- The oldest row is the one whose turn comes next.
      rename_i full
      have turn : (entries.length % cap + place) % cap = (entries.length - cap + place) % cap := by
        have whole : entries.length = entries.length - cap + cap := by omega
        conv_lhs => rw [whole, Nat.add_mod_right, Nat.mod_add_mod]
      simp only [row, turn]
    · rename_i room
      have first : entries.length - cap = 0 := by omega
      rw [first]

/-- The newest entries are read out of their rows if there are as many rows. -/
theorem newest_stored (rows : Vector α cap) (entries : List α) {want : Nat} (few : want ≤ cap) :
    let r := entries.foldl store (⟨rows, 0⟩ : LastRows α cap)
    (List.range' (r.count - want) (r.count - (r.count - want))).map r.row = entries.drop (entries.length - want) := by
  intro r
  obtain ⟨counted, kept⟩ := row_stored rows entries
  have count : r.count = entries.length := counted
  rw [count]
  apply List.ext_getElem
  · rw [List.length_map, List.length_range', List.length_drop]
  · intro place inside inside'
    rw [List.length_drop] at inside'
    rw [List.getElem_map, List.getElem_range', List.getElem_drop, Nat.one_mul]
    -- So late an entry has not been written over.
    exact kept _ _ (List.getElem?_eq_getElem _) (by omega)

end LastRows
