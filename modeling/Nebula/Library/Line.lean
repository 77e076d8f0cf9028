import Mathlib.Data.List.Infix
import Mathlib.Data.List.Pairwise
import Mathlib.Order.Lattice

/-! Lists read as waiting lines, and who stands before whom in them. -/

namespace Line

variable {α β : Type*}

/-- One entry of a line stands somewhere before another. -/
def Ahead (line : List α) (first second : α) : Prop := List.Sublist [first, second] line

theorem Ahead.mem_left {line : List α} {first second : α} (ahead : Ahead line first second) :
    first ∈ line :=
  ahead.subset List.mem_cons_self

theorem Ahead.mem_right {line : List α} {first second : α} (ahead : Ahead line first second) :
    second ∈ line :=
  ahead.subset (List.mem_cons_of_mem _ List.mem_cons_self)

/-- Whoever joins the line at its end changes nothing for the others. -/
theorem Ahead.append {line : List α} {first second : α} (ahead : Ahead line first second)
    (joining : List α) : Ahead (line ++ joining) first second :=
  ahead.trans (List.sublist_append_left line joining)

/-- Everybody in a line stands before one who joins it at the end. -/
theorem ahead_snoc {line : List α} {first : α} (waits : first ∈ line) (last : α) :
    Ahead (line ++ [last]) first last :=
  (List.singleton_sublist.mpr waits).append (List.Sublist.refl [last])

/-- Once the front has left, an entry that is not the front still stands before the same ones. -/
theorem Ahead.tail {front first second : α} {rest : List α}
    (ahead : Ahead (front :: rest) first second) (apart : first ≠ front) :
    Ahead rest first second := by
  rcases List.sublist_cons_iff.mp ahead with later | ⟨left, split, -⟩
  · exact later
  · exact absurd (List.cons.inj split).1 apart

/-- Nobody stands before the front of a line in which nobody stands twice. -/
theorem not_ahead_front {front first : α} {rest : List α} (distinct : (front :: rest).Nodup) :
    ¬ Ahead (front :: rest) first front := by
  intro ahead
  have fresh := (List.nodup_cons.mp distinct).1
  rcases List.sublist_cons_iff.mp ahead with later | ⟨left, split, inside⟩
  · exact fresh (Ahead.mem_right later)
  · -- The front would be met once more behind itself.
    rw [← (List.cons.inj split).2] at inside
    exact fresh (List.singleton_sublist.mp inside)

/-- Who stands before whom is carried over by a map. -/
theorem Ahead.map {line : List α} {first second : α} (ahead : Ahead line first second) (f : α → β) :
    Ahead (line.map f) (f first) (f second) :=
  List.Sublist.map f ahead

/-- Two entries of a mapped line come from two entries in the same order. -/
theorem ahead_map {line : List α} {f : α → β} {first second : β}
    (ahead : Ahead (line.map f) first second) :
    ∃ a b, Ahead line a b ∧ f a = first ∧ f b = second := by
  obtain ⟨pair, inside, mapped⟩ := List.sublist_map_iff.mp ahead
  -- Only a list of two entries maps to two entries.
  match pair, mapped with
  | [a, b], mapped =>
    obtain ⟨here, there⟩ := List.cons.inj mapped
    exact ⟨a, b, inside, here.symm, (List.cons.inj there).1.symm⟩

/-- In an ordered line the smaller of two entries stands before the other. -/
theorem ahead_of_lt [LinearOrder α] {line : List α} (sorted : line.Pairwise (· < ·))
    {first second : α} (here : first ∈ line) (there : second ∈ line) (less : first < second) :
    Ahead line first second := by
  induction line with
  | nil => exact absurd here List.not_mem_nil
  | cons front rest ih =>
    obtain ⟨below, sorted⟩ := List.pairwise_cons.mp sorted
    rcases List.mem_cons.mp there with rfl | later
    · -- Nothing in the line is smaller than its front.
      rcases List.mem_cons.mp here with rfl | behind
      · exact absurd less (lt_irrefl _)
      · exact absurd less (lt_asymm (below _ behind))
    · rcases List.mem_cons.mp here with rfl | behind
      · exact (List.singleton_sublist.mpr later).cons_cons _
      · exact (ih sorted behind later).cons front

/-- The first entry of an ordered line to pass a test is the least that passes it. -/
theorem find?_least [LinearOrder α] {line : List α} {test : α → Bool} {found other : α}
    (sorted : line.Pairwise (· < ·)) (first : line.find? test = some found) (member : other ∈ line)
    (passes : test other = true) : found ≤ other := by
  induction line with
  | nil => exact absurd member List.not_mem_nil
  | cons front rest ih =>
    obtain ⟨below, sorted⟩ := List.pairwise_cons.mp sorted
    rw [List.find?_cons] at first
    cases tested : test front with
    | true =>
      -- The search stops at the front, which is below all the others.
      rw [tested, Option.some.injEq] at first
      subst first
      rcases List.mem_cons.mp member with rfl | behind
      · exact le_refl _
      · exact le_of_lt (below other behind)
    | false =>
      rw [tested] at first
      rcases List.mem_cons.mp member with rfl | behind
      · rw [tested] at passes
        cases passes
      · exact ih sorted first behind

/-- Of two who stand one behind the other the order does not matter once one of them is left out. -/
theorem filter_pair {test : α → Bool} {first second : α} (out : test first = false ∨ test second = false) :
    [first, second].filter test = [second, first].filter test := by
  rcases out with out | out
  · simp [List.filter_cons, out]
  · simp [List.filter_cons, out]

/-- Whoever goes from the front to the end of a line with somebody else in it changes the line. -/
theorem rotated_ne {front : α} {rest : List α} (some : rest ≠ []) (fresh : front ∉ rest) :
    front :: rest ≠ rest ++ [front] := by
  cases rest with
  | nil => exact absurd rfl some
  | cons next rest =>
    intro same
    rw [List.cons_append] at same
    exact fresh ((List.cons.inj same).1 ▸ List.mem_cons_self)

end Line
