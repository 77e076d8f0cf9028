import Mathlib.Data.List.Forall2
import Mathlib.Tactic.Common

/-! The rows of a table paired with tags that move with them. -/

namespace Tagged

variable {α β : Type*}

/-- Related lists relate each entry of the second to one of the first. -/
theorem exists_before {related : α → β → Prop} {before : List α} {after : List β}
    (rows : List.Forall₂ related before after) {row : β} (member : row ∈ after) :
    ∃ old ∈ before, related old row := by
  induction rows with
  | nil => exact absurd member List.not_mem_nil
  | cons first _ ih =>
    rcases List.mem_cons.mp member with rfl | later
    · exact ⟨_, List.mem_cons_self, first⟩
    · obtain ⟨old, inside, here⟩ := ih later
      exact ⟨old, List.mem_cons_of_mem _ inside, here⟩

/-- If related entries pass a test only when the earlier one did, no more entries pass it. -/
theorem countP_le {before : List α} {after : List β} {test : α → Bool}
    {test' : β → Bool}
    (rows : List.Forall₂ (fun old new => test' new = true → test old = true) before after) :
    after.countP test' ≤ before.countP test := by
  induction rows with
  | nil => exact Nat.le_refl _
  | @cons old new _ _ first _ ih =>
    -- The first entry counts for the new list only if it counts for the old one.
    rw [List.countP_cons, List.countP_cons]
    by_cases passes : test' new = true
    · rw [if_pos passes, if_pos (first passes)]
      omega
    · rw [if_neg passes]
      omega

/-- Rows that change in place keep their tags. -/
theorem zip_forall₂ {related : β → β → Prop} {before after : List β}
    (rows : List.Forall₂ related before after) (tags : List α) :
    List.Forall₂ (fun old new => new.1 = old.1 ∧ related old.2 new.2) (tags.zip before)
      (tags.zip after) := by
  -- The tags run out at the same row of both tables.
  induction rows generalizing tags with
  | nil => simp
  | cons first _ ih =>
    cases tags with
    | nil => simp
    | cons tag rest =>
      simp only [List.zip_cons_cons]
      exact .cons ⟨rfl, first⟩ (ih rest)

/-- A row added behind the others takes a tag added behind theirs. -/
theorem zip_snoc {tags : List α} {rows : List β} (aligned : tags.length = rows.length) (tag : α)
    (row : β) : (tags ++ [tag]).zip (rows ++ [row]) = tags.zip rows ++ [(tag, row)] := by
  rw [List.zip_append aligned]
  rfl

/-- Removing the row and the tag at an index removes the pair there. -/
theorem zip_eraseIdx (tags : List α) (rows : List β) (index : Nat) :
    (tags.eraseIdx index).zip (rows.eraseIdx index) = (tags.zip rows).eraseIdx index := by
  -- Both lists are walked to the index at the same pace.
  induction index generalizing tags rows with
  | zero => cases tags <;> cases rows <;> simp
  | succ index ih =>
    cases tags with
    | nil => simp
    | cons tag tags =>
      cases rows with
      | nil => simp
      | cons row rows => simp [ih tags rows]

/-- Writing the row and the tag at an index writes the pair there. -/
theorem zip_set (tags : List α) (rows : List β) (index : Nat) (tag : α) (row : β) :
    (tags.set index tag).zip (rows.set index row) = (tags.zip rows).set index (tag, row) := by
  -- The pair is written where both lists have an entry at the index, and nothing happens elsewhere.
  induction index generalizing tags rows with
  | zero => cases tags <;> cases rows <;> simp
  | succ index ih =>
    cases tags with
    | nil => simp
    | cons first tags =>
      cases rows with
      | nil => simp
      | cons head rows => simp [ih tags rows]

/-- A new item with a tag of its own keeps the tags apart. -/
theorem nodup_map_snoc {γ : Type*} {tag : α → γ} {items : List α} {item : α} (apart : (items.map tag).Nodup)
    (fresh : ∀ other ∈ items, tag other ≠ tag item) : ((items ++ [item]).map tag).Nodup := by
  rw [List.map_append, List.nodup_append]
  refine ⟨apart, by simp, fun value member last here same => ?_⟩
  obtain ⟨other, old, rfl⟩ := List.mem_map.mp member
  exact fresh other old (same.trans (List.mem_singleton.mp here))

end Tagged
