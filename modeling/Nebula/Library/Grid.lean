import Mathlib.Data.List.GetD
import Mathlib.Data.List.Infix
import Mathlib.Tactic.Common

/-! Cells of one size in the lines of a text: how they are laid out in rows, and where they are found again. -/

namespace Grid

variable {α : Type*}

/-- Blocks of one length are skipped as a whole. -/
theorem drop_blocks {size : Nat} {blocks : List (List α)} (even : ∀ block ∈ blocks, block.length = size)
    (index : Nat) : blocks.flatten.drop (size * index) = (blocks.drop index).flatten := by
  -- Each step skips one block, whose length is known.
  induction index generalizing blocks with
  | zero => rfl
  | succ index ih =>
    cases blocks with
    | nil => simp
    | cons block rest =>
      have first := even block List.mem_cons_self
      rw [List.flatten_cons, Nat.mul_succ, Nat.add_comm, ← List.drop_drop, ← first, List.drop_left, first,
        ih fun other member => even other (List.mem_cons_of_mem _ member)]
      rfl

/-- A block is what stands at its place. -/
theorem take_block {size : Nat} {blocks : List (List α)} (even : ∀ block ∈ blocks, block.length = size)
    (index : Nat) : (blocks.flatten.drop (size * index)).take size = (blocks[index]?).getD [] := by
  rw [drop_blocks even]
  by_cases inside : index < blocks.length
  · -- The blocks that are left begin with this one.
    have length := even blocks[index] (List.getElem_mem inside)
    rw [List.drop_eq_getElem_cons inside, List.flatten_cons, List.getElem?_eq_getElem inside, Option.getD_some,
      List.take_left' length]
  · rw [List.drop_eq_nil_of_le (Nat.not_lt.mp inside), List.getElem?_eq_none (Nat.not_lt.mp inside)]
    exact List.take_nil

/-- Cells one after the other, with a separator and a margin behind each row that is full. -/
def layout (separator : α) (margin : List α) (width : Nat) : Nat → List (List α) → List α
  | _, [] => []
  | filled, cell :: rest =>
    if filled + 1 = width then cell ++ separator :: (margin ++ layout separator margin width 0 rest)
    else cell ++ layout separator margin width (filled + 1) rest

/-- What stands in a text at a row and a column of cells of a size, behind a margin. -/
def cellAt [BEq α] (separator : α) (margin size : Nat) (text : List α) (row column : Nat) : List α :=
  (((text.splitOn separator).getD row []).drop (margin + size * column)).take size

section Layout

variable {separator : α} {margin : List α} {size width : Nat}

/-- A cell that a line holds. -/
def IsCell (separator : α) (size : Nat) (cell : List α) : Prop := cell.length = size ∧ separator ∉ cell

/-- Behind the margin of a row stand its cells, and nothing behind them. -/
theorem cell_of_row {cells : List (List α)} (each : ∀ cell ∈ cells, IsCell separator size cell)
    (fits : cells.length ≤ width) (column : Nat) :
    ((margin ++ cells.flatten).drop (margin.length + size * column)).take size =
      if column < width then (cells[column]?).getD [] else [] := by
  -- Without the margin the row is its blocks.
  rw [← List.drop_drop, List.drop_left, take_block fun cell member => (each cell member).1]
  split
  · rfl
  · rw [List.getElem?_eq_none (by omega), Option.getD_none]

/-- A row has no separator in it. -/
theorem separator_notMem_row (plain : separator ∉ margin) {cells : List (List α)}
    (each : ∀ cell ∈ cells, IsCell separator size cell) : separator ∉ margin ++ cells.flatten := by
  rw [List.mem_append, List.mem_flatten, not_or]
  exact ⟨plain, fun ⟨cell, member, inside⟩ => (each cell member).2 inside⟩

/-- Cells are found where their numbers, divided by the width of a row, say, and nowhere else. -/
theorem cellAt_layout [BEq α] [LawfulBEq α] (plain : separator ∉ margin) (positive : 0 < width)
    {done cells : List (List α)} (begun : done.length < width)
    (each : ∀ cell ∈ done ++ cells, IsCell separator size cell) (row column : Nat) :
    cellAt separator margin.length size
        (margin ++ (done.flatten ++ layout separator margin width done.length cells)) row column =
      if column < width then ((done ++ cells)[width * row + column]?).getD [] else [] := by
  -- The induction is on the cells to come; those of the row so far are what is done.
  induction cells generalizing done row with
  | nil =>
    rw [List.append_nil] at each ⊢
    rw [layout, List.append_nil, cellAt, List.splitOn_eq_singleton (separator_notMem_row plain each)]
    cases row with
    | zero =>
      rw [List.getD_cons_zero, cell_of_row each (Nat.le_of_lt begun), Nat.mul_zero, Nat.zero_add]
    | succ row =>
      -- There is no further row, and no further cell.
      rw [List.getD_cons_succ, List.getD_nil, List.drop_nil, List.take_nil, List.getElem?_eq_none]
      · exact (ite_self _).symm
      · rw [Nat.mul_succ]
        omega
  | cons cell rest ih =>
    have spread : done ++ cell :: rest = (done ++ [cell]) ++ rest := by
      rw [List.append_assoc]
      rfl
    have length : (done ++ [cell]).length = done.length + 1 := by
      rw [List.length_append, List.length_singleton]
    have joined : (done ++ [cell]).flatten = done.flatten ++ cell := by
      rw [List.flatten_append, List.flatten_singleton]
    rw [spread] at each ⊢
    rw [layout]
    split
    · rename_i full
      -- The row is full, and the others are those of the cells to come.
      have rowEach : ∀ other ∈ done ++ [cell], IsCell separator size other := fun other member =>
        each other (List.mem_append_left _ member)
      have text : margin ++ (done.flatten ++ (cell ++ separator :: (margin ++ layout separator margin width 0 rest))) =
          (margin ++ (done ++ [cell]).flatten) ++
            separator :: (margin ++ (([] : List (List α)).flatten ++ layout separator margin width 0 rest)) := by
        rw [joined, List.flatten_nil, List.nil_append, List.append_assoc, List.append_assoc]
      rw [text, cellAt, List.splitOn_append_cons_self_of_not_mem (separator_notMem_row plain rowEach)]
      cases row with
      | zero =>
        have fits : (done ++ [cell]).length = width := length.trans full
        rw [List.getD_cons_zero, cell_of_row rowEach (Nat.le_of_eq fits), Nat.mul_zero, Nat.zero_add]
        split
        · rename_i inside
          have here : column < (done ++ [cell]).length := fits ▸ inside
          rw [List.getElem?_append_left here]
        · rfl
      | succ row =>
        have later : cellAt separator margin.length size
            (margin ++ (([] : List (List α)).flatten ++ layout separator margin width 0 rest)) row column =
            if column < width then (rest[width * row + column]?).getD [] else [] :=
          @ih [] positive (fun other member => each other (List.mem_append_right _ member)) row
        have place : width * (row + 1) + column = (done ++ [cell]).length + (width * row + column) := by
          rw [Nat.mul_succ]
          omega
        rw [cellAt] at later
        rw [List.getD_cons_succ, later, place, List.getElem?_append_right (Nat.le_add_right _ _),
          Nat.add_sub_cancel_left]
    · rename_i more
      have text : margin ++ (done.flatten ++ (cell ++ layout separator margin width (done.length + 1) rest)) =
          margin ++ ((done ++ [cell]).flatten ++ layout separator margin width (done ++ [cell]).length rest) := by
        rw [joined, length, List.append_assoc]
      rw [text]
      exact ih (by omega) each row

/-- Lines above a text move its rows down. -/
theorem cellAt_below [BEq α] [LawfulBEq α] {lines : List (List α)} (plain : ∀ line ∈ lines, separator ∉ line)
    (offset : Nat) (text : List α) (row column : Nat) :
    cellAt separator offset size ((lines.map (· ++ [separator])).flatten ++ text) (lines.length + row) column =
      cellAt separator offset size text row column := by
  -- Each line is split off with its separator.
  induction lines with
  | nil => rw [List.map_nil, List.flatten_nil, List.nil_append, List.length_nil, Nat.zero_add]
  | cons line lines ih =>
    rw [← ih fun other member => plain other (List.mem_cons_of_mem _ member), List.map_cons, List.flatten_cons,
      List.append_assoc, List.append_assoc, List.singleton_append, cellAt, cellAt,
      List.splitOn_append_cons_self_of_not_mem (plain line List.mem_cons_self), List.length_cons,
      Nat.succ_add, List.getD_cons_succ]

/-- Behind a text the rows are those of what follows. -/
theorem cellAt_above [BEq α] [LawfulBEq α] (offset : Nat) (text below : List α) (row column : Nat) :
    cellAt separator offset size (text ++ separator :: below) row column =
      if row < (text.splitOn separator).length then cellAt separator offset size text row column
      else cellAt separator offset size below (row - (text.splitOn separator).length) column := by
  rw [cellAt, List.splitOn_append_cons_self]
  -- The lines of the text come first, and then those of what follows.
  split
  · rename_i inside
    rw [List.getD_append _ _ _ _ inside, cellAt]
  · rename_i behind
    rw [List.getD_append_right _ _ _ _ (Nat.not_lt.mp behind), cellAt]

/-- There is nothing in the rows behind a text. -/
theorem cellAt_of_le [BEq α] (offset : Nat) {text : List α} {row : Nat}
    (behind : (text.splitOn separator).length ≤ row) (column : Nat) :
    cellAt separator offset size text row column = [] := by
  rw [cellAt, List.getD_eq_default _ _ behind, List.drop_nil, List.take_nil]

end Layout

end Grid
