import Mathlib.Algebra.GroupWithZero.Nat
import Mathlib.Data.List.SplitLengths
import Mathlib.Tactic.Common

/-! The bytes of a file that several writers share, each with the record that it was written for. -/

/-- A byte of a file, with the number of its record if it belongs to one. -/
structure Cell (α : Type*) where
  byte : α
  origin : Option Nat
  deriving DecidableEq, Repr

namespace Cell

variable {α : Type*}

/-- Bytes that belong to no record. -/
def plain (bytes : List α) : List (Cell α) := bytes.map fun byte => ⟨byte, none⟩

/-- The bytes of a record. -/
def record (number : Nat) (bytes : List α) : List (Cell α) := bytes.map fun byte => ⟨byte, some number⟩

/-- Records that are numbered from a start. -/
def records (start : Nat) : List (List α) → List (List (Cell α))
  | [] => []
  | bytes :: later => record start bytes :: records (start + 1) later

/-- A record is in a file, whole and exactly once. -/
def WholeOnce (content : List (Cell α)) (number : Nat) (bytes : List α) : Prop :=
  ∃ before after, content = before ++ record number bytes ++ after ∧
    ∀ cell ∈ before ++ after, cell.origin ≠ some number

/-- How many bytes of a record are in a file. -/
def marks (number : Nat) (content : List (Cell α)) : Nat :=
  content.countP fun cell => cell.origin = some number

/-- What pwrite makes of a file that is at least as long as the offset. -/
def overwrite (content : List (Cell α)) (offset : Nat) (chunk : List (Cell α)) : List (Cell α) :=
  content.take offset ++ chunk ++ content.drop (offset + chunk.length)

theorem bytes_plain (bytes : List α) : (plain bytes).map byte = bytes := by
  simp [plain, Function.comp_def]

theorem bytes_record (number : Nat) (bytes : List α) : (record number bytes).map byte = bytes := by
  simp [record, Function.comp_def]

theorem origin_plain {bytes : List α} : ∀ cell ∈ plain bytes, cell.origin = none := by
  intro cell member
  obtain ⟨byte, -, rfl⟩ := List.mem_map.mp member
  rfl

@[simp] theorem length_records (start : Nat) (recs : List (List α)) :
    (records start recs).length = recs.length := by
  induction recs generalizing start with
  | nil => rfl
  | cons bytes later ih => simp [records, ih]

theorem records_append (start : Nat) (recs later : List (List α)) :
    records start (recs ++ later) = records start recs ++ records (start + recs.length) later := by
  induction recs generalizing start with
  | nil => simp [records]
  | cons bytes recs ih =>
    rw [List.cons_append, records, ih, records, List.cons_append, List.length_cons]
    congr 2
    rw [Nat.add_right_comm, Nat.add_assoc]

/-- Records that are dropped at the front leave the numbers of the others as they are. -/
theorem records_drop (start dropped : Nat) (recs : List (List α)) :
    (records start recs).drop dropped = records (start + dropped) (recs.drop dropped) := by
  induction recs generalizing start dropped with
  | nil => simp [records]
  | cons bytes later ih =>
    cases dropped with
    | zero => rfl
    | succ dropped =>
      rw [records, List.drop_succ_cons, List.drop_succ_cons, ih, Nat.add_right_comm, Nat.add_assoc]

theorem bytes_records (start : Nat) (recs : List (List α)) :
    (records start recs).map (List.map byte) = recs := by
  induction recs generalizing start with
  | nil => rfl
  | cons bytes later ih => rw [records, List.map_cons, bytes_record, ih]

/-- The bytes of some records belong to one of them. -/
theorem origin_records {start : Nat} {recs : List (List α)} :
    ∀ cell ∈ (records start recs).flatten,
      ∃ number, cell.origin = some number ∧ start ≤ number ∧ number < start + recs.length := by
  induction recs generalizing start with
  | nil => simp [records]
  | cons bytes later ih =>
    intro cell member
    rw [records, List.flatten_cons, List.mem_append] at member
    rw [List.length_cons]
    -- The first record has the first number, and the others have the numbers behind it.
    rcases member with here | there
    · obtain ⟨byte, -, rfl⟩ := List.mem_map.mp here
      exact ⟨start, rfl, Nat.le_refl _, by omega⟩
    · obtain ⟨number, origin, above, below⟩ := ih cell there
      exact ⟨number, origin, by omega, by omega⟩

theorem marks_append (number : Nat) (content more : List (Cell α)) :
    marks number (content ++ more) = marks number content + marks number more :=
  List.countP_append

/-- No byte of a record is where all bytes have other origins. -/
theorem marks_eq_zero {number : Nat} {content : List (Cell α)}
    (others : ∀ cell ∈ content, cell.origin ≠ some number) : marks number content = 0 := by
  rw [marks, List.countP_eq_zero]
  exact fun cell member => by simpa using others cell member

theorem marks_record (number : Nat) (bytes : List α) : marks number (record number bytes) = bytes.length := by
  rw [marks, record, List.countP_map, List.countP_eq_length.mpr (fun byte _ => by simp)]

theorem marks_plain {number : Nat} {content : List (Cell α)} (unowned : ∀ cell ∈ content, cell.origin = none) :
    marks number content = 0 :=
  marks_eq_zero fun cell member => by simp [unowned cell member]

/-- Where bytes are gone at the front, the first record is no longer whole. -/
theorem marks_drop_records {number gone : Nat} (some : 0 < gone) {bytes : List α}
    (nonempty : 0 < bytes.length) (later : List (List α)) :
    marks number ((records number (bytes :: later)).flatten.drop gone) < bytes.length := by
  obtain ⟨gone, rfl⟩ := Nat.exists_eq_add_one_of_ne_zero (Nat.pos_iff_ne_zero.mp some)
  obtain ⟨byte, rest, rfl⟩ := List.exists_cons_of_length_pos nonempty
  -- Behind its first byte, the record has as many bytes as its rest has, and the later ones have others.
  have behind : marks number (records (number + 1) later).flatten = 0 := by
    refine marks_eq_zero fun cell member => ?_
    obtain ⟨other, origin, above, -⟩ := origin_records cell member
    rw [origin, Ne, Option.some.injEq]
    omega
  have tail : marks number (record number rest ++ (records (number + 1) later).flatten) = rest.length := by
    rw [marks_append, marks_record, behind, Nat.add_zero]
  -- Dropping more leaves no more of the record.
  have fewer := (List.drop_sublist gone (record number rest ++ (records (number + 1) later).flatten)).countP_le
    (p := fun cell => cell.origin = Option.some number)
  rw [records, List.flatten_cons, record, List.map_cons, List.cons_append, List.drop_succ_cons,
    List.length_cons]
  exact Nat.lt_succ_of_le (Nat.le_trans fewer (Nat.le_of_eq tail))

/-- A record that is whole and there once has all its bytes there. -/
theorem WholeOnce.marks {content : List (Cell α)} {number : Nat} {bytes : List α}
    (whole : WholeOnce content number bytes) : marks number content = bytes.length := by
  obtain ⟨before, after, rfl, others⟩ := whole
  -- No byte before the record or behind it is one of its own.
  have left := marks_eq_zero fun cell member => others cell (List.mem_append_left after member)
  have right := marks_eq_zero fun cell member => others cell (List.mem_append_right before member)
  rw [marks_append, marks_append, marks_record, left, right]
  omega

/-- Records that are written one behind the other are whole, and there once. -/
theorem wholeOnce_records {front : List (Cell α)} (unowned : ∀ cell ∈ front, cell.origin = none)
    {recs : List (List α)} {number : Nat} {bytes : List α} (here : recs[number]? = some bytes) :
    WholeOnce (front ++ (records 0 recs).flatten) number bytes := by
  -- The records before it have smaller numbers, and those behind it have larger ones.
  obtain ⟨inside, rfl⟩ := List.getElem?_eq_some_iff.mp here
  have parts : recs = recs.take number ++ recs[number] :: recs.drop (number + 1) := by
    rw [List.getElem_cons_drop, List.take_append_drop]
  have length : (recs.take number).length = number := by
    rw [List.length_take]
    omega
  refine ⟨front ++ (records 0 (recs.take number)).flatten,
    (records (number + 1) (recs.drop (number + 1))).flatten, ?_, ?_⟩
  · conv_lhs => rw [parts]
    rw [records_append, length, Nat.zero_add, records, List.flatten_append, List.flatten_cons]
    simp only [List.append_assoc]
  · intro cell member
    rw [List.mem_append, List.mem_append] at member
    rcases member with (unmarked | earlier) | later
    · simp [unowned cell unmarked]
    · obtain ⟨other, origin, -, below⟩ := origin_records cell earlier
      rw [origin, Ne, Option.some.injEq]
      omega
    · obtain ⟨other, origin, above, -⟩ := origin_records cell later
      rw [origin, Ne, Option.some.injEq]
      omega

/-- Writing at the end of a file appends to it. -/
theorem overwrite_end (content chunk : List (Cell α)) :
    overwrite content content.length chunk = content ++ chunk := by
  simp [overwrite]

theorem overwrite_nil (content : List (Cell α)) (offset : Nat) : overwrite content offset [] = content := by
  simp [overwrite]

theorem length_overwrite {content : List (Cell α)} {offset : Nat} (inside : offset ≤ content.length)
    (chunk : List (Cell α)) : offset + chunk.length ≤ (overwrite content offset chunk).length := by
  simp only [overwrite, List.length_append, List.length_take]
  omega

/-- Two chunks that are written in turn are written like one. -/
theorem overwrite_overwrite {content : List (Cell α)} {offset : Nat} (inside : offset ≤ content.length)
    (chunk later : List (Cell α)) :
    overwrite (overwrite content offset chunk) (offset + chunk.length) later =
      overwrite content offset (chunk ++ later) := by
  -- The second chunk starts where the first one ends.
  have front : (content.take offset ++ chunk).length = offset + chunk.length := by
    rw [List.length_append, List.length_take]
    omega
  have taken : (overwrite content offset chunk).take (offset + chunk.length) = content.take offset ++ chunk := by
    rw [overwrite, List.take_append_of_le_length (by omega), List.take_of_length_le (by omega)]
  have dropped : (overwrite content offset chunk).drop (offset + chunk.length + later.length) =
      content.drop (offset + (chunk ++ later).length) := by
    rw [overwrite, List.drop_append, List.drop_eq_nil_of_le (by omega), front, List.nil_append,
      List.drop_drop, List.length_append]
    congr 1
    omega
  rw [overwrite, taken, dropped, overwrite, List.append_assoc (content.take offset)]

/-- What is appended behind a file is overwritten only where the file ends before the chunk does. -/
theorem overwrite_append {content : List (Cell α)} {offset : Nat} (inside : offset ≤ content.length)
    (more chunk : List (Cell α)) :
    overwrite (content ++ more) offset chunk =
      overwrite content offset chunk ++ more.drop (offset + chunk.length - content.length) := by
  rw [overwrite, overwrite, List.take_append_of_le_length inside, List.drop_append]
  simp only [List.append_assoc]

/-- Sizes that use up the first part split the second part by itself. -/
theorem splitLengths_append {sizes : List Nat} {front : List α} (used : sizes.sum = front.length)
    (sizes' : List Nat) (rest : List α) :
    (sizes ++ sizes').splitLengths (front ++ rest) = sizes.splitLengths front ++ sizes'.splitLengths rest := by
  induction sizes generalizing front with
  | nil =>
    obtain rfl := List.length_eq_zero_iff.mp used.symm
    rfl
  | cons size sizes ih =>
    rw [List.sum_cons] at used
    -- The first size takes its part from the front, and the others use up what is left of it.
    have left : sizes.sum = (front.drop size).length := by
      rw [List.length_drop]
      omega
    rw [List.cons_append, List.splitLengths_cons, List.splitLengths_cons, List.cons_append,
      List.take_append_of_le_length (by omega), List.drop_append_of_le_length (by omega), ih left]

/-- Parts that are joined are split again by their lengths. -/
theorem splitLengths_flatten (parts : List (List α)) :
    (parts.map List.length).splitLengths parts.flatten = parts := by
  induction parts with
  | nil => rfl
  | cons part parts ih =>
    rw [List.map_cons, List.flatten_cons, List.splitLengths_cons, List.take_left, List.drop_left, ih]

theorem splitLengths_map {β : Type*} (f : α → β) (sizes : List Nat) (items : List α) :
    (sizes.splitLengths items).map (List.map f) = sizes.splitLengths (items.map f) := by
  induction sizes generalizing items with
  | nil => rfl
  | cons size sizes ih =>
    rw [List.splitLengths_cons, List.map_cons, ih, List.splitLengths_cons, List.map_take, List.map_drop]

end Cell
