import Mathlib.Data.List.Forall2
import Nebula.Library.Buffer
import Nebula.Library.SlotArray

/-! Rows of characters that names are copied into, as many of those that pass a test as there are rows. -/

namespace RowTable

open CText

variable {size cap : Nat}

/-- One turn of the loop: the next row gets the name, but for its last byte. -/
def put (keep : Bytes → Bool) (rows : SlotArray (Buffer (size + 1)) cap) (name : Bytes) :
    SlotArray (Buffer (size + 1)) cap :=
  if room : rows.count < cap then
    if keep name then rows.append room ((rows.get (rows.nextSlot room)).strncpy name size) else rows
  else rows

/-- The loop over the names, from the first row on. -/
def fill (keep : Bytes → Bool) (rows : SlotArray (Buffer (size + 1)) cap) (names : List Bytes) :
    SlotArray (Buffer (size + 1)) cap := names.foldl (put keep) rows.clear

/-- The names that rows are filled with. -/
def kept (keep : Bytes → Bool) (cap : Nat) (names : List Bytes) : List Bytes := (names.filter keep).take cap

/-- The C string that begins with a row, with the rows and the memory behind it. -/
def text (rows : SlotArray (Buffer (size + 1)) cap) (behind : Bytes) (index : Nat) : Bytes :=
  cstring (((rows.cells.toList.drop index).map Vector.toList).flatten ++ behind)

/-- The C strings that begin with the rows in use. -/
def texts (rows : SlotArray (Buffer (size + 1)) cap) (behind : Bytes) : List Bytes :=
  (List.range rows.count).map (text rows behind)

/-- A name was copied into a row, over whatever was in it. -/
def Copied (row : Buffer (size + 1)) (name : Bytes) : Prop := ∃ old : Buffer (size + 1), row = old.strncpy name size

/-- One more name is kept if it passes the test and the rows are not used up. -/
theorem kept_append (keep : Bytes → Bool) (cap : Nat) (names : List Bytes) (name : Bytes) :
    kept keep cap (names ++ [name]) =
      if (kept keep cap names).length < cap ∧ keep name = true then kept keep cap names ++ [name]
      else kept keep cap names := by
  have length : (kept keep cap names).length = min cap (names.filter keep).length := List.length_take
  rw [length]
  unfold kept
  rw [List.filter_append, List.take_append]
  by_cases passes : keep name = true
  · by_cases room : (names.filter keep).length < cap
    · obtain ⟨left, some⟩ := Nat.exists_eq_add_of_lt room
      rw [if_pos ⟨by omega, passes⟩, show cap - (names.filter keep).length = left + 1 by omega]
      simp [passes]
    · rw [if_neg fun both => room (by omega), Nat.sub_eq_zero_of_le (Nat.not_lt.mp room), List.take_zero,
        List.append_nil]
  · rw [if_neg fun both => passes both.2]
    simp [passes]

/-- Row by row, the names that are kept are copied. -/
theorem copied_fill (keep : Bytes → Bool) (rows : SlotArray (Buffer (size + 1)) cap) (names : List Bytes) :
    List.Forall₂ Copied (fill keep rows names).entries (kept keep cap names) := by
  -- The loop takes the names from the left, so the last one comes to the rows of the others.
  induction names using List.reverseRecOn with
  | nil => simp [kept, fill]
  | append_singleton names name ih =>
    have count : (fill keep rows names).count = (kept keep cap names).length := by
      rw [← ih.length_eq, SlotArray.length_entries]
    have turn : fill keep rows (names ++ [name]) = put keep (fill keep rows names) name := by
      rw [fill, List.foldl_append]
      rfl
    rw [turn, kept_append, put, ← count]
    by_cases room : (fill keep rows names).count < cap
    · rw [dif_pos room]
      by_cases passes : keep name = true
      · rw [if_pos passes, if_pos ⟨room, passes⟩, SlotArray.entries_append]
        exact List.rel_append ih (.cons ⟨_, rfl⟩ .nil)
      · rw [if_neg passes, if_neg fun both => passes both.2]
        exact ih
    · rw [dif_neg room, if_neg fun both => room both.1]
      exact ih

/-- A row has room for a name with its terminator, which is then the text that begins with the row. -/
theorem text_of_copied {rows : SlotArray (Buffer (size + 1)) cap} {slot : Fin cap} {name : Bytes}
    (copied : Copied (rows.get slot) name) (plain : 0 ∉ name) (short : name.length < size) (behind : Bytes) :
    text rows behind slot.val = name := by
  obtain ⟨old, written⟩ := copied
  have whole := cstring_of_notMem plain
  -- The bytes from the row on begin with the row itself.
  rw [text, List.drop_eq_getElem_cons (by simp), List.map_cons, List.flatten_cons, List.append_assoc,
    Vector.getElem_toList, ← SlotArray.get, written, Buffer.cstring_strncpy, whole,
    if_pos short]

/-- Where every name is short, the rows read as the names that were kept. -/
theorem texts_fill (keep : Bytes → Bool) (rows : SlotArray (Buffer (size + 1)) cap) {names : List Bytes}
    (each : ∀ name ∈ names, 0 ∉ name ∧ name.length < size) (behind : Bytes) :
    texts (fill keep rows names) behind = kept keep cap names := by
  have copied := copied_fill keep rows names
  have count : (fill keep rows names).count = (kept keep cap names).length := by
    rw [← copied.length_eq, SlotArray.length_entries]
  apply List.ext_getElem
  · rw [texts, List.length_map, List.length_range, count]
  · intro index inside inside'
    have fits : index < cap := by
      have limit := (fill keep rows names).count_le
      omega
    have listed : (kept keep cap names)[index] ∈ names :=
      List.mem_of_mem_filter (List.mem_of_mem_take (List.getElem_mem inside'))
    simp only [texts, List.getElem_map, List.getElem_range]
    -- The row of the index is the one that the name was copied into.
    have live := (fill keep rows names).getElem?_entries ⟨index, fits⟩ (by rw [count]; exact inside')
    obtain ⟨rowThere, row⟩ := List.getElem?_eq_some_iff.mp live
    have here := copied.get rowThere inside'
    rw [List.get_eq_getElem, List.get_eq_getElem, row] at here
    exact text_of_copied here (each _ listed).1 (each _ listed).2 behind

end RowTable
