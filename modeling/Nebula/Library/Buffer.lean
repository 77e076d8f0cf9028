import Mathlib.Data.Vector.Basic
import Nebula.Library.Stdio

/-! Character arrays of a fixed size, and the library calls that write C strings into them. -/

namespace CText

/-- A char array. -/
abbrev Buffer (size : Nat) := Vector UInt8 size

namespace Buffer

variable {size : Nat}

/-- The array after some bytes were written at its beginning, the others left as they were. -/
def store (buffer : Buffer size) (bytes : Bytes) : Buffer size :=
  Vector.ofFn fun index => bytes.getD index (buffer.get index)

/-- The C string in the array, which has to end before the array does. -/
def text (buffer : Buffer size) : Bytes := cstring buffer.toList

/-- What fgets leaves in the array when it reads a line: the line and a terminator. -/
def fgetsInto (buffer : Buffer size) (line : Bytes) : Buffer size := buffer.store (line ++ [0])

/-- strncpy: at most a number of bytes of a C string, filled up with terminators if it is shorter. -/
def strncpy (buffer : Buffer size) (source : Bytes) (number : Nat) : Buffer size :=
  let bytes := (cstring source).take number
  buffer.store (bytes ++ List.replicate (number - bytes.length) 0)

/--
The assignment text[strlen(text) - 1] = '\0'.

For an empty text that is the byte before the array, and the array stays as it is.
-/
def chop (buffer : Buffer size) : Buffer size :=
  buffer.setIfInBounds (buffer.text.length - 1) 0

/-- The array has the bytes that were written, and behind them what was there. -/
theorem getElem_store (buffer : Buffer size) (bytes : Bytes) {index : Nat} (inside : index < size) :
    (buffer.store bytes)[index] = bytes.getD index buffer[index] := by
  rw [store, Vector.getElem_ofFn]
  rfl

theorem toList_store {buffer : Buffer size} {bytes : Bytes} (fits : bytes.length ≤ size) :
    (buffer.store bytes).toList = bytes ++ buffer.toList.drop bytes.length := by
  apply List.ext_getElem
  · simp [store]
    omega
  · intro index inside inside'
    rw [Vector.length_toList] at inside
    -- Below the length of the bytes there are the bytes, and behind it there is what was there.
    by_cases written : index < bytes.length
    · simp [getElem_store, written]
    · rw [List.getElem_append_right (Nat.not_lt.mp written), List.getElem_drop]
      have place : bytes.length + (index - bytes.length) = index := by omega
      simp [getElem_store, Nat.not_lt.mp written, place]

theorem getElem_store_of_le {buffer : Buffer size} {bytes : Bytes} {index : Nat} (inside : index < size)
    (behind : bytes.length ≤ index) : (buffer.store bytes)[index] = buffer[index] := by
  simp [getElem_store, behind]

/-- A C string ends at the first terminator. -/
theorem cstring_append_zero {bytes : Bytes} (plain : 0 ∉ bytes) (rest : Bytes) :
    cstring (bytes ++ 0 :: rest) = bytes := by
  have before : ∀ byte ∈ bytes, (byte != 0) = true := by
    intro byte member
    exact bne_iff_ne.mpr fun zero => plain (zero ▸ member)
  rw [cstring, List.takeWhile_append_of_pos before]
  simp

/-- A C string that ends before a terminator does not depend on what is behind it. -/
theorem cstring_append_terminator (text behind : Bytes) : cstring (text ++ 0 :: behind) = cstring text := by
  -- The text has a terminator of its own, or ends at this one.
  by_cases plain : 0 ∈ text
  · obtain ⟨before, after, rfl, fresh⟩ := List.eq_append_cons_of_mem plain
    rw [List.append_assoc, List.cons_append, cstring_append_zero fresh, cstring_append_zero fresh]
  · rw [cstring_append_zero plain, cstring_of_notMem plain]

/-- The array holds the line, its terminator, and what was there before. -/
theorem toList_fgetsInto (line : Buffer size) {read : Bytes} (fits : read.length < size) :
    (line.fgetsInto read).toList = read ++ 0 :: line.toList.drop (read.length + 1) := by
  rw [fgetsInto, toList_store (by rw [List.length_append]; exact fits), List.append_assoc,
    List.length_append]
  rfl

/-- What fgets reads is the text of the array. -/
theorem text_fgetsInto (buffer : Buffer size) {line : Bytes} (plain : 0 ∉ line) (fits : line.length < size) :
    (buffer.fgetsInto line).text = line := by
  -- The array holds the line and its terminator.
  have room : (line ++ [0]).length ≤ size := by
    rw [List.length_append, List.length_singleton]
    exact fits
  rw [text, fgetsInto, toList_store room, List.append_assoc]
  exact cstring_append_zero plain _

/-- Up to its terminator the line is what fgets has read. -/
theorem getElem_fgetsInto_eq_charAt (buffer : Buffer size) {line : Bytes} {index : Nat} (inside : index < size)
    (within : index ≤ line.length) : (buffer.fgetsInto line)[index] = charAt line index := by
  rw [fgetsInto, getElem_store buffer _ inside, charAt]
  rcases Nat.lt_or_eq_of_le within with before | rfl
  · rw [List.getD_append _ _ _ _ before, List.getD_eq_getElem _ _ before, List.getD_eq_getElem _ _ before]
  · -- Behind the line stands the terminator, as a C string has it there.
    rw [List.getD_append_right _ _ _ _ (Nat.le_refl _), Nat.sub_self, List.getD_cons_zero,
      List.getD_eq_default _ _ (Nat.le_refl _)]

/-- A terminator behind the line, or where fgets puts its own, is there afterwards. -/
theorem getElem_fgetsInto {buffer : Buffer size} {line : Bytes} {index : Nat} (inside : index < size)
    (short : line.length ≤ index) (sealed : buffer[index] = 0) : (buffer.fgetsInto line)[index] = 0 := by
  -- The terminator of fgets is at the end of the line, and what is behind it stays.
  by_cases own : index = line.length
  · simp [fgetsInto, getElem_store, own]
  · rw [fgetsInto, getElem_store_of_le inside, sealed]
    rw [List.length_append, List.length_singleton]
    omega

/-- Where the byte behind is a terminator already, strncpy leaves a text of at most so many bytes. -/
theorem text_strncpy {buffer : Buffer size} (source : Bytes) {number : Nat} (inside : number < size)
    (sealed : buffer[number] = 0) : (buffer.strncpy source number).text = (cstring source).take number := by
  have plain : 0 ∉ (cstring source).take number := fun member =>
    zero_notMem_cstring source (List.mem_of_mem_take member)
  -- With its filling the text takes up all the bytes that may be written.
  have copied : ((cstring source).take number).length ≤ number := List.length_take_le _ _
  have written : ((cstring source).take number ++
      List.replicate (number - ((cstring source).take number).length) 0).length = number := by
    rw [List.length_append, List.length_replicate]
    omega
  have next : buffer.toList.drop number = 0 :: buffer.toList.drop (number + 1) := by
    rw [List.drop_eq_getElem_cons (by simpa using inside)]
    congr 1
  rw [text, strncpy, toList_store (by omega), written, next, List.append_assoc]
  -- The first terminator is one of the filling, or the one behind it.
  cases filling : number - ((cstring source).take number).length with
  | zero => exact cstring_append_zero plain _
  | succ more => exact cstring_append_zero plain _

/--
A text that fills all the bytes that may be written is not ended by strncpy.

Read as a C string it runs on into the last byte of the array and into what is behind it.
-/
theorem cstring_strncpy {number : Nat} (buffer : Buffer (number + 1)) (source behind : Bytes) :
    cstring ((buffer.strncpy source number).toList ++ behind) =
      if (cstring source).length < number then cstring source
      else (cstring source).take number ++ cstring (buffer[number] :: behind) := by
  have plain := zero_notMem_cstring source
  have filled : ((cstring source).take number ++
      List.replicate (number - ((cstring source).take number).length) 0).length = number := by
    rw [List.length_append, List.length_replicate, List.length_take]
    omega
  have last : buffer.toList.drop number = [buffer[number]] := by
    rw [List.drop_eq_getElem_cons (by simp)]
    simp
  unfold strncpy
  dsimp only
  rw [toList_store (by omega), filled, last, List.append_assoc, List.append_assoc]
  split
  · rename_i short
    -- There is at least one terminator behind the text.
    obtain ⟨more, some⟩ : ∃ more, number - (cstring source).length = more + 1 :=
      ⟨number - (cstring source).length - 1, by omega⟩
    rw [List.take_of_length_le (by omega), some, List.replicate_succ, List.cons_append]
    exact cstring_append_zero plain _
  · have full : number - ((cstring source).take number).length = 0 := by
      rw [List.length_take]
      omega
    have inside : ∀ byte ∈ (cstring source).take number, (byte != 0) = true := fun byte member =>
      bne_iff_ne.mpr fun zero => plain (zero ▸ List.mem_of_mem_take member)
    rw [full, List.replicate_zero, List.nil_append, cstring, List.takeWhile_append_of_pos inside]
    rfl

/-- The byte behind the bytes that strncpy writes stays as it is. -/
theorem getElem_strncpy (buffer : Buffer size) (source : Bytes) {number : Nat} (inside : number < size) :
    (buffer.strncpy source number)[number] = buffer[number] := by
  have copied : ((cstring source).take number).length ≤ number := List.length_take_le _ _
  refine getElem_store_of_le inside ?_
  rw [List.length_append, List.length_replicate]
  omega

/-- Writing a terminator over the last byte of a text leaves the text without that byte. -/
theorem text_chop (buffer : Buffer size) : buffer.chop.text = buffer.text.dropLast := by
  have plain : 0 ∉ buffer.text := zero_notMem_cstring _
  obtain ⟨rest, split⟩ : buffer.text <+: buffer.toList := cstring_begins _
  -- Only the array's list matters from here on.
  have chopped : buffer.chop.text = cstring (buffer.toList.set (buffer.text.length - 1) 0) := by
    rw [text, chop, Vector.toList_setIfInBounds]
  rw [chopped]
  cases ends : buffer.text using List.reverseRecOn with
  | nil =>
    -- The first byte, if there is one, is a terminator already.
    rw [ends] at split
    cases first : buffer.toList with
    | nil => rfl
    | cons byte bytes => simp [cstring]
  | append_singleton bytes last _ =>
    rw [ends] at split plain
    -- The terminator takes the place of the last byte, so the bytes before it are the text.
    have place : (bytes ++ [last]).length - 1 = bytes.length := by simp
    rw [place, ← split, List.append_assoc, List.singleton_append, List.set_append_right _ _ (Nat.le_refl _),
      Nat.sub_self, List.set_cons_zero, List.dropLast_concat]
    exact cstring_append_zero (fun member => plain (List.mem_append_left _ member)) rest

/-- A terminator stays where a text is chopped. -/
theorem getElem_chop {buffer : Buffer size} {index : Nat} (inside : index < size) (sealed : buffer[index] = 0) :
    buffer.chop[index] = 0 := by
  rw [chop, Vector.getElem_setIfInBounds]
  split
  · rfl
  · exact sealed

end Buffer

end CText
