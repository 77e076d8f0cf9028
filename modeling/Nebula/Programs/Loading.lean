import Nebula.Library.TextLines
import Nebula.Programs.Terminal
import Nebula.Programs.TodoList

/-! What load_todos reads of its line and writes of its items, for any file. -/

namespace Nebula

open CText

/-- What one turn of the loop of load_todos touches. -/
structure LoadAccess where
  /-- The bytes that fgets has just stored, without its terminator. -/
  line : Bytes
  /-- The indices at which the line array is read. -/
  read : List Nat
  /-- The indices at which the text of an item is written. -/
  written : List Int

namespace LoadAccess

/-- A line that is no item: only its first byte is looked at. -/
def ofOther (read : Bytes) : LoadAccess := ⟨read, [0], []⟩

/--
A line that starts with a bracket, which the line array holds now, for an item's array.

strncpy reads from the fifth byte on up to a terminator or its bound and writes all the bytes up to the
bound, and then the byte before the end of the text is written, wherever that is.
-/
def ofItem (read : Bytes) (line : Buffer (todoSize + 8)) (t : Todo) : LoadAccess where
  line := read
  read :=
    let source := cstring (line.toList.drop 4)
    0 :: 1 :: (List.range (min (todoSize - 1) (source.length + 1))).map (4 + ·)
  written :=
    let text := t.text.strncpy (line.toList.drop 4) (todoSize - 1)
    (List.range (todoSize - 1)).map Int.ofNat ++ [(text.text.length : Int) - 1]

/-- The line is read up to its terminator only, and the text is written inside its array. -/
def Safe (ends : Bytes → Nat) (a : LoadAccess) : Prop :=
  (∀ index ∈ a.read, index ≤ ends a.line) ∧ ∀ index ∈ a.written, 0 ≤ index ∧ index < todoSize

end LoadAccess

namespace Todos

theorem todoLine_pos : 0 < todoSize + 8 := by decide

/-- What the loop of load_todos touches, turn by turn. -/
def loadAccesses (line : Buffer (todoSize + 8)) (todos : Todos) : List Bytes → List LoadAccess
  | [] => []
  | read :: later =>
    if room : todos.count < maxTodos then
      let line := line.fgetsInto read
      if line.get ⟨0, todoLine_pos⟩ = ch '[' then
        let t := todos.get (todos.nextSlot room)
        .ofItem read line t :: loadAccesses line (todos.append room (t.ofLine line)) later
      else .ofOther read :: loadAccesses line todos later
    else []

end Todos

/-- A line that load_todos takes for an item. -/
def startsItem (line : Bytes) : Bool := charAt line 0 == ch '['

/-- The lines of a file that load_todos takes for items: the first fifty that start with a bracket. -/
def itemLines (content : Bytes) : List Bytes :=
  ((fgetsAll (todoSize + 8) content).filter startsItem).take maxTodos

/--
load_todos is safe on a file, in a line array that holds what the stack does.

Where a line ends is where fgets puts its terminator, or where the first terminator is.
-/
structure LoadsSafely (ends : Bytes → Nat) (line : Buffer (todoSize + 8)) (content : Bytes) : Prop where
  inside : ∀ a ∈ Todos.loadAccesses line (.empty maxTodos) (fgetsAll (todoSize + 8) content), a.Safe ends
  few : (Todos.load line (some content)).items.length ≤ 50
  /-- Each item is made from a line of its own that starts with a bracket. -/
  made : ∃ lines : List Bytes, lines.Sublist (fgetsAll (todoSize + 8) content) ∧
    (∀ item ∈ lines, item.head? = some (ch '[')) ∧
    (Todos.load line (some content)).items = lines.map itemOf

/-- A line that reaches behind its mark, where its text begins. -/
def Enough (ends : Bytes → Nat) (line : Bytes) : Prop := 4 ≤ ends line ∧ charAt line 4 ≠ 0

section Safety

variable {ends : Bytes → Nat}

/-- The accesses for an item are safe exactly if its line reaches behind the mark. -/
theorem safe_ofItem_iff (within : ∀ line, ends line ≤ line.length)
    (reach : ∀ line, 4 ≤ ends line → 4 + (cstring (line.drop 4)).length ≤ ends line)
    (t : Todo) (line : Buffer (todoSize + 8)) {read : Bytes} (fits : read.length < todoSize + 8) :
    (LoadAccess.ofItem read (line.fgetsInto read) t).Safe ends ↔ Enough ends read := by
  have stored := Buffer.toList_fgetsInto line fits
  have size : todoSize = 128 := rfl
  have text : (t.text.strncpy ((line.fgetsInto read).toList.drop 4) (todoSize - 1)).text =
      (cstring ((line.fgetsInto read).toList.drop 4)).take (todoSize - 1) :=
    Buffer.text_strncpy _ (by decide) t.ended
  -- From the fifth byte on the array holds the rest of the line, if the line is so long.
  have source : 4 ≤ read.length →
      cstring ((line.fgetsInto read).toList.drop 4) = cstring (read.drop 4) := by
    intro long
    rw [stored, List.drop_append_of_le_length long, Buffer.cstring_append_terminator]
  constructor
  · intro ⟨inside, written⟩
    -- strncpy reads at least one byte, the fifth.
    have fifth : 4 ≤ ends read := inside 4 (by
      simp only [LoadAccess.ofItem, List.mem_cons, List.mem_map, List.mem_range]
      exact Or.inr (Or.inr ⟨0, by omega, rfl⟩))
    refine ⟨fifth, fun ended => ?_⟩
    -- Without a text the byte before the array is written.
    have last := written _ (List.mem_append_right _ (List.mem_singleton_self _))
    have empty := cstring_drop_eq_nil.mpr ended
    rw [text, source (Nat.le_trans fifth (within read)), empty] at last
    exact absurd last.1 (by decide)
  · intro ⟨fifth, more⟩
    have long := length_of_charAt more
    refine ⟨fun index member => ?_, fun index member => ?_⟩
    · simp only [LoadAccess.ofItem, List.mem_cons, List.mem_map, List.mem_range, source (by omega)] at member
      have bound := reach read fifth
      show index ≤ ends read
      rcases member with rfl | rfl | ⟨behind, inside, rfl⟩
      · omega
      · omega
      · omega
    · have positive := List.length_pos_iff.mpr (mt cstring_drop_eq_nil.mp more)
      simp only [LoadAccess.ofItem, List.mem_append, List.mem_map, List.mem_range, List.mem_singleton, text,
        source (by omega), List.length_take] at member
      rcases member with ⟨place, inside, rfl⟩ | rfl
      · rw [Int.ofNat_eq_natCast]
        omega
      · omega

/-- A turn for a line that is no item is safe. -/
theorem safe_ofOther (read : Bytes) : (LoadAccess.ofOther read).Safe ends :=
  ⟨fun _ member => Nat.le_of_eq (List.mem_singleton.mp member) |>.trans (Nat.zero_le _),
    fun _ member => absurd member List.not_mem_nil⟩

theorem startsItem_iff {line : Bytes} : startsItem line = true ↔ charAt line 0 = ch '[' := beq_iff_eq

/-- The loop is safe exactly if the lines that it takes for items are long enough. -/
theorem accesses_safe_iff (within : ∀ line, ends line ≤ line.length)
    (reach : ∀ line, 4 ≤ ends line → 4 + (cstring (line.drop 4)).length ≤ ends line)
    {reads : List Bytes} (fits : ∀ read ∈ reads, read.length < todoSize + 8)
    (line : Buffer (todoSize + 8)) (todos : Todos) :
    (∀ a ∈ Todos.loadAccesses line todos reads, a.Safe ends) ↔
      ∀ read ∈ (reads.filter startsItem).take (maxTodos - todos.count), Enough ends read := by
  -- The induction follows the loop, which takes one line of the fifty for each item that it makes.
  induction reads generalizing line todos with
  | nil => simp [Todos.loadAccesses]
  | cons read later ih =>
    have fits' : ∀ other ∈ later, other.length < todoSize + 8 := fun other member =>
      fits other (List.mem_cons_of_mem _ member)
    rw [Todos.loadAccesses]
    by_cases room : todos.count < maxTodos
    · rw [dif_pos room]
      dsimp only
      have first : (line.fgetsInto read).get ⟨0, Todos.todoLine_pos⟩ = charAt read 0 :=
        line.getElem_fgetsInto_eq_charAt Todos.todoLine_pos (Nat.zero_le _)
      rw [first]
      by_cases item : startsItem read = true
      · have left : maxTodos - todos.count = maxTodos - (todos.count + 1) + 1 := by omega
        rw [if_pos (startsItem_iff.mp item), List.forall_mem_cons, List.filter_cons_of_pos item, left,
          List.take_succ_cons, List.forall_mem_cons, ih fits', SlotArray.count_append,
          safe_ofItem_iff within reach _ _ (fits read List.mem_cons_self)]
      · rw [if_neg (mt startsItem_iff.mpr item), List.forall_mem_cons, List.filter_cons_of_neg item, ih fits']
        exact and_iff_right (safe_ofOther read)
    · rw [dif_neg room, Nat.sub_eq_zero_of_le (Nat.not_lt.mp room)]
      simp

end Safety

/-- From lines that are long enough the loop makes one item each. -/
theorem Todos.items_loadLines_of_enough {reads : List Bytes} (fits : ∀ read ∈ reads, read.length < todoSize + 8)
    (line : Buffer (todoSize + 8)) (todos : Todos)
    (enough : ∀ read ∈ (reads.filter startsItem).take (maxTodos - todos.count), charAt read 4 ≠ 0) :
    (loadLines line todos reads).items =
      todos.items ++ ((reads.filter startsItem).take (maxTodos - todos.count)).map itemOf := by
  -- The induction follows the loop, as for its accesses.
  induction reads generalizing line todos with
  | nil => simp [loadLines]
  | cons read later ih =>
    have fits' : ∀ other ∈ later, other.length < todoSize + 8 := fun other member =>
      fits other (List.mem_cons_of_mem _ member)
    rw [loadLines]
    by_cases room : todos.count < maxTodos
    · rw [dif_pos room]
      dsimp only
      rw [line.getElem_fgetsInto_eq_charAt (by decide) (Nat.zero_le _)]
      by_cases item : startsItem read = true
      · have left : maxTodos - todos.count = maxTodos - (todos.count + 1) + 1 := by omega
        rw [List.filter_cons_of_pos item, left, List.take_succ_cons, List.forall_mem_cons] at enough
        have made := Todo.item_ofLine_of_enough (todos.get (todos.nextSlot room)) line (fits read List.mem_cons_self)
          enough.1
        rw [if_pos (startsItem_iff.mp item), List.filter_cons_of_pos item, left, List.take_succ_cons, List.map_cons,
          ih fits' _ _ (by rw [SlotArray.count_append]; exact enough.2), items, SlotArray.entries_append,
          List.map_append, List.map_singleton, made, SlotArray.count_append, List.append_assoc]
        rfl
      · rw [List.filter_cons_of_neg item] at enough ⊢
        rw [if_neg (mt startsItem_iff.mpr item), ih fits' _ _ enough]
    · rw [dif_neg room, Nat.sub_eq_zero_of_le (Nat.not_lt.mp room)]
      simp

/-- What load_todos reads are lines that its array has room for. -/
theorem length_of_mem_reads {content read : Bytes} (member : read ∈ fgetsAll (todoSize + 8) content) :
    read.length < todoSize + 8 := length_of_mem_fgetsAll (by decide) member

/-- Whichever terminator is meant, load_todos is safe exactly if the lines of its items are long enough. -/
theorem loadsSafely_iff_enough {ends : Bytes → Nat} (within : ∀ line, ends line ≤ line.length)
    (reach : ∀ line, 4 ≤ ends line → 4 + (cstring (line.drop 4)).length ≤ ends line)
    (line : Buffer (todoSize + 8)) (content : Bytes) :
    LoadsSafely ends line content ↔ ∀ read ∈ itemLines content, Enough ends read := by
  have fits : ∀ read ∈ fgetsAll (todoSize + 8) content, read.length < todoSize + 8 := fun read =>
    length_of_mem_reads
  have safe := accesses_safe_iff within reach fits line (.empty maxTodos)
  constructor
  · intro loads
    exact safe.mp loads.inside
  · intro enough
    refine ⟨safe.mpr enough, ?_, itemLines content, ?_, fun item member => ?_, ?_⟩
    · rw [Todos.items, List.length_map, SlotArray.length_entries]
      exact SlotArray.count_le _
    · exact (List.take_sublist _ _).trans List.filter_sublist
    · -- The filter has looked at the first byte, which a bracket cannot be without.
      have bracket : charAt item 0 = ch '[' :=
        startsItem_iff.mp (List.mem_filter.mp (List.mem_of_mem_take member)).2
      cases item with
      | nil => exact absurd bracket (by decide)
      | cons byte rest => exact congrArg some bracket
    · exact Todos.items_loadLines_of_enough fits line (.empty maxTodos) fun read member => (enough read member).2

/--
load_todos is safe on a file exactly if each line that it takes for an item, the first fifty that start
with a bracket, has a fifth byte that is no terminator; where a line ends at the first terminator in it, none of
its first five bytes may be one.
-/
theorem loadsSafely_iff (line : Buffer (todoSize + 8)) (content : Bytes) :
    (LoadsSafely List.length line content ↔ ∀ item ∈ itemLines content, charAt item 4 ≠ 0) ∧
      (LoadsSafely (fun read => (cstring read).length) line content ↔
        ∀ item ∈ itemLines content, ∀ index ≤ 4, charAt item index ≠ 0) := by
  constructor
  · -- A line with a fifth byte is long enough.
    rw [loadsSafely_iff_enough (fun read => Nat.le_refl _)]
    · refine forall₂_congr fun item _ => and_iff_right_of_imp fun fifth => ?_
      exact Nat.le_of_lt (length_of_charAt fifth)
    · intro read long
      have rest := (cstring_begins (read.drop 4)).length_le
      rw [List.length_drop] at rest
      omega
  · -- A text in front of the first terminator has five bytes exactly if they are none.
    rw [loadsSafely_iff_enough (fun read => (cstring_begins read).length_le)]
    · refine forall₂_congr fun item _ => ?_
      rw [← lt_length_cstring]
      constructor
      · intro ⟨long, more⟩
        have behind := List.length_pos_iff.mpr (mt cstring_drop_eq_nil.mp more)
        rw [cstring_drop long, List.length_drop] at behind
        omega
      · intro long
        exact ⟨Nat.le_of_lt long, lt_length_cstring.mp long 4 (Nat.le_refl _)⟩
    · intro read long
      rw [cstring_drop long, List.length_drop]
      omega

/-- A mark without a text, as the mini terminal can write it, makes load_todos write before the text. -/
theorem mark_without_text_unsafe :
    let line : Buffer (todoSize + 8) := Vector.replicate _ 0
    let content := ascii "[X]" ++ [newline]
    echoed (ascii "echo [X]>todo.txt" ++ [newline]) = some (ascii "nebula_hdd/todo.txt", content) ∧
      (∃ a ∈ Todos.loadAccesses line (.empty maxTodos) (fgetsAll (todoSize + 8) content), -1 ∈ a.written) ∧
      ∀ ends : Bytes → Nat, ¬ LoadsSafely ends line content := by
  intro line content
  have before : ∃ a ∈ Todos.loadAccesses line (.empty maxTodos) (fgetsAll (todoSize + 8) content),
      -1 ∈ a.written := by decide +kernel
  refine ⟨by decide +kernel, before, fun ends safe => ?_⟩
  -- An index below zero is outside the text, wherever the line ends.
  obtain ⟨a, touched, written⟩ := before
  exact absurd ((safe.inside a touched).2 (-1) written).1 (by decide)

end Nebula
