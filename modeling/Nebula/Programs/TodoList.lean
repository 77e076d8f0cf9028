import Nebula.Library.Buffer
import Nebula.Library.SlotArray
import Nebula.Log.Dashboard

/-! The to-do list: its items in memory, the file they are saved to, and the commands of its loop. -/

namespace Nebula

open CText

abbrev maxTodos : Nat := 50
abbrev todoSize : Nat := 128

/-- An item, whose text array ends with a terminator that nothing overwrites. -/
structure Todo where
  text : Buffer todoSize
  done : Int
  ended : text[127] = 0
  flag : done = 0 ∨ done = 1
  deriving DecidableEq

namespace Todo

/-- An item of the zeroed array that the program starts with. -/
def blank : Todo := ⟨Vector.replicate todoSize 0, 0, rfl, Or.inl rfl⟩

instance : Inhabited Todo := ⟨blank⟩

/-- The text and the mark of an item. -/
def item (t : Todo) : Bytes × Int := (t.text.text, t.done)

/-- The line save_todos prints for an item. -/
def line (t : Todo) : Bytes :=
  ascii "[" ++ (if t.done ≠ 0 then ascii "X" else ascii " ") ++ ascii "] " ++ t.text.text ++ [newline]

/-- What load_todos makes of an item's array and a line that starts with a bracket. -/
def ofLine (t : Todo) (line : Buffer (todoSize + 8)) : Todo where
  text := (t.text.strncpy (line.toList.drop 4) (todoSize - 1)).chop
  done := if (line)[1] = ch 'X' then 1 else 0
  ended := Buffer.getElem_chop (by decide) ((t.text.getElem_strncpy _ (by decide)).trans t.ended)
  flag := by split <;> simp

/-- What a line typed for a new item makes of the item's array. -/
def typed (t : Todo) (line : Bytes) (short : line.length ≤ todoSize - 1) : Todo where
  text := (t.text.fgetsInto line).chop
  done := 0
  ended := Buffer.getElem_chop (by decide) (Buffer.getElem_fgetsInto (by decide) short t.ended)
  flag := Or.inl rfl

end Todo

/-- The items, with those that a removal has left behind the last one. -/
abbrev Todos := SlotArray Todo maxTodos

namespace Todos

/-- The texts and the marks of the items, in order. -/
def items (todos : Todos) : List (Bytes × Int) := todos.entries.map Todo.item

/-- What save_todos writes. -/
def saved (todos : Todos) : Bytes := (todos.entries.map Todo.line).flatten

/-- The loop of load_todos over the lines that fgets reads, with its array for one line. -/
def loadLines (line : Buffer (todoSize + 8)) (todos : Todos) : List Bytes → Todos
  | [] => todos
  | read :: later =>
    if room : todos.count < maxTodos then
      let line := line.fgetsInto read
      if (line)[0] = ch '[' then
        loadLines line (todos.append room ((todos.get (todos.nextSlot room)).ofLine line)) later
      else loadLines line todos later
    else todos

/-- load_todos into the zeroed array; the line array is what the stack holds. -/
def load (line : Buffer (todoSize + 8)) : Option Bytes → Todos
  | none => .empty maxTodos
  | some content => loadLines line (.empty maxTodos) (fgetsAll (todoSize + 8) content)

end Todos

/-- The program between two commands: its items, its file and what is still to be typed. -/
structure TodoList where
  todos : Todos
  file : Option Bytes
  input : Bytes

namespace TodoList

/-- The program has loaded its file. -/
def start (line : Buffer (todoSize + 8)) (file : Option Bytes) (input : Bytes) : TodoList :=
  ⟨Todos.load line file, file, input⟩

/-- The items are changed and written to the file. -/
def save (s : TodoList) (todos : Todos) : TodoList := { s with todos := todos, file := some todos.saved }

/-- The command that adds an item. -/
def add (s : TodoList) : Option TodoList :=
  if room : s.todos.count < maxTodos then
    match read : fgets todoSize s.input with
    | none => none
    | some (line, rest) =>
      let t := (s.todos.get (s.todos.nextSlot room)).typed line (length_fgets read)
      some ({ s with input := rest }.save (s.todos.append room t))
  else some s

/-- The place of the item that a number names, if there is one. -/
def choice (todos : Todos) (nbuf : Bytes) : Option (Fin maxTodos) :=
  let idx := wrapped (atoi nbuf - 1)
  if inside : 0 ≤ idx ∧ idx < todos.count then some ⟨idx.toNat, by have := todos.count_le; omega⟩ else none

/-- The commands that ask for the number of an item. -/
def choose (s : TodoList) (change : Todos → Fin maxTodos → Todos) : Option TodoList :=
  match fgets 16 s.input with
  | none => none
  | some (nbuf, rest) =>
    match choice s.todos nbuf with
    | none => some { s with input := rest }
    | some slot => some ({ s with input := rest }.save (change s.todos slot))

/-- The command that marks an item as done. -/
def markDone (todos : Todos) (slot : Fin maxTodos) : Todos :=
  todos.set slot { todos.get slot with done := 1, flag := Or.inr rfl }

/--
One turn of the loop of main.

There is none where the loop ends, or where a prompt of a command meets the end of the input.
-/
def turn (s : TodoList) : Option TodoList :=
  match fgets 16 s.input with
  | none => none
  | some (buf, rest) =>
    let c := charAt buf 0
    let s := { s with input := rest }
    if c = ch 'q' ∨ c = ch 'Q' then none
    else if c = ch 'a' ∨ c = ch 'A' then s.add
    else if c = ch 'd' ∨ c = ch 'D' then s.choose markDone
    else if c = ch 'r' ∨ c = ch 'R' then s.choose SlotArray.removeAt
    else some s

/-- The states of the program, first without a file and then with the one that it has saved. -/
inductive Reached : TodoList → Prop where
  | first {input : Bytes} (line : Buffer (todoSize + 8)) (plain : 0 ∉ input) : Reached (start line none input)
  | turn {s s' : TodoList} (reached : Reached s) (next : s.turn = some s') : Reached s'
  | again {s : TodoList} {input : Bytes} (line : Buffer (todoSize + 8)) (reached : Reached s)
    (plain : 0 ∉ input) : Reached (start line s.file input)

end TodoList

/-- The item in a line: the text behind its mark, as far as there is room, but the last byte. -/
def itemOf (line : Bytes) : Bytes × Int :=
  (((cstring (line.drop 4)).take (todoSize - 1)).dropLast, if charAt line 1 = ch 'X' then 1 else 0)

namespace Todo

/-- A text that a saved line has room for and that stays on it. -/
def Neat (text : Bytes) : Prop := newline ∉ text ∧ text.length ≤ 126

theorem text_plain (t : Todo) : 0 ∉ t.text.text := zero_notMem_cstring _

theorem line_eq (t : Todo) : t.line =
    ch '[' :: (if t.done ≠ 0 then ch 'X' else ch ' ') :: ch ']' :: ch ' ' :: (t.text.text ++ [newline]) := by
  unfold line
  split <;> rfl

theorem length_line (t : Todo) : t.line.length = t.text.text.length + 5 := by
  rw [line_eq]
  simp

/-- A typed line gives its bytes but the last to the text. -/
theorem item_typed (t : Todo) {line : Bytes} (plain : 0 ∉ line) (short : line.length ≤ todoSize - 1) :
    (t.typed line short).item = (line.dropLast, 0) := by
  -- fgets has left the line and its terminator, and the last byte of the line is chopped off.
  have room : line.length < todoSize := Nat.lt_of_le_of_lt short (by decide)
  have text : (t.typed line short).text = (t.text.fgetsInto line).chop := rfl
  have done : (t.typed line short).done = 0 := rfl
  rw [item, text, done, Buffer.text_chop, Buffer.text_fgetsInto _ plain room]

theorem text_ofLine (old : Todo) (line : Buffer (todoSize + 8)) :
    (old.ofLine line).text = (old.text.strncpy (line.toList.drop 4) (todoSize - 1)).chop := rfl

theorem done_ofLine (old : Todo) (line : Buffer (todoSize + 8)) :
    (old.ofLine line).done = if (line)[1] = ch 'X' then 1 else 0 := rfl

/-- What load_todos takes from a line: the bytes behind the mark, as far as there is room, but the last. -/
theorem item_ofLine (old : Todo) (line : Buffer (todoSize + 8)) :
    (old.ofLine line).item =
      (((cstring (line.toList.drop 4)).take (todoSize - 1)).dropLast, if (line)[1] = ch 'X' then 1 else 0) := by
  have copied : (old.text.strncpy (line.toList.drop 4) (todoSize - 1)).text =
      (cstring (line.toList.drop 4)).take (todoSize - 1) := Buffer.text_strncpy _ (by decide) old.ended
  rw [item, text_ofLine, done_ofLine, Buffer.text_chop, copied]

/-- A line that is long enough gives the line array's bytes before its terminator to the item. -/
theorem item_ofLine_of_enough (t : Todo) (line : Buffer (todoSize + 8)) {read : Bytes}
    (fits : read.length < todoSize + 8) (enough : charAt read 4 ≠ 0) :
    (t.ofLine (line.fgetsInto read)).item = itemOf read := by
  have long := length_of_charAt enough
  have stored := Buffer.toList_fgetsInto line fits
  -- Both the mark and what is behind it are read before the terminator.
  have mark : (line.fgetsInto read)[1] = charAt read 1 :=
    line.getElem_fgetsInto_eq_charAt (by decide) (by omega)
  have source : cstring ((line.fgetsInto read).toList.drop 4) = cstring (read.drop 4) := by
    rw [stored, List.drop_append_of_le_length (by omega), Buffer.cstring_append_terminator]
  rw [item_ofLine, mark, source, itemOf]

/-- The line that is printed for an item has the item in it. -/
theorem itemOf_line (t : Todo) (neat : Neat t.text.text) : itemOf t.line = t.item := by
  obtain ⟨-, short⟩ := neat
  have size : todoSize = 128 := rfl
  -- Behind the mark there are the text and the newline.
  have plain : 0 ∉ t.text.text ++ [newline] := by
    rw [List.mem_append, not_or]
    exact ⟨t.text_plain, by decide⟩
  have source : t.line.drop 4 = t.text.text ++ [newline] := by
    rw [line_eq]
    rfl
  -- This is the margin of one byte: 126 bytes of text and the newline are just what strncpy copies.
  have whole : (t.text.text ++ [newline]).take (todoSize - 1) = t.text.text ++ [newline] := by
    refine List.take_of_length_le ?_
    rw [List.length_append, List.length_singleton]
    omega
  -- The mark is an X exactly for an item that is done.
  have flag : (if charAt t.line 1 = ch 'X' then 1 else 0) = t.done := by
    rw [line_eq]
    rcases t.flag with off | on
    · rw [off]
      rfl
    · rw [on]
      rfl
  rw [itemOf, source, cstring_of_notMem plain, whole, List.dropLast_concat, flag, item]

/-- An item is read back from the line that was printed for it, whatever the arrays held before. -/
theorem item_ofLine_line (t old : Todo) (neat : Neat t.text.text) (line : Buffer (todoSize + 8)) :
    (line.fgetsInto t.line)[0] = ch '[' ∧ (old.ofLine (line.fgetsInto t.line)).item = t.item := by
  have length := t.length_line
  have size : todoSize = 128 := rfl
  -- The line array has room for every line that is printed for an item.
  have fits : t.line.length < todoSize + 8 := by
    have short := neat.2
    omega
  have first : (line.fgetsInto t.line)[0] = ch '[' := by
    rw [line.getElem_fgetsInto_eq_charAt (by decide) (Nat.zero_le _), line_eq]
    rfl
  -- The fifth byte is the first one of the text, or the newline.
  have enough : charAt t.line 4 ≠ 0 := by
    rw [line_eq]
    show charAt (t.text.text ++ [newline]) 0 ≠ 0
    cases text : t.text.text with
    | nil => decide
    | cons byte rest =>
      have plain := t.text_plain
      rw [text] at plain
      exact Ne.symm (List.ne_of_not_mem_cons plain)
  refine ⟨first, ?_⟩
  rw [old.item_ofLine_of_enough line fits enough, t.itemOf_line neat]

end Todo

namespace Todos

/-- Items that are saved are loaded behind the ones that are there, as they were. -/
theorem items_loadLines {entries : List Todo} (neat : ∀ t ∈ entries, Todo.Neat t.text.text) (todos : Todos)
    (room : todos.count + entries.length ≤ maxTodos) (line : Buffer (todoSize + 8)) :
    (loadLines line todos (entries.map Todo.line)).items = todos.items ++ entries.map Todo.item := by
  -- The lines are loaded one by one, each into the next free slot, whatever that slot held.
  induction entries generalizing todos line with
  | nil => simp [loadLines]
  | cons t entries ih =>
    rw [List.length_cons] at room
    have free : todos.count < maxTodos := by omega
    obtain ⟨bracket, same⟩ := t.item_ofLine_line (todos.get (todos.nextSlot free)) (neat t List.mem_cons_self) line
    have later := ih (fun other member => neat other (List.mem_cons_of_mem _ member))
      (todos.append free ((todos.get (todos.nextSlot free)).ofLine (line.fgetsInto t.line)))
      (by rw [SlotArray.count_append]; omega) (line.fgetsInto t.line)
    rw [List.map_cons, loadLines, dif_pos free]
    dsimp only
    rw [if_pos bracket, later, items, SlotArray.entries_append, List.map_append, List.map_cons, same,
      List.append_assoc]
    rfl

/-- Saving neat items and loading them again gives the same items. -/
theorem items_load (line : Buffer (todoSize + 8)) {todos : Todos} (neat : ∀ item ∈ todos.items, Todo.Neat item.1) :
    (load line (some todos.saved)).items = todos.items := by
  -- Every printed line is read by one call of fgets, as it fits the line array.
  have neatTexts : ∀ t ∈ todos.entries, Todo.Neat t.text.text := fun t listed =>
    neat t.item (List.mem_map_of_mem listed)
  have whole : ∀ printed ∈ todos.entries.map Todo.line, WholeLine (todoSize + 8) printed := by
    intro printed member
    obtain ⟨t, listed, rfl⟩ := List.mem_map.mp member
    obtain ⟨plain, short⟩ := neatTexts t listed
    have size : todoSize = 128 := rfl
    refine ⟨ch '[' :: (if t.done ≠ 0 then ch 'X' else ch ' ') :: ch ']' :: ch ' ' :: t.text.text, ?_, ?_, ?_⟩
    · rw [Todo.line_eq]
      rfl
    · have mark : newline ≠ if t.done ≠ 0 then ch 'X' else ch ' ' := by split <;> decide
      simp only [List.mem_cons, not_or]
      exact ⟨by decide, mark, by decide, by decide, plain⟩
    · simp only [List.length_cons]
      omega
  have room : (SlotArray.empty maxTodos : Todos).count + todos.entries.length ≤ maxTodos := by
    rw [SlotArray.length_entries]
    exact Nat.le_trans (Nat.le_of_eq (Nat.zero_add _)) todos.count_le
  rw [load, saved, fgetsAll_flatten whole, items_loadLines neatTexts _ room]
  rfl

end Todos

namespace TodoList

/-- The file is read back as the items, and each of their texts fits a line. -/
structure Steady (s : TodoList) : Prop where
  plain : 0 ∉ s.input
  neat : ∀ item ∈ s.todos.items, Todo.Neat item.1
  saved : ∀ line, (Todos.load line s.file).items = s.todos.items

theorem Steady.save {s : TodoList} (plain : 0 ∉ s.input) {todos : Todos}
    (neat : ∀ item ∈ todos.items, Todo.Neat item.1) : Steady (s.save todos) :=
  ⟨plain, neat, fun line => Todos.items_load line neat⟩

/-- What is left of an input without terminators has none. -/
private theorem plain_rest {size : Nat} {input line rest : Bytes} (plain : 0 ∉ input)
    (read : fgets size input = some (line, rest)) : 0 ∉ line ∧ 0 ∉ rest := by
  rw [← append_fgets read, List.mem_append, not_or] at plain
  exact plain

/-- An item that is added has a text that fits. -/
theorem Steady.add {s s' : TodoList} (steady : Steady s) (next : s.add = some s') : Steady s' := by
  unfold TodoList.add at next
  split at next
  · rename_i room
    split at next
    · cases next
    · rename_i line rest read
      obtain ⟨plainLine, plainRest⟩ := plain_rest steady.plain read
      have short := length_fgets read
      -- The other items are as they were, and only the new text has to be looked at.
      obtain rfl := Option.some.inj next
      refine Steady.save plainRest fun item member => ?_
      rw [Todos.items, SlotArray.entries_append, List.map_append, List.mem_append] at member
      rcases member with old | new
      · exact steady.neat item old
      · rw [List.map_singleton, List.mem_singleton] at new
        rw [new, Todo.item_typed _ plainLine]
        refine ⟨newline_notMem_dropLast read, ?_⟩
        -- A typed line has at most 127 bytes, of which the last one is chopped off.
        have size : todoSize = 128 := rfl
        rw [List.length_dropLast]
        omega
  · obtain rfl := Option.some.inj next
    exact steady

/-- A command that changes an item keeps the list as it is or saves what it has changed. -/
theorem Steady.choose {s s' : TodoList} (steady : Steady s) {change : Todos → Fin maxTodos → Todos}
    (neat : ∀ slot, slot.val < s.todos.count → ∀ item ∈ (change s.todos slot).items, Todo.Neat item.1)
    (next : s.choose change = some s') : Steady s' := by
  unfold TodoList.choose at next
  split at next
  · cases next
  · rename_i nbuf rest read
    obtain ⟨-, plainRest⟩ := plain_rest steady.plain read
    split at next
    · obtain rfl := Option.some.inj next
      exact ⟨plainRest, steady.neat, steady.saved⟩
    · rename_i slot chosen
      obtain rfl := Option.some.inj next
      refine Steady.save plainRest (neat slot ?_)
      -- The number was compared with the count.
      unfold choice at chosen
      dsimp only at chosen
      split at chosen
      · rename_i inside
        rw [← Option.some.inj chosen]
        show (wrapped (atoi nbuf - 1)).toNat < s.todos.count
        omega
      · cases chosen

theorem Steady.turn {s s' : TodoList} (steady : Steady s) (next : s.turn = some s') : Steady s' := by
  unfold TodoList.turn at next
  split at next
  · cases next
  · rename_i buf rest read
    obtain ⟨-, plainRest⟩ := plain_rest steady.plain read
    have steady' : Steady { s with input := rest } := ⟨plainRest, steady.neat, steady.saved⟩
    dsimp only at next
    split at next
    · cases next
    · split at next
      · exact steady'.add next
      · split at next
        · -- A mark does not change the text.
          refine steady'.choose (fun slot live item member => ?_) next
          rw [Todos.items, markDone, SlotArray.entries_set] at member
          obtain ⟨t, listed, rfl⟩ := List.mem_map.mp member
          rcases List.mem_or_eq_of_mem_set listed with old | rfl
          · exact steady.neat _ (List.mem_map_of_mem old)
          · exact steady.neat (s.todos.get slot).item
              (List.mem_map_of_mem (SlotArray.mem_entries.mpr ⟨slot, live, rfl⟩))
        · split at next
          · refine steady'.choose (fun slot live item member => ?_) next
            -- A removal keeps some of the items.
            rw [Todos.items, SlotArray.entries_removeAt _ slot live] at member
            obtain ⟨t, listed, rfl⟩ := List.mem_map.mp member
            exact steady.neat _ (List.mem_map_of_mem (List.mem_of_mem_eraseIdx listed))
          · obtain rfl := Option.some.inj next
            exact steady'

/-- The program has loaded no file, or one that is read back as the items of a steady list. -/
theorem Steady.again {s : TodoList} (steady : Steady s) (line : Buffer (todoSize + 8)) {input : Bytes}
    (plain : 0 ∉ input) : Steady (start line s.file input) := by
  have same : (start line s.file input).todos.items = s.todos.items := steady.saved line
  refine ⟨plain, fun item member => ?_, fun line' => ?_⟩
  · rw [same] at member
    exact steady.neat item member
  · rw [same]
    exact steady.saved line'

theorem steady_of_reached {s : TodoList} (reached : Reached s) : Steady s := by
  -- The invariant holds of the empty list, of each turn, and of a list that is loaded again.
  induction reached with
  | first line plain =>
    exact ⟨plain, fun item member => absurd member List.not_mem_nil, fun _ => rfl⟩
  | turn _ next steady => exact steady.turn next
  | again line _ plain steady => exact steady.again line plain

/--
In every state the program reaches, loading its file gives the items in memory, and there are at
most fifty of them, each with at most 126 bytes of text and no newline in it.
-/
theorem file_decodes {s : TodoList} (reached : Reached s) :
    (∀ line, (Todos.load line s.file).items = s.todos.items) ∧ s.todos.items.length ≤ 50 ∧
      ∀ item ∈ s.todos.items, item.1.length ≤ 126 ∧ newline ∉ item.1 := by
  obtain ⟨-, neat, saved⟩ := steady_of_reached reached
  refine ⟨saved, ?_, fun item member => ⟨(neat item member).2, (neat item member).1⟩⟩
  rw [Todos.items, List.length_map, SlotArray.length_entries]
  exact s.todos.count_le

/-- Several turns lead from a state of the program to another one. -/
theorem Reached.turns {s s' : TodoList} (reached : Reached s) {count : Nat}
    (went : (fun before => Option.bind before TodoList.turn)^[count] (some s) = some s') : Reached s' := by
  induction count generalizing s with
  | zero => exact Option.some.inj went ▸ reached
  | succ count ih =>
    rw [Function.iterate_succ_apply, Option.bind_some] at went
    cases next : s.turn with
    | some between => exact ih (reached.turn next) (next ▸ went)
    | none =>
      -- A program that has ended stays ended.
      rw [next, Function.iterate_fixed rfl] at went
      cases went

/-- Two items are added, the first one of 126 bytes is marked and the second one is removed. -/
theorem file_decodes_milk :
    ∃ s : TodoList, Reached s ∧ s.todos.items = [(List.replicate 126 (ch 'x'), 1)] ∧
      (∀ line, (Todos.load line s.file).items = s.todos.items) ∧ s.todos.items.length ≤ 50 ∧
        ∀ item ∈ s.todos.items, item.1.length ≤ 126 ∧ newline ∉ item.1 := by
  let typed := [ascii "a", List.replicate 126 (ch 'x'), ascii "a", ascii "milk", ascii "d", ascii "1",
    ascii "r", ascii "2"]
  let first := start (Vector.replicate _ 0) none (typed.flatMap (· ++ [newline]))
  let last := (fun before => Option.bind before turn)^[4] (some first)
  have ends : last.isSome = true := by decide +kernel
  have items : (last.map fun s => s.todos.items) = some [(List.replicate 126 (ch 'x'), 1)] := by decide +kernel
  have reached : Reached (last.get ends) :=
    (Reached.first (Vector.replicate _ 0) (show 0 ∉ first.input by decide +kernel)).turns (Option.some_get ends).symm
  refine ⟨last.get ends, reached, ?_, file_decodes reached⟩
  rw [← Option.some_get ends] at items
  exact Option.some.inj items

end TodoList

end Nebula
