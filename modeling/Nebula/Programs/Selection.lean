import Nebula.Library.Buffer
import Nebula.Library.FileRegion
import Nebula.Library.Grid
import Nebula.Library.SlotArray
import Nebula.Programs.Copying

/-! Choosing a file by its number: the rows that names are cut into, and the paths made of them. -/

namespace Nebula

open CText Paths

abbrev maxFiles : Nat := 100
abbrev nameSize : Nat := 64

/-- files[MAX_FILES][NAME_SIZE], of which nothing is set before it is written, and the stack behind it. -/
structure NameTable where
  rows : SlotArray (Buffer nameSize) maxFiles
  behind : Bytes

namespace NameTable

/-- The array before the directory is read. -/
def start (cells : Vector (Buffer nameSize) maxFiles) (behind : Bytes) : NameTable :=
  ⟨⟨cells, 0, Nat.zero_le _⟩, behind⟩

/-- The bytes from the beginning of the array on. -/
def bytes (t : NameTable) : Bytes := (t.rows.cells.toList.map Vector.toList).flatten ++ t.behind

/-- The C string that begins with a row. -/
def text (t : NameTable) (index : Nat) : Bytes := cstring (t.bytes.drop (nameSize * index))

/-- One turn of the loop over the directory. -/
def list (t : NameTable) (name : Bytes) : NameTable :=
  if room : t.rows.count < maxFiles then
    if charAt name 0 = ch '.' then t
    -- At most 63 bytes are written, so the last byte of the row stays as it is.
    else { t with rows := t.rows.append room ((t.rows.get (t.rows.nextSlot room)).strncpy name (nameSize - 1)) }
  else t

/-- The loop over the names in the order of readdir. -/
def listAll (t : NameTable) (entries : List Bytes) : NameTable := entries.foldl list t

end NameTable

/-- The entries that are shown, in the order of their numbers. -/
def shown (entries : List Bytes) : List Bytes :=
  (entries.filter fun name => charAt name 0 ≠ ch '.').take maxFiles

/-- The programs that ask for the number of a file, and what else is typed into them. -/
inductive FileProgram where
  | delete (confirm : Bytes)
  | info
  | copy
  | compress
  /-- The line for the new name, if one is read, and whether stat finds something by that name. -/
  | rename (line : Option Bytes) (taken : Bool)
  | move (line : Option Bytes)

/-- What readdir gives of nebula_hdd/, and that what is not hidden is found there. -/
structure Directory (disk : Disk) (cwd : List Bytes) where
  entries : List Bytes
  named : ∀ name ∈ entries, name ≠ [] ∧ 0 ∉ name ∧ ch '/' ∉ name
  there : ∀ name ∈ entries, charAt name 0 ≠ ch '.' → (disk.node (cwd ++ [hddName, name])).isSome

/-- The number that is typed: that of the line up to its end, however long it is. -/
def typedNumber (typed : Bytes) : Int :=
  leadingInt ((cstring (typed.takeWhile (· != newline))).dropWhile isSpace)

/-- choice, out of the 15 bytes that fgets(buf, 16, stdin) takes; at the end of the input buf is as it was. -/
def readChoice (stack typed : Bytes) : Int :=
  match fgets 16 typed with
  | some (buf, _) => atoi (cstring buf)
  | none => atoi (cstring stack)

namespace FileProgram

def isInfo : FileProgram → Bool
  | .info => true
  | _ => false

/-- The path that is made of a row. -/
def path : FileProgram → Bytes → Option Bytes
  | .delete _, text | .info, text | .rename _ _, text => sprintf 128 (hddPath text)
  | .copy, text | .compress, text | .move _, text => some (snprintf 256 (hddPath text))

/-- Whether the path is made at all. -/
def builds : FileProgram → Bool
  | .delete confirm => charAt confirm 0 = ch 'y' ∨ charAt confirm 0 = ch 'Y'
  | .info | .copy | .compress => true
  | .rename line _ => line.isSome
  | .move line => line.isSome

/-- How often the path is handed to a system call: file_compression first looks up the size. -/
def uses : FileProgram → Nat
  | .rename _ true => 0
  | .compress => 2
  | _ => 1

/-- The paths of the chosen file that are handed to system calls; none is a buffer that overflows. -/
def handed (program : FileProgram) (text : Bytes) : List (Option Bytes) :=
  if program.builds then
    match program.path text with
    -- sprintf has written behind its buffer.
    | none => [none]
    | some path => List.replicate program.uses (some path)
  else []

/-- The other paths that are handed to system calls once a file is chosen. -/
def others : FileProgram → Bytes → List (List (Component Bytes))
  | .delete _, _ | .info, _ => []
  | .copy, text => [copyDest text]
  | .compress, text => [FileTool.compressDest text]
  | .rename line taken, _ =>
    line.toList.flatMap fun line => List.replicate (if taken then 1 else 2) (components (hddPath (chopped line)))
  | .move line, text => line.toList.flatMap fun line => [components (moveFolder line), moveTarget text line]

/-- The rows that are chosen by a number, out of a count of them. -/
def visited : FileProgram → Nat → Int → List Nat
  | .info, count, choice =>
    if count = 0 then []
    else
      -- No test keeps a number in the list: a negative one counts as 0, a large one as a row.
      let start := if choice > 0 then choice - 1 else 0
      let stop := if choice > 0 then choice else count
      List.range' start.toNat (stop - start).toNat
  | _, count, choice => if choice ≥ 1 ∧ choice ≤ count then [choice.toNat - 1] else []

section Disk

variable (disk : Disk) (cwd : List Bytes)

/-- What the paths made of a row lead to. -/
def reached (program : FileProgram) (text : Bytes) : List (Option (List Bytes)) :=
  (program.handed text).map fun path => path.bind fun path => openRead disk cwd (components path)

/-- The files that the program works on for a choice. -/
def works (program : FileProgram) (t : NameTable) (choice : Int) : List (Option (List Bytes)) :=
  (program.visited t.rows.count choice).flatMap fun row => program.reached disk cwd (t.text row)

/-- The other paths that the program comes to for a choice. -/
def worksBeside (program : FileProgram) (t : NameTable) (choice : Int) : List (List (Component Bytes)) :=
  (program.visited t.rows.count choice).flatMap fun row => program.others (t.text row)

/-- The places in the list that a number stands for: file_info is to show all of them for 0. -/
def chosen (program : FileProgram) (count : Nat) (number : Int) : List Nat :=
  if 1 ≤ number ∧ number ≤ count then [number.toNat - 1]
  else if program.isInfo ∧ number = 0 then List.range count
  else []

/-- The files to work on for an entry. -/
def due (program : FileProgram) (name : Bytes) : List (Option (List Bytes)) :=
  if program.builds then List.replicate program.uses (some (cwd ++ [hddName, name])) else []

/-- The program works on the entries shown beside the number, and does nothing if there are none. -/
structure SelectsShown (program : FileProgram) (t : NameTable) (entries : List Bytes) (stack typed : Bytes) : Prop where
  works : program.works disk cwd t (readChoice stack typed) =
    (program.chosen (shown entries).length (typedNumber typed)).flatMap fun place =>
      ((shown entries)[place]?.map (program.due cwd)).getD []
  idle : program.chosen (shown entries).length (typedNumber typed) = [] →
    program.worksBeside t (readChoice stack typed) = []

/-- What is kept of a text in the buffer for the path. -/
def kept : FileProgram → Bytes → Bytes
  | .delete _, text | .info, text | .rename _ _, text => text
  | .copy, text | .compress, text | .move _, text => text.take 244

/-- The programs that write the path with sprintf into 128 bytes. -/
def bounded : FileProgram → Bool
  | .delete _ | .info | .rename _ _ => true
  | .copy | .compress | .move _ => false

/--
A text comes to an entry.

There is room for its path, its components lead by their names to that of the entry, and each of the
places on the way is a directory.
-/
structure ComesTo (program : FileProgram) (text entry : Bytes) : Prop where
  room : program.bounded → (hddPath text).length < 128
  ends : FileTree.leads (cwd ++ [hddName]) (components (program.kept text)) = cwd ++ [hddName, entry]
  passes : ∀ before component after, components (program.kept text) = before ++ component :: after →
    disk.isDir (FileTree.leads (cwd ++ [hddName]) before) = true

/--
A row serves for the entry at a place of the list.

It is that of the entry, whose name ends in it, or the row and the bytes behind it come to the entry.
-/
def RowServes (program : FileProgram) (t : NameTable) (entries : List Bytes) (row place : Nat) : Prop :=
  ∃ entry ∈ (shown entries)[place]?, ((shown entries)[row]? = some entry ∧ entry.length ≤ 62) ∨
    program.ComesTo disk cwd (t.text row) entry

/--
The rows that the choice stands for serve one by one for the entries that the typed number stands for.

If no path is used, it is enough that the number is in the list as well and the path has room.
-/
structure RowsServe (program : FileProgram) (t : NameTable) (entries : List Bytes) (stack typed : Bytes) : Prop where
  matched : program.builds → 0 < program.uses →
    List.Forall₂ (program.RowServes disk cwd t entries)
      (program.visited (shown entries).length (readChoice stack typed))
      (program.chosen (shown entries).length (typedNumber typed))
  unused : program.builds → program.uses = 0 →
    ∀ row ∈ program.visited (shown entries).length (readChoice stack typed),
      program.chosen (shown entries).length (typedNumber typed) ≠ [] ∧ (hddPath (t.text row)).length < 128

end Disk

end FileProgram

namespace NameTable

/-- Behind the beginning of a row there is the row, and then what is behind it. -/
theorem drop_row (t : NameTable) (slot : Fin maxFiles) :
    t.bytes.drop (nameSize * slot.val) = (t.rows.get slot).toList ++ t.bytes.drop (nameSize * (slot.val + 1)) := by
  -- The rows are blocks of one length, one behind the other.
  have even : ∀ block ∈ t.rows.cells.toList.map Vector.toList, block.length = nameSize := by
    intro block member
    obtain ⟨row, -, rfl⟩ := List.mem_map.mp member
    exact Vector.length_toList
  have count : (t.rows.cells.toList.map Vector.toList).length = maxFiles := by
    rw [List.length_map, Vector.length_toList]
  have lengths : (t.rows.cells.toList.map Vector.toList).map List.length = List.replicate maxFiles nameSize := by
    refine List.eq_replicate_iff.mpr ⟨by rw [List.length_map, count], fun length member => ?_⟩
    obtain ⟨block, listed, rfl⟩ := List.mem_map.mp member
    exact even block listed
  have whole : (t.rows.cells.toList.map Vector.toList).flatten.length = maxFiles * nameSize := by
    rw [List.length_flatten, lengths, List.sum_replicate]
    rfl
  -- So both rests begin within the array.
  have below := slot.isLt
  unfold maxFiles nameSize at *
  rw [bytes, List.drop_append_of_le_length (by omega), List.drop_append_of_le_length (by omega), Grid.drop_blocks even,
    Grid.drop_blocks even, List.drop_eq_getElem_cons (by omega), List.flatten_cons, List.append_assoc, List.getElem_map]
  rfl

/-- A row that a name was copied into has the name, or what was kept of it and what is behind the row. -/
theorem text_row (t : NameTable) {slot : Fin maxFiles} {old : Buffer nameSize} {name : Bytes}
    (written : t.rows.get slot = old.strncpy name 63) :
    t.text slot.val = storedName (t.bytes.drop (nameSize * slot.val + 63)) name := by
  have last : (old.strncpy name 63)[63] = old[63] := old.getElem_strncpy name (by decide)
  -- The last byte of the row is the first one behind what is copied.
  have behind : t.bytes.drop (nameSize * slot.val + 63) = old[63] :: t.bytes.drop (nameSize * (slot.val + 1)) := by
    have row : (old.strncpy name 63).toList.drop 63 = [old[63]] := by
      rw [List.drop_eq_getElem_cons (by simp [nameSize]), ← last]
      simp
    rw [← List.drop_drop, drop_row, written, List.drop_append_of_le_length (by simp [nameSize]), row]
    rfl
  rw [text, drop_row, written, behind]
  -- Without a terminator of its own the name runs on there.
  exact old.cstring_strncpy name _

end NameTable

/-- One more entry is shown unless it is hidden or the list is full. -/
theorem shown_append (entries : List Bytes) (name : Bytes) :
    shown (entries ++ [name]) =
      if (shown entries).length < maxFiles ∧ charAt name 0 ≠ ch '.' then shown entries ++ [name]
      else shown entries := by
  have length : (shown entries).length = min maxFiles (entries.filter fun name => charAt name 0 ≠ ch '.').length :=
    List.length_take
  rw [length]
  unfold shown
  generalize kept : (entries.filter fun name => decide (charAt name 0 ≠ ch '.')) = names
  rw [List.filter_append, kept, List.take_append]
  by_cases dot : charAt name 0 = ch '.'
  · rw [if_neg fun both => both.2 dot]
    simp [dot]
  · -- The name is one of the first hundred if there were fewer before it.
    by_cases room : names.length < maxFiles
    · obtain ⟨left, some⟩ := Nat.exists_eq_add_of_lt room
      rw [if_pos ⟨by omega, dot⟩, show maxFiles - names.length = left + 1 by omega]
      simp [dot]
    · rw [if_neg fun both => room (by omega), Nat.sub_eq_zero_of_le (Nat.not_lt.mp room), List.take_zero,
        List.append_nil]

namespace NameTable

/-- What is known of the array while the directory is read. -/
structure Lists (t : NameTable) (entries : List Bytes) : Prop where
  count : t.rows.count = (shown entries).length
  written : ∀ slot : Fin maxFiles, ∀ name ∈ (shown entries)[slot.val]?,
    ∃ old : Buffer nameSize, t.rows.get slot = old.strncpy name 63

/-- One more turn copies the name into the next row, if there is one and the name is not hidden. -/
theorem Lists.list {t : NameTable} {entries : List Bytes} (lists : Lists t entries) (name : Bytes) :
    Lists (t.list name) (entries ++ [name]) := by
  unfold NameTable.list
  by_cases room : t.rows.count < maxFiles
  · rw [dif_pos room]
    have free := room
    rw [lists.count] at free
    by_cases dot : charAt name 0 = ch '.'
    · -- A hidden name is passed over by the loop and by the list alike.
      have same : shown (entries ++ [name]) = shown entries := by
        rw [shown_append, if_neg fun both => both.2 dot]
      rw [if_pos dot]
      exact ⟨by rw [same, lists.count], by rw [same]; exact lists.written⟩
    · have more : shown (entries ++ [name]) = shown entries ++ [name] := by
        rw [shown_append, if_pos ⟨free, dot⟩]
      rw [if_neg dot]
      refine ⟨?_, fun slot other here => ?_⟩
      · rw [more, List.length_append, ← lists.count]
        rfl
      · rw [more, Option.mem_def] at here
        by_cases old : slot.val < t.rows.count
        · -- The rows written before are left alone.
          rw [List.getElem?_append_left (lists.count ▸ old)] at here
          obtain ⟨before, written⟩ := lists.written slot other here
          exact ⟨before, (SlotArray.get_append_of_lt room _ old).trans written⟩
        · -- Only the last name is behind the others.
          rw [List.getElem?_append_right (lists.count ▸ Nat.not_lt.mp old), List.getElem?_singleton] at here
          split at here
          · rename_i last
            have next : slot = t.rows.nextSlot room := Fin.ext (by
              show slot.val = t.rows.count
              have count := lists.count
              omega)
            rw [next, ← Option.some.inj here]
            exact ⟨_, SlotArray.get_append_self t.rows room _⟩
          · cases here
  · -- With a full array the loop is over.
    rw [dif_neg room]
    have same : shown (entries ++ [name]) = shown entries := by
      rw [shown_append, if_neg fun both => room (lists.count ▸ both.1)]
    exact ⟨by rw [same, lists.count], by rw [same]; exact lists.written⟩

/-- However the memory was, the rows are those of the shown entries once the directory is read. -/
theorem lists_listAll (cells : Vector (Buffer nameSize) maxFiles) (behind : Bytes) (entries : List Bytes) :
    Lists ((start cells behind).listAll entries) entries := by
  -- The loop takes the entries from the left, so the last one is added to what is known of the others.
  induction entries using List.reverseRecOn with
  | nil => exact ⟨rfl, fun slot name here => by cases here⟩
  | append_singleton entries name ih =>
    rw [listAll, List.foldl_append]
    exact ih.list name

/-- The row of a shown entry has its name, or 63 bytes of it and what is behind the row. -/
theorem Lists.text {t : NameTable} {entries : List Bytes} (lists : Lists t entries) {index : Nat} {name : Bytes}
    (here : (shown entries)[index]? = some name) :
    t.text index = storedName (t.bytes.drop (nameSize * index + 63)) name := by
  -- There are no more names in the list than rows in the array.
  have below : index < maxFiles := by
    have inside := (List.getElem?_eq_some_iff.mp here).1
    have count := lists.count
    have most := t.rows.count_le
    omega
  obtain ⟨old, written⟩ := lists.written ⟨index, below⟩ name here
  exact t.text_row written

end NameTable

/-- An entry that is shown is one that readdir gave and that is not skipped. -/
theorem mem_shown {entries : List Bytes} {name : Bytes} (listed : name ∈ shown entries) :
    name ∈ entries ∧ charAt name 0 ≠ ch '.' := by
  obtain ⟨member, kept⟩ := List.mem_filter.mp (List.mem_of_mem_take listed)
  exact ⟨member, of_decide_eq_true kept⟩

/-- From the working directory, a path below nebula_hdd/ starts there, if something is listed. -/
theorem Directory.lookup_below {disk : Disk} {cwd : List Bytes} (directory : Directory disk cwd) {name : Bytes}
    (listed : name ∈ shown directory.entries) (path : List (Component Bytes)) :
    disk.isDir (cwd ++ [hddName]) = true ∧
      disk.lookup cwd (.name hddName :: path) = disk.lookup (cwd ++ [hddName]) path := by
  obtain ⟨member, dotless⟩ := mem_shown listed
  -- What the entry is in is a directory, and so is what that is in.
  obtain ⟨node, here⟩ := Option.isSome_iff_exists.mp (directory.there name member dotless)
  have listed := FileTree.node_eq_some.mp here
  have outer : disk.isDir cwd = true :=
    FileTree.isDir_iff.mpr (FileTree.node_eq_some.mpr (FileTree.dir_of_below listed (by simp)))
  have below : (cwd ++ [hddName] ++ [name], node) ∈ disk.entries := by rwa [List.append_assoc]
  refine ⟨FileTree.isDir_iff.mpr (FileTree.node_eq_some.mpr (disk.above below)), ?_⟩
  rw [FileTree.lookup, if_pos outer, FileTree.enter]

/-- A listed name is a component of its own. -/
theorem Directory.components_entry {disk : Disk} {cwd : List Bytes} (directory : Directory disk cwd) {name : Bytes}
    (listed : name ∈ shown directory.entries) : components name = [.name name] := by
  obtain ⟨member, dotless⟩ := mem_shown listed
  obtain ⟨some, -, plain⟩ := directory.named name member
  have noSelf : name ≠ ascii "." := fun same => dotless (same ▸ rfl)
  have noParent : name ≠ ascii ".." := fun same => dotless (same ▸ rfl)
  rw [components, List.splitOn_eq_singleton plain, List.map_singleton, component, if_neg some, if_neg noSelf,
    if_neg noParent]

/-- Lists of blocks of one length are the same if they are block by block. -/
theorem flatMap_eq_iff_forall₂ {α β γ : Type*} {size : Nat} (some : 0 < size) {f : α → List γ} {g : β → List γ}
    {related : α → β → Prop} {rows : List α} {places : List β} (even : ∀ row, (f row).length = size)
    (even' : ∀ place ∈ places, (g place).length = size)
    (same : ∀ row, ∀ place ∈ places, f row = g place ↔ related row place) :
    rows.flatMap f = places.flatMap g ↔ List.Forall₂ related rows places := by
  -- A block more on one side makes that side longer.
  induction rows generalizing places with
  | nil =>
    cases places with
    | nil => simp
    | cons place places =>
      have length := even' place List.mem_cons_self
      refine iff_of_false (fun equal => ?_) fun both => by cases both
      have counted := congrArg List.length equal
      rw [List.flatMap_nil, List.flatMap_cons, List.length_append, List.length_nil] at counted
      omega
  | cons row rows ih =>
    cases places with
    | nil =>
      refine iff_of_false (fun equal => ?_) fun both => by cases both
      have counted := congrArg List.length equal
      rw [List.flatMap_nil, List.flatMap_cons, List.length_append, List.length_nil, even row] at counted
      omega
    | cons place places =>
      have rest := ih (fun other member => even' other (List.mem_cons_of_mem _ member))
        fun row other member => same row other (List.mem_cons_of_mem _ member)
      rw [List.flatMap_cons, List.flatMap_cons, List.forall₂_cons, ← rest, ← same row place List.mem_cons_self]
      constructor
      · exact fun equal => List.append_inj equal ((even row).trans (even' place List.mem_cons_self).symm)
      · rintro ⟨first, others⟩
        rw [first, others]

namespace FileProgram

variable {disk : Disk} {cwd : List Bytes}

/-- The path is made of what is kept of the text, if it has room. -/
theorem path_eq_some {program : FileProgram} {text path : Bytes} :
    program.path text = some path ↔
      (program.bounded → (hddPath text).length < 128) ∧ path = hddPath (program.kept text) := by
  have short : sprintf 128 (hddPath text) = some path ↔
      (true = true → (hddPath text).length < 128) ∧ path = hddPath text := by
    constructor
    · exact fun made => ⟨fun _ => sprintf_fits made, sprintf_eq_some made⟩
    · rintro ⟨fits, rfl⟩
      rw [sprintf, if_pos (fits rfl)]
  have cut : some (snprintf 256 (hddPath text)) = some path ↔
      (false = true → (hddPath text).length < 128) ∧ path = hddPath (text.take 244) := by
    rw [snprintf_hddPath, Option.some.injEq]
    exact ⟨fun same => ⟨fun never => (Bool.false_ne_true never).elim, same.symm⟩, fun both => both.2.symm⟩
  cases program with
  | delete | info | rename => exact short
  | copy | compress | move => exact cut

/-- The path of a text opens the entry exactly if the text comes to it. -/
theorem opens_iff (program : FileProgram) (directory : Directory disk cwd) {entry : Bytes}
    (listed : entry ∈ shown directory.entries) (text : Bytes) :
    (∃ path, program.path text = some path ∧
        openRead disk cwd (components path) = some (cwd ++ [hddName, entry])) ↔
      program.ComesTo disk cwd text entry := by
  obtain ⟨member, dotless⟩ := mem_shown listed
  have there := directory.there entry member dotless
  have opens : openRead disk cwd (components (hddPath (program.kept text))) = some (cwd ++ [hddName, entry]) ↔
      disk.lookup (cwd ++ [hddName]) (components (program.kept text)) = some (cwd ++ [hddName, entry]) := by
    rw [openRead, components_hddPath, (directory.lookup_below listed _).2, Option.filter_eq_some_iff]
    exact ⟨fun both => both.1, fun found => ⟨found, there⟩⟩
  constructor
  · rintro ⟨path, made, opened⟩
    obtain ⟨room, rfl⟩ := path_eq_some.mp made
    obtain ⟨ends, passes⟩ := FileTree.lookup_eq_some_iff.mp (opens.mp opened)
    exact ⟨room, ends, passes⟩
  · rintro ⟨room, ends, passes⟩
    exact ⟨_, path_eq_some.mpr ⟨room, rfl⟩, opens.mpr (FileTree.lookup_eq_some_iff.mpr ⟨ends, passes⟩)⟩

/-- A listed name that fits its row comes to its entry. -/
theorem comesTo_short (program : FileProgram) (directory : Directory disk cwd) {name : Bytes}
    (listed : name ∈ shown directory.entries) (short : name.length ≤ 62) :
    program.ComesTo disk cwd name name := by
  have whole : program.kept name = name := by
    cases program with
    | delete | info | rename => rfl
    | copy | compress | move => exact List.take_of_length_le (by omega)
  have length : (hddPath name).length = name.length + 11 := by
    rw [hddPath, List.length_append, List.length_cons, Nat.add_comm, show hddName.length = 10 from rfl]
  refine ⟨fun _ => by omega, ?_, ?_⟩
  · rw [whole, directory.components_entry listed, FileTree.leads, List.foldl_cons, List.foldl_nil, FileTree.enter,
      List.append_assoc]
    rfl
  · -- The only place on the way is the directory itself.
    intro before component after split
    rw [whole, directory.components_entry listed] at split
    cases before with
    | nil => exact (directory.lookup_below listed []).1
    | cons first before => cases before <;> cases split

/-- A row is worked on as the entry should be exactly if it serves for it. -/
theorem reached_eq_due_iff {program : FileProgram} (builds : program.builds = true) (used : 0 < program.uses)
    (directory : Directory disk cwd) {t : NameTable} (lists : t.Lists directory.entries) (row : Nat) {place : Nat}
    {entry : Bytes} (here : (shown directory.entries)[place]? = some entry) :
    program.reached disk cwd (t.text row) = program.due cwd entry ↔
      program.RowServes disk cwd t directory.entries row place := by
  have listed := List.mem_of_getElem? here
  have served : program.RowServes disk cwd t directory.entries row place ↔
      program.ComesTo disk cwd (t.text row) entry := by
    refine ⟨?_, fun comes => ⟨entry, here, Or.inr comes⟩⟩
    rintro ⟨other, same, serves⟩
    obtain rfl := Option.some.inj (here.symm.trans same)
    rcases serves with ⟨own, short⟩ | comes
    · -- The row has the name itself, with its terminator.
      obtain ⟨-, plain, -⟩ := directory.named entry (mem_shown listed).1
      have text : t.text row = entry := by
        rw [lists.text own, storedName, cstring_of_notMem plain]
        exact if_pos (by omega)
      rw [text]
      exact program.comesTo_short directory listed short
    · exact comes
  rw [served, ← program.opens_iff directory listed, reached, handed, due, if_pos builds, if_pos builds]
  cases program.path (t.text row) with
  | none =>
    -- A buffer that overflows is nothing to be handed over, however often.
    refine iff_of_false (fun same => ?_) fun ⟨path, made, _⟩ => by cases made
    have first : none ∈ List.replicate program.uses (some (cwd ++ [hddName, entry])) :=
      same ▸ List.mem_singleton_self none
    cases List.eq_of_mem_replicate first
  | some path =>
    -- As often as the one place is due, the other is reached.
    simp only [List.map_replicate, List.replicate_inj, Option.bind_some, Option.some.injEq, exists_eq_left',
      true_and, Nat.pos_iff_ne_zero.mp used, false_or]

/-- Every path that is handed over is reached once, be there room for it or not. -/
theorem length_reached {program : FileProgram} (builds : program.builds = true) (used : 0 < program.uses)
    (text : Bytes) : (program.reached disk cwd text).length = program.uses := by
  rw [reached, List.length_map, handed, if_pos builds]
  cases made : program.path text with
  | some path => exact List.length_replicate
  | none =>
    -- Only the programs that use the path once can have no room for it.
    cases program with
    | delete | info => rfl
    | rename line taken =>
      cases taken with
      | false => rfl
      | true => exact absurd used (Nat.lt_irrefl 0)
    | copy | compress | move => cases made

theorem length_due {program : FileProgram} (builds : program.builds = true) (name : Bytes) :
    (program.due cwd name).length = program.uses := by
  rw [due, if_pos builds, List.length_replicate]

/-- Only rows of the list are chosen. -/
theorem lt_of_mem_chosen {program : FileProgram} {count : Nat} {number : Int} {place : Nat}
    (member : place ∈ program.chosen count number) : place < count := by
  unfold chosen at member
  split at member
  · -- The number stands for one row, the one before it.
    rw [List.mem_singleton.mp member]
    omega
  · split at member
    · exact List.mem_range.mp member
    · exact absurd member List.not_mem_nil

/-- Without a path of its own making a program does nothing that depends on a row. -/
theorem unbuilt {program : FileProgram} (unbuilt : ¬ program.builds = true) (disk : Disk) (cwd : List Bytes)
    (text : Bytes) : program.reached disk cwd text = [] ∧ program.due cwd text = [] ∧ program.others text = [] := by
  refine ⟨by rw [reached, handed, if_neg unbuilt]; rfl, if_neg unbuilt, ?_⟩
  cases program with
  | delete | info => rfl
  | copy | compress => exact absurd rfl unbuilt
  | rename line | move line =>
    cases line with
    | none => rfl
    | some line => exact absurd rfl unbuilt

/-- Only a new name that is taken keeps a path from being used, and then that name was looked up. -/
theorem unused {program : FileProgram} (builds : program.builds = true) (unused : program.uses = 0) (disk : Disk)
    (cwd : List Bytes) (text : Bytes) :
    (program.reached disk cwd text = [] ↔ (hddPath text).length < 128) ∧ program.due cwd text = [] ∧
      program.others text ≠ [] := by
  cases program with
  | rename line taken =>
    obtain ⟨line, rfl⟩ := Option.isSome_iff_exists.mp builds
    cases taken with
    | false => cases unused
    | true =>
      refine ⟨?_, rfl, by simp [others]⟩
      rw [reached, handed, if_pos builds, path, sprintf]
      by_cases fits : (hddPath text).length < 128
      · simp [fits, uses]
      · simp [fits]
  | delete | info | copy | compress | move => cases unused

/-- A program that makes no path does nothing, and nothing is due. -/
theorem selects_unbuilt {program : FileProgram} (without : ¬ program.builds = true) (disk : Disk) (cwd : List Bytes)
    (t : NameTable) (entries : List Bytes) (stack typed : Bytes) :
    program.SelectsShown disk cwd t entries stack typed ∧ program.RowsServe disk cwd t entries stack typed := by
  have unbuilt := FileProgram.unbuilt without disk cwd
  refine ⟨⟨?_, fun _ => ?_⟩, fun built => absurd built without, fun built => absurd built without⟩
  · rw [works, List.flatMap_eq_nil_iff.mpr fun row _ => (unbuilt _).1]
    refine (List.flatMap_eq_nil_iff.mpr fun place _ => ?_).symm
    cases (shown entries)[place]? with
    | none => rfl
    | some name => exact (unbuilt name).2.1
  · exact List.flatMap_eq_nil_iff.mpr fun row _ => (unbuilt _).2.2

/--
Where a path is made and not used, nothing may be reached, and the new name may only be looked up for a
number of the list.
-/
theorem selects_unused_iff {program : FileProgram} (builds : program.builds = true) (unused : program.uses = 0)
    {t : NameTable} {entries : List Bytes} (lists : t.Lists entries) (stack typed : Bytes) :
    program.SelectsShown disk cwd t entries stack typed ↔ program.RowsServe disk cwd t entries stack typed := by
  have due : ((program.chosen (shown entries).length (typedNumber typed)).flatMap fun place =>
      ((shown entries)[place]?.map (program.due cwd)).getD []) = [] := by
    refine List.flatMap_eq_nil_iff.mpr fun place _ => ?_
    cases (shown entries)[place]? with
    | none => rfl
    | some name => exact (FileProgram.unused builds unused disk cwd name).2.1
  constructor
  · rintro ⟨reached, idle⟩
    rw [due, works, lists.count, List.flatMap_eq_nil_iff] at reached
    refine ⟨fun _ used => absurd used (by omega), fun _ _ row member => ?_⟩
    obtain ⟨fits, -, others⟩ := FileProgram.unused builds unused disk cwd (t.text row)
    refine ⟨fun nothing => ?_, fits.mp (reached row member)⟩
    have looked := idle nothing
    rw [worksBeside, lists.count, List.flatMap_eq_nil_iff] at looked
    exact others (looked row member)
  · rintro ⟨-, rows⟩
    have rows := rows builds unused
    refine ⟨?_, fun nothing => ?_⟩
    · rw [due, works, lists.count, List.flatMap_eq_nil_iff]
      exact fun row member => (FileProgram.unused builds unused disk cwd (t.text row)).1.mpr (rows row member).2
    · rw [worksBeside, lists.count, List.flatMap_eq_nil_iff]
      exact fun row member => absurd nothing (rows row member).1

/-- Where a path is used, row by row what is reached has to be what is due for the entry. -/
theorem selects_used_iff {program : FileProgram} (builds : program.builds = true) (used : 0 < program.uses)
    (directory : Directory disk cwd) {t : NameTable} (lists : t.Lists directory.entries) (stack typed : Bytes) :
    program.SelectsShown disk cwd t directory.entries stack typed ↔
      program.RowsServe disk cwd t directory.entries stack typed := by
  generalize number : program.chosen (shown directory.entries).length (typedNumber typed) = places
  have inside : ∀ place ∈ places, place < (shown directory.entries).length := fun place member =>
    lt_of_mem_chosen (number ▸ member)
  have blocks := @flatMap_eq_iff_forall₂ _ _ _ program.uses used
    (fun row => program.reached disk cwd (t.text row))
    (fun place => ((shown directory.entries)[place]?.map (program.due cwd)).getD [])
    (program.RowServes disk cwd t directory.entries)
    (program.visited (shown directory.entries).length (readChoice stack typed)) places
    (fun row => length_reached builds used (t.text row))
    (fun place member => by
      rw [List.getElem?_eq_getElem (inside place member), Option.map_some, Option.getD_some]
      exact length_due builds _)
    (fun row place member => by
      have here := List.getElem?_eq_getElem (inside place member)
      rw [here, Option.map_some, Option.getD_some]
      exact reached_eq_due_iff builds used directory lists row here)
  constructor
  · rintro ⟨reached, -⟩
    rw [number, works, lists.count] at reached
    refine ⟨fun _ _ => ?_, fun _ none => absurd used (by omega)⟩
    rw [number]
    exact blocks.mp reached
  · rintro ⟨matched, -⟩
    have matched := matched builds used
    rw [number] at matched
    refine ⟨?_, fun nothing => ?_⟩
    · rw [number, works, lists.count]
      exact blocks.mpr matched
    · rw [number] at nothing
      rw [nothing, List.forall₂_nil_right_iff] at matched
      rw [worksBeside, lists.count, matched]
      rfl

end FileProgram

open FileProgram in
/--
A number selects the file shown beside it if and only if the rows that are gone over serve for the
entries that it stands for.
-/
theorem selectsShown_iff (disk : Disk) (cwd : List Bytes) (directory : Directory disk cwd)
    (cells : Vector (Buffer nameSize) maxFiles) (behind : Bytes) (program : FileProgram) (stack typed : Bytes) :
    let t := (NameTable.start cells behind).listAll directory.entries
    program.SelectsShown disk cwd t directory.entries stack typed ↔
      program.RowsServe disk cwd t directory.entries stack typed := by
  intro t
  have lists : t.Lists directory.entries := NameTable.lists_listAll cells behind directory.entries
  by_cases builds : program.builds = true
  · rcases Nat.eq_zero_or_pos program.uses with unused | used
    · exact selects_unused_iff builds unused lists stack typed
    · exact selects_used_iff builds used directory lists stack typed
  · obtain ⟨selects, serves⟩ := selects_unbuilt builds disk cwd t directory.entries stack typed
    exact iff_of_true selects serves

/-- As many letters as a row keeps of a name. -/
def cutName : Bytes := List.replicate 63 (ch 'a')

/-- A disk with two files whose names are apart only behind what a row keeps of them. -/
def alikeFiles : Disk where
  entries := [([], .dir), ([hddName], .dir), ([hddName, cutName ++ ascii "b"], .file (ascii "first")),
    ([hddName, cutName], .file (ascii "second"))]
  once := by decide
  root := by decide
  parent := by decide

def alikeDirectory : Directory alikeFiles [] where
  entries := [cutName ++ ascii "b", cutName]
  named := by decide
  there := by decide

/-- The number of a file with a long name removes another one. -/
theorem cut_name_removes_another_file :
    let t :=
      (NameTable.start (Vector.replicate maxFiles (Vector.replicate nameSize 0)) []).listAll alikeDirectory.entries
    let program := FileProgram.delete (ascii "y" ++ [newline])
    let typed := ascii "1" ++ [newline]
    (shown alikeDirectory.entries)[0]? = some (cutName ++ ascii "b") ∧
      program.works alikeFiles [] t (readChoice [] typed) = [some [hddName, cutName]] ∧
        ¬ program.SelectsShown alikeFiles [] t alikeDirectory.entries [] typed := by
  intro t program typed
  have first : (shown alikeDirectory.entries)[0]? = some (cutName ++ ascii "b") := by decide
  have worked : program.works alikeFiles [] t (readChoice [] typed) = [some [hddName, cutName]] := by decide +kernel
  refine ⟨first, worked, fun selects => ?_⟩
  have due := selects.works
  rw [worked] at due
  revert due
  decide +kernel

end Nebula
