import Nebula.Library.Buffer
import Nebula.Library.Machine
import Nebula.Library.SlotArray
import Nebula.Library.TextLines
import Nebula.Programs.Confinement

/-! Notepad: the lines in its buffer, the file of the note, and the two threads that save it. -/

namespace Nebula

open CText

abbrev maxLines : Nat := 500
abbrev lineSize : Nat := 256

/-- A row of text_buffer, whose last byte nothing overwrites. -/
structure TextRow where
  text : Buffer lineSize
  ended : text[255] = 0

namespace TextRow

/-- A row of the zeroed array that the program starts with. -/
def blank : TextRow := ⟨Vector.replicate lineSize 0, rfl⟩

instance : Inhabited TextRow := ⟨blank⟩

/-- The strncpy of a line into the row. -/
def write (row : TextRow) (line : Bytes) : TextRow where
  text := row.text.strncpy line (lineSize - 1)
  ended := (row.text.getElem_strncpy line (by decide)).trans row.ended

end TextRow

/-- What a line can ask for instead of being kept. -/
inductive NotepadCommand where
  | quit
  | save
  | help
  | clear
  deriving DecidableEq, Repr

/-- The command in a line, if it is one. -/
def commandOf (line : Bytes) : Option NotepadCommand :=
  if charAt line 0 = ch ':' then
    if line = ascii ":q" ∨ line = ascii ":quit" then some .quit
    else if line = ascii ":w" ∨ line = ascii ":save" then some .save
    else if line = ascii ":wq" then some .quit
    else if line = ascii ":help" then some .help
    else if line = ascii ":clear" then some .clear
    else none
  else none

/-- The program: its buffer, the file of the note, and what is still to be typed. -/
structure Notepad where
  buffer : SlotArray TextRow maxLines
  file : Option Bytes
  input : Bytes
  running : Bool
  /-- The autosave thread has found lines to save and is about to save them. -/
  saving : Bool

/-- What the two threads do. -/
inductive NotepadOp where
  /-- The main loop reads a line, or leaves at the end of the input. -/
  | turn
  /-- The autosave thread wakes up and tests whether there is something to save. -/
  | autosaveTest
  | autosaveSave
  deriving DecidableEq, Repr

namespace Notepad

/-- The program has just started, with its file not there yet. -/
def start (input : Bytes) : Notepad := ⟨.empty maxLines, none, input, true, false⟩

/-- save_to_file, which always succeeds here. -/
def saveToFile (s : Notepad) : Notepad :=
  { s with file := some (s.buffer.entries.map fun row => row.text.text ++ [newline]).flatten }

/-- What the main loop does with a line. -/
def enter (s : Notepad) (line : Bytes) : Notepad :=
  match commandOf line with
  | some .quit => { s.saveToFile with running := false }
  | some .save => s.saveToFile
  | some .help => s
  | some .clear => { s with buffer := s.buffer.clear }
  | none =>
    if room : s.buffer.count < maxLines then
      { s with buffer := s.buffer.append room ((s.buffer.get (s.buffer.nextSlot room)).write line) }
    else s

/-- One step of one of the threads; what cannot happen changes nothing. -/
def step (s : Notepad) : NotepadOp → Notepad
  | .turn =>
    if s.running then
      match fgets lineSize s.input with
      | none => { s with running := false }
      | some (line, rest) => { s with input := rest }.enter (trimNewline line)
    else s
  | .autosaveTest => if s.buffer.count > 0 ∧ s.running then { s with saving := true } else s
  | .autosaveSave => if s.saving then { s.saveToFile with saving := false } else s

/-- The main loop is left and the autosave thread has been joined. -/
def Ended (s : Notepad) : Prop := s.running = false ∧ s.saving = false

instance (s : Notepad) : Decidable s.Ended := inferInstanceAs (Decidable (_ ∧ _))

end Notepad

/-- The lines of a note after a further piece is read. -/
def accept (lines : List Bytes) (piece : Bytes) : List Bytes :=
  match commandOf (trimNewline piece) with
  | some .clear => []
  | some _ => lines
  | none => if lines.length < maxLines then lines ++ [trimNewline piece] else lines

def quits (piece : Bytes) : Bool := commandOf (trimNewline piece) == some .quit

/-- The lines that are accepted of an input: those before it quits, since they were last cleared. -/
def noteLines (input : Bytes) : List Bytes :=
  ((fgetsAll lineSize input).takeWhile fun piece => !quits piece).foldl accept []

/-- The text of a note, with a newline behind each line. -/
def noteText (lines : List Bytes) : Bytes := (lines.map (· ++ [newline])).flatten

/-- The file has all the lines that were accepted, and nothing else. -/
def Notepad.KeepsText (s : Notepad) (input : Bytes) : Prop := s.file.getD [] = noteText (noteLines input)

/-- The program as its user sees it: what is to be read, the lines of the note and those on the disk. -/
structure Note where
  pieces : List Bytes
  lines : List Bytes
  saved : List Bytes
  running : Bool
  saving : Bool

namespace Note

def start (input : Bytes) : Note := ⟨fgetsAll lineSize input, [], [], true, false⟩

/-- A piece is read: quitting saves as well as the command for it. -/
def read (n : Note) (piece : Bytes) : Note :=
  { n with
    lines := accept n.lines piece
    saved := if quits piece ∨ commandOf (trimNewline piece) = some .save then n.lines else n.saved
    running := !quits piece }

def step (n : Note) : NotepadOp → Note
  | .turn =>
    if n.running then
      match n.pieces with
      | piece :: rest => { n with pieces := rest }.read piece
      | [] => { n with running := false }
    else n
  | .autosaveTest => if n.lines ≠ [] ∧ n.running then { n with saving := true } else n
  | .autosaveSave => if n.saving then { n with saved := n.lines, saving := false } else n

end Note

/-- A row holds the line that was written into it. -/
theorem TextRow.text_write (row : TextRow) {line : Bytes} (plain : 0 ∉ line) (short : line.length ≤ lineSize - 1) :
    (row.write line).text.text = line := by
  have whole := cstring_of_notMem plain
  have copied := Buffer.text_strncpy line (by decide) row.ended
  rw [whole] at copied
  exact copied.trans (List.take_of_length_le short)

/-- What is kept of a piece is a C string of its bytes, which can only end with the newline. -/
theorem trimNewline_plain {piece : Bytes} (ends : newline ∉ piece.dropLast) :
    0 ∉ trimNewline piece ∧ newline ∉ trimNewline piece ∧ (trimNewline piece).length ≤ piece.length := by
  have begins := cstring_begins piece
  have plain := zero_notMem_cstring piece
  -- Before its last byte the C string has no newline.
  have early := notMem_dropLast_cstring ends
  unfold trimNewline
  dsimp only
  split
  · -- The newline at its end is taken off.
    refine ⟨fun member => plain (List.mem_of_mem_dropLast member), early, ?_⟩
    exact Nat.le_trans (List.dropLast_prefix _).length_le begins.length_le
  · -- Its last byte is another one.
    rename_i other
    refine ⟨plain, fun member => ?_, begins.length_le⟩
    obtain ⟨before, last, split⟩ := (List.eq_nil_or_concat (cstring piece)).resolve_left fun none =>
      absurd (none ▸ member) List.not_mem_nil
    rw [List.concat_eq_append] at split
    rw [split, List.getLast?_append_of_ne_nil _ (List.cons_ne_nil _ _), List.getLast?_singleton,
      Option.some.injEq] at other
    rw [split, List.dropLast_concat] at early
    rw [split, List.mem_append, List.mem_singleton] at member
    exact member.elim early fun same => other same.symm

/-- Two notes without newlines in their lines are the same if their texts are. -/
theorem noteText_inj {lines other : List Bytes} (plain : ∀ line ∈ lines, newline ∉ line)
    (plain' : ∀ line ∈ other, newline ∉ line) : noteText lines = noteText other ↔ lines = other := by
  constructor
  · intro same
    -- Read as lines, each text gives its note back.
    have read := congrArg linesOf same
    rw [noteText, noteText, linesOf_bodies plain, linesOf_bodies plain'] at read
    exact List.map_injective_iff.mpr (List.append_left_injective _) read
  · exact congrArg noteText

/-- The program in memory and on the disk, and the note that it stands for. -/
structure Notepad.Shows (s : Notepad) (n : Note) : Prop where
  pieces : fgetsAll lineSize s.input = n.pieces
  lines : s.buffer.entries.map (fun row => row.text.text) = n.lines
  file : s.file.getD [] = noteText n.saved
  running : s.running = n.running
  saving : s.saving = n.saving

namespace Notepad

theorem Shows.count {s : Notepad} {n : Note} (shows : Shows s n) : s.buffer.count = n.lines.length := by
  rw [← shows.lines, List.length_map, SlotArray.length_entries]

/-- Saving writes the lines of the note. -/
theorem Shows.saved {s : Notepad} {n : Note} (shows : Shows s n) :
    (s.saveToFile.file.getD []) = noteText n.lines := by
  rw [← shows.lines, noteText, List.map_map]
  rfl

/-- The main loop reads what the note says is read. -/
theorem Shows.enter {s : Notepad} {n : Note} (shows : Shows s n) {piece : Bytes} (ends : newline ∉ piece.dropLast)
    (short : piece.length ≤ lineSize - 1) (running : n.running = true) :
    Shows (s.enter (trimNewline piece)) (n.read piece) := by
  obtain ⟨plain, -, length⟩ := trimNewline_plain ends
  unfold Notepad.enter Note.read accept quits
  cases asked : commandOf (trimNewline piece) with
  | none =>
    by_cases room : s.buffer.count < maxLines
    · -- The next row gets the line, and one more is counted.
      have row := (s.buffer.get (s.buffer.nextSlot room)).text_write plain (Nat.le_trans length short)
      have taken : n.lines.length < maxLines := shows.count ▸ room
      dsimp only
      rw [dif_pos room, if_pos taken]
      refine ⟨shows.pieces, ?_, shows.file, shows.running.trans running, shows.saving⟩
      simp only [SlotArray.entries_append, List.map_append, shows.lines, List.map_cons, List.map_nil, row]
    · -- A full buffer takes nothing.
      have full : ¬ n.lines.length < maxLines := shows.count ▸ room
      dsimp only
      rw [dif_neg room, if_neg full]
      exact ⟨shows.pieces, shows.lines, shows.file, shows.running.trans running, shows.saving⟩
  | some command =>
    -- A command changes the file, the buffer or nothing.
    cases command with
    | quit => exact ⟨shows.pieces, shows.lines, shows.saved, rfl, shows.saving⟩
    | save => exact ⟨shows.pieces, shows.lines, shows.saved, shows.running.trans running, shows.saving⟩
    | help => exact ⟨shows.pieces, shows.lines, shows.file, shows.running.trans running, shows.saving⟩
    | clear => exact ⟨shows.pieces, rfl, shows.file, shows.running.trans running, shows.saving⟩

/-- Each step of the program is one of the note. -/
theorem Shows.step {s : Notepad} {n : Note} (op : NotepadOp) (shows : Shows s n) : Shows (s.step op) (n.step op) := by
  obtain ⟨pieces, lines, file, running, saving⟩ := id shows
  cases op with
  | turn =>
    unfold Notepad.step Note.step
    dsimp only
    by_cases going : n.running = true
    · rw [if_pos (running.trans going), if_pos going]
      by_cases finished : s.input = []
      · -- At the end of the input both leave the loop.
        rw [finished, fgetsAll_nil] at pieces
        rw [finished, ← pieces]
        exact ⟨rfl, lines, file, rfl, saving⟩
      · -- The next call of fgets takes the first of the pieces.
        have parts := fgetsAll_cons (by decide : 2 ≤ lineSize) finished
        have read : fgets lineSize s.input =
            some ((lineOf (lineSize - 1) s.input).1, (lineOf (lineSize - 1) s.input).2) := by
          rw [fgets, if_neg finished]
        rw [read, ← pieces, parts]
        dsimp only
        have inner : Shows { s with input := (lineOf (lineSize - 1) s.input).2 }
            { n with pieces := fgetsAll lineSize (lineOf (lineSize - 1) s.input).2 } :=
          ⟨rfl, lines, file, running, saving⟩
        exact inner.enter (newline_notMem_dropLast read) (length_fgets read) going
    · rw [if_neg going, if_neg fun left => going (running.symm.trans left)]
      exact shows
  | autosaveTest =>
    -- The thread looks at the count, the note at its lines.
    have some : s.buffer.count > 0 ↔ n.lines ≠ [] := by
      rw [shows.count]
      exact List.length_pos_iff
    unfold Notepad.step Note.step
    dsimp only
    by_cases wakes : n.lines ≠ [] ∧ n.running = true
    · rw [if_pos wakes, if_pos ⟨some.mpr wakes.1, running.trans wakes.2⟩]
      exact ⟨pieces, lines, file, running, rfl⟩
    · rw [if_neg wakes, if_neg fun both => wakes ⟨some.mp both.1, running.symm.trans both.2⟩]
      exact shows
  | autosaveSave =>
    unfold Notepad.step Note.step
    dsimp only
    by_cases due : n.saving = true
    · rw [if_pos due, if_pos (saving.trans due)]
      exact ⟨pieces, lines, shows.saved, running, rfl⟩
    · rw [if_neg due, if_neg fun left => due (saving.symm.trans left)]
      exact shows

/-- At each point of a run the program is the note that the same steps make. -/
theorem shows_run (input : Bytes) (ops : List NotepadOp) :
    Shows (Machine.run step (start input) ops) (Machine.run Note.step (Note.start input) ops) :=
  Machine.run_related (fun _ _ op shows => shows.step op) ⟨rfl, rfl, rfl, rfl, rfl⟩ ops

end Notepad

namespace Note

/-- What is known of a note at each point of a run, from the pieces that the run begins with. -/
structure Reads (all : List Bytes) (n : Note) : Prop where
  /-- What is still to be read completes the lines. -/
  reading : n.running = true →
    (n.pieces.takeWhile fun piece => !quits piece).foldl accept n.lines =
      (all.takeWhile fun piece => !quits piece).foldl accept []
  quitting : n.running = true → (∃ piece ∈ all, quits piece = true) → ∃ piece ∈ n.pieces, quits piece = true
  /-- Once the main loop is left the lines are complete, and saved if it was told to quit. -/
  complete : n.running = false → n.lines = (all.takeWhile fun piece => !quits piece).foldl accept []
  saves : n.running = false → (∃ piece ∈ all, quits piece = true) → n.saved = n.lines
  ends : ∀ piece ∈ n.pieces, newline ∉ piece.dropLast
  plain : ∀ line ∈ n.lines, newline ∉ line
  plainSaved : ∀ line ∈ n.saved, newline ∉ line

/-- A piece that quits leaves the lines alone. -/
theorem accept_quits {piece : Bytes} (quit : quits piece = true) (lines : List Bytes) : accept lines piece = lines := by
  rw [quits, beq_iff_eq] at quit
  rw [accept, quit]

theorem accept_plain {lines : List Bytes} {piece : Bytes} (plain : ∀ line ∈ lines, newline ∉ line)
    (ends : newline ∉ piece.dropLast) : ∀ line ∈ accept lines piece, newline ∉ line := by
  unfold accept
  -- The lines are dropped, kept, or joined by what was typed, without its newline.
  split
  · exact fun line member => absurd member List.not_mem_nil
  · exact plain
  · split
    · intro line member
      rcases List.mem_append.mp member with old | new
      · exact plain line old
      · rw [List.mem_singleton.mp new]
        exact (trimNewline_plain ends).2.1
    · exact plain

/-- At the end of the input the lines are complete; no command to quit is among them. -/
theorem Reads.leave {all : List Bytes} {n : Note} (reads : Reads all n) (going : n.running = true)
    (none : n.pieces = []) : Reads all { n with running := false } := by
  have lines := reads.reading going
  have quitting := reads.quitting going
  have ends := reads.ends
  rw [none] at lines quitting
  refine ⟨fun again => absurd again Bool.false_ne_true, fun again => absurd again Bool.false_ne_true,
    fun _ => lines, fun _ some => ?_, ends, reads.plain, reads.plainSaved⟩
  -- There was no command to quit, or it would still be to be read.
  obtain ⟨piece, member, -⟩ := quitting some
  exact absurd member List.not_mem_nil

/-- A piece goes from those that are to be read to the lines. -/
theorem Reads.read {all : List Bytes} {n : Note} (reads : Reads all n) (going : n.running = true) {piece : Bytes}
    {rest : List Bytes} (left : n.pieces = piece :: rest) : Reads all ({ n with pieces := rest }.read piece) := by
  have lines := reads.reading going
  have quitting := reads.quitting going
  have ends := reads.ends
  rw [left] at lines quitting ends
  have plain := accept_plain reads.plain (ends piece List.mem_cons_self)
  have endsRest : ∀ other ∈ rest, newline ∉ other.dropLast := fun other member =>
    ends other (List.mem_cons_of_mem _ member)
  have plainSaved : ∀ line ∈ if quits piece ∨ commandOf (trimNewline piece) = some .save then n.lines else n.saved,
      newline ∉ line := by
    split
    · exact reads.plain
    · exact reads.plainSaved
  cases quit : quits piece with
  | true =>
    -- The lines stay as they are, and are saved.
    rw [List.takeWhile_cons_of_neg (by simp [quit])] at lines
    have same := accept_quits quit n.lines
    refine ⟨fun again => ?_, fun again => ?_, fun _ => ?_, fun _ _ => ?_, endsRest, plain, plainSaved⟩
    · simp [Note.read, quit] at again
    · simp [Note.read, quit] at again
    · exact same.trans lines
    · simp only [Note.read, quit, true_or, ↓reduceIte, same]
  | false =>
    -- What is to be read is one piece less, and the lines have taken it in.
    rw [List.takeWhile_cons_of_pos (by simp [quit])] at lines
    refine ⟨fun _ => lines, fun _ some => ?_, fun stopped => ?_, fun stopped => ?_, endsRest, plain, plainSaved⟩
    · obtain ⟨other, member, quits⟩ := quitting some
      rcases List.mem_cons.mp member with rfl | later
      · rw [quit] at quits
        cases quits
      · exact ⟨other, later, quits⟩
    · simp [Note.read, quit] at stopped
    · simp [Note.read, quit] at stopped

/-- Each step reads on. -/
theorem Reads.step {all : List Bytes} {n : Note} (reads : Reads all n) (op : NotepadOp) : Reads all (n.step op) := by
  cases op with
  | turn =>
    unfold Note.step
    dsimp only
    by_cases going : n.running = true
    · rw [if_pos going]
      cases left : n.pieces with
      | nil =>
        -- The input ends, and the loop is left without a save.
        have done := reads.leave going left
        rwa [left] at done
      | cons piece rest => exact reads.read going left
    · rw [if_neg going]
      exact reads
  | autosaveTest =>
    -- The thread only notes whether there is anything to save.
    unfold Note.step
    dsimp only
    split
    · exact ⟨reads.reading, reads.quitting, reads.complete, reads.saves, reads.ends, reads.plain, reads.plainSaved⟩
    · exact reads
  | autosaveSave =>
    unfold Note.step
    dsimp only
    split
    · exact ⟨reads.reading, reads.quitting, reads.complete, fun _ _ => rfl, reads.ends, reads.plain, reads.plain⟩
    · exact reads

theorem reads_run (input : Bytes) (ops : List NotepadOp) :
    Reads (fgetsAll lineSize input) (Machine.run step (start input) ops) := by
  -- At the beginning all pieces are to be read, and nothing is kept or saved.
  have initial : Reads (fgetsAll lineSize input) (start input) := by
    refine ⟨fun _ => rfl, fun _ some => some, fun stopped => absurd stopped.symm Bool.false_ne_true,
      fun stopped => absurd stopped.symm Bool.false_ne_true,
      fun piece member => newline_notMem_of_mem_fgetsAll (by decide) member, ?_, ?_⟩
    · exact fun line member => absurd member List.not_mem_nil
    · exact fun line member => absurd member List.not_mem_nil
  exact Machine.invariant_run (fun _ op reads => reads.step op) initial ops

end Note

/-- The lines of the note when so many pieces of the input have been read. -/
def linesAfter (input : Bytes) (read : Nat) : List Bytes := ((fgetsAll lineSize input).take read).foldl accept []

/-- The piece behind so many is a line that is accepted, or a :clear that takes lines away. -/
def Edits (input : Bytes) (read : Nat) : Prop := linesAfter input (read + 1) ≠ linesAfter input read

/-- How many turns the main loop has in a schedule. -/
def turns (ops : List NotepadOp) : Nat := ops.count .turn

/--
The schedule comes to a save when so many pieces have been read.

It is asked for by a command, or made by the autosave thread, which has found lines at its test.
-/
inductive SavesAt (input : Bytes) (ops : List NotepadOp) : Nat → Prop where
  | command (before after : List NotepadOp) (split : ops = before ++ .turn :: after) (piece : Bytes)
      (read : (fgetsAll lineSize input)[turns before]? = some piece)
      (asked : commandOf (trimNewline piece) = some .save) : SavesAt input ops (turns before)
  | autosave (before middle after : List NotepadOp)
      (split : ops = before ++ .autosaveTest :: (middle ++ .autosaveSave :: after))
      (alone : .autosaveSave ∉ middle) (found : linesAfter input (turns before) ≠ [])
      (running : turns before ≤ (fgetsAll lineSize input).length) :
      SavesAt input ops (turns before + turns middle)

/--
The input has a command to quit, or nothing is edited behind a save.

A note that is not edited at all needs no save.
-/
def SavesLast (input : Bytes) (ops : List NotepadOp) : Prop :=
  (∃ piece ∈ fgetsAll lineSize input, quits piece = true) ∨
    ∃ read, (read = 0 ∨ SavesAt input ops read) ∧ ∀ later, read ≤ later → ¬ Edits input later

namespace Note

/-- Without a command to quit, each turn reads the next piece, as long as there is one. -/
structure At (input : Bytes) (read : Nat) (n : Note) : Prop where
  pieces : n.pieces = (fgetsAll lineSize input).drop read
  lines : n.lines = linesAfter input read
  running : n.running = true ↔ read ≤ (fgetsAll lineSize input).length

variable {input : Bytes}

/-- At the end of the input nothing is read any more. -/
theorem linesAfter_end {read : Nat} (finished : (fgetsAll lineSize input).length ≤ read) :
    linesAfter input (read + 1) = linesAfter input read := by
  rw [linesAfter, linesAfter, List.take_of_length_le finished, List.take_of_length_le (Nat.le_succ_of_le finished)]

/-- The next piece is accepted or not. -/
theorem linesAfter_succ {read : Nat} {piece : Bytes} (here : (fgetsAll lineSize input)[read]? = some piece) :
    linesAfter input (read + 1) = accept (linesAfter input read) piece := by
  rw [linesAfter, List.take_add_one, here, List.foldl_append]
  rfl

theorem step_turn_cons {n : Note} (going : n.running = true) {piece : Bytes} {rest : List Bytes}
    (left : n.pieces = piece :: rest) : n.step .turn = { n with pieces := rest }.read piece := by
  unfold Note.step
  dsimp only
  rw [if_pos going, left]

theorem step_turn_nil {n : Note} (going : n.running = true) (none : n.pieces = []) :
    n.step .turn = { n with running := false } := by
  unfold Note.step
  dsimp only
  rw [if_pos going, none]

theorem step_autosaveTest {n : Note} (found : n.lines ≠ []) (going : n.running = true) :
    n.step .autosaveTest = { n with saving := true } :=
  if_pos ⟨found, going⟩

theorem step_autosaveSave {n : Note} (saving : n.saving = true) :
    n.step .autosaveSave = { n with saved := n.lines, saving := false } :=
  if_pos saving

/-- A turn leaves the loop, does nothing behind it, or reads the next piece. -/
theorem At.turn (stays : ∀ piece ∈ fgetsAll lineSize input, quits piece = false) {read : Nat} {n : Note}
    (place : At input read n) : At input (read + 1) (n.step .turn) := by
  obtain ⟨pieces, lines, running⟩ := place
  by_cases going : n.running = true
  · have within := running.mp going
    cases here : (fgetsAll lineSize input)[read]? with
    | none =>
      -- The input ends here.
      have finished := List.getElem?_eq_none_iff.mp here
      have none : n.pieces = [] := pieces.trans (List.drop_of_length_le finished)
      rw [step_turn_nil going none]
      refine ⟨none.trans (List.drop_of_length_le (Nat.le_succ_of_le finished)).symm, ?_, ?_⟩
      · exact lines.trans (linesAfter_end finished).symm
      · exact iff_of_false Bool.false_ne_true (by omega)
    | some piece =>
      obtain ⟨inside, same⟩ := List.getElem?_eq_some_iff.mp here
      have left : n.pieces = piece :: (fgetsAll lineSize input).drop (read + 1) := by
        rw [pieces, List.drop_eq_getElem_cons inside, same]
      have reads := stays piece (List.mem_of_getElem? here)
      rw [step_turn_cons going left]
      refine ⟨rfl, ?_, ?_⟩
      · rw [linesAfter_succ here, ← lines]
        rfl
      · simp only [Note.read, reads, Bool.not_false, true_iff]
        omega
  · rw [show n.step .turn = n from if_neg going]
    -- The loop was left when the pieces were all read.
    have past : (fgetsAll lineSize input).length < read := Nat.lt_of_not_le fun within => going (running.mpr within)
    refine ⟨?_, ?_, iff_of_false going (by omega)⟩
    · rw [pieces, List.drop_of_length_le (by omega), List.drop_of_length_le (by omega)]
    · exact lines.trans (linesAfter_end (Nat.le_of_lt past)).symm

/-- The autosave thread reads nothing. -/
theorem At.other {read : Nat} {n : Note} {op : NotepadOp} (place : At input read n) (other : op ≠ .turn) :
    At input read (n.step op) := by
  cases op with
  | turn => exact absurd rfl other
  | autosaveTest =>
    unfold Note.step
    dsimp only
    split <;> exact ⟨place.pieces, place.lines, place.running⟩
  | autosaveSave =>
    unfold Note.step
    dsimp only
    split <;> exact ⟨place.pieces, place.lines, place.running⟩

theorem turns_cons (op : NotepadOp) (ops : List NotepadOp) :
    turns (op :: ops) = (if op = .turn then 1 else 0) + turns ops := by
  rw [turns, List.count_cons, turns, Nat.add_comm]
  simp

/-- A schedule reads as many pieces as the main loop has turns in it. -/
theorem At.run (stays : ∀ piece ∈ fgetsAll lineSize input, quits piece = false) (ops : List NotepadOp) {read : Nat}
    {n : Note} (place : At input read n) : At input (read + turns ops) (Machine.run step n ops) := by
  induction ops generalizing read n with
  | nil => exact place
  | cons op rest ih =>
    rw [Machine.run_cons, turns_cons]
    by_cases turn : op = .turn
    · subst turn
      have next := ih (place.turn stays)
      rwa [if_pos rfl, ← Nat.add_assoc]
    · have next := ih (place.other turn)
      rwa [if_neg turn, Nat.zero_add]

theorem at_start (input : Bytes) : At input 0 (start input) := ⟨rfl, rfl, by simp [start]⟩

/-- A test that found something is remembered until the save. -/
theorem saving_run {ops : List NotepadOp} (alone : .autosaveSave ∉ ops) {n : Note} (saving : n.saving = true) :
    (Machine.run step n ops).saving = true := by
  induction ops generalizing n with
  | nil => exact saving
  | cons op rest ih =>
    obtain ⟨here, later⟩ := not_or.mp (List.mem_cons.not.mp alone)
    refine ih later ?_
    cases op with
    | turn =>
      unfold Note.step
      dsimp only
      repeat' split
      all_goals exact saving
    | autosaveTest =>
      unfold Note.step
      dsimp only
      split
      · rfl
      · exact saving
    | autosaveSave => exact absurd rfl here

/-- As long as nothing is edited, what is saved stays the lines of the note. -/
theorem saved_run (stays : ∀ piece ∈ fgetsAll lineSize input, quits piece = false) (ops : List NotepadOp) {read : Nat}
    {n : Note} (place : At input read n) (idle : ∀ later, read ≤ later → ¬ Edits input later)
    (saved : n.saved = n.lines) : (Machine.run step n ops).saved = (Machine.run step n ops).lines := by
  induction ops generalizing read n with
  | nil => exact saved
  | cons op rest ih =>
    rw [Machine.run_cons]
    by_cases turn : op = .turn
    · subst turn
      have after := place.turn stays
      refine ih after (fun later past => idle later (by omega)) ?_
      -- The lines are those before the turn, whether they are saved anew or not.
      have same : (n.step .turn).lines = n.lines := by
        rw [after.lines, place.lines]
        exact not_not.mp (idle read (Nat.le_refl read))
      rw [same, ← saved]
      unfold Note.step
      dsimp only
      split
      · split
        · dsimp only [Note.read]
          split
          · exact saved.symm
          · rfl
        · rfl
      · rfl
    · refine ih (place.other turn) idle ?_
      cases op with
      | turn => exact absurd rfl turn
      | autosaveTest =>
        unfold Note.step
        dsimp only
        split <;> exact saved
      | autosaveSave =>
        unfold Note.step
        dsimp only
        split
        · rfl
        · exact saved

/-- At a save the lines of the note are those that are saved. -/
theorem saved_at (stays : ∀ piece ∈ fgetsAll lineSize input, quits piece = false) {ops : List NotepadOp} {read : Nat}
    (saves : SavesAt input ops read) (idle : ∀ later, read ≤ later → ¬ Edits input later) :
    (Machine.run step (start input) ops).saved = (Machine.run step (start input) ops).lines := by
  cases saves with
  | command before after split piece here asked =>
    have place := (at_start input).run stays before
    rw [Nat.zero_add] at place
    rw [split, Machine.run_append, Machine.run_cons]
    refine saved_run stays after (place.turn stays) (fun later past => idle later (by omega)) ?_
    -- The piece that is read is the command to save.
    obtain ⟨inside, same⟩ := List.getElem?_eq_some_iff.mp here
    have going := place.running.mpr (Nat.le_of_lt inside)
    have left := place.pieces
    rw [List.drop_eq_getElem_cons inside, same] at left
    rw [step_turn_cons going left]
    simp only [Note.read, asked, or_true, ↓reduceIte, accept]
  | autosave before middle after split alone found running =>
    have place := (at_start input).run stays before
    rw [Nat.zero_add] at place
    have tested := (@At.other _ _ _ .autosaveTest place (by decide)).run stays middle
    rw [split, Machine.run_append, Machine.run_cons, Machine.run_append, Machine.run_cons]
    refine saved_run stays after (tested.other (by decide)) idle ?_
    -- The thread has found lines, and it saves those that are there now.
    have saving : ((Machine.run step (start input) before).step .autosaveTest).saving = true := by
      rw [step_autosaveTest (place.lines ▸ found) (place.running.mpr running)]
    rw [step_autosaveSave (saving_run alone saving)]

end Note

/-- When the program has ended, the file has all the accepted lines exactly if these were saved last. -/
theorem keepsText_iff_saved (input : Bytes) (ops : List NotepadOp)
    (ended : (Machine.run Notepad.step (Notepad.start input) ops).Ended) :
    (Machine.run Notepad.step (Notepad.start input) ops).KeepsText input ↔
      (Machine.run Note.step (Note.start input) ops).saved = (Machine.run Note.step (Note.start input) ops).lines := by
  have shows := Notepad.shows_run input ops
  have reads := Note.reads_run input ops
  have complete := reads.complete (shows.running.symm.trans ended.1)
  rw [Notepad.KeepsText, shows.file, ← noteText_inj reads.plainSaved reads.plain, complete]
  rfl

/--
When the program has ended, the file has all the accepted lines if the program was told to quit, or if
nothing was edited behind a save.
-/
theorem keepsText_of_savesLast (input : Bytes) (ops : List NotepadOp)
    (ended : (Machine.run Notepad.step (Notepad.start input) ops).Ended) (saves : SavesLast input ops) :
    (Machine.run Notepad.step (Notepad.start input) ops).KeepsText input := by
  have stopped := (Notepad.shows_run input ops).running.symm.trans ended.1
  rw [keepsText_iff_saved input ops ended]
  by_cases quit : ∃ piece ∈ fgetsAll lineSize input, quits piece = true
  · exact (Note.reads_run input ops).saves stopped quit
  · -- Without a command to quit every piece is read, and the schedule says what was saved.
    have stays : ∀ piece ∈ fgetsAll lineSize input, quits piece = false := fun piece member =>
      Bool.eq_false_iff.mpr fun quits => quit ⟨piece, member, quits⟩
    obtain ⟨read, unedited | saved, idle⟩ := saves.resolve_left quit
    · subst unedited
      exact Note.saved_run stays ops (Note.at_start input) idle rfl
    · exact Note.saved_at stays saved idle

/-- The autosave thread saves a line that nothing is edited behind. -/
theorem keepsText_of_savesLast_autosave :
    (Machine.run Notepad.step (Notepad.start (ascii "Milk" ++ newline :: ascii ":help"))
      [.turn, .autosaveTest, .turn, .autosaveSave, .turn]).KeepsText (ascii "Milk" ++ newline :: ascii ":help") := by
  have pieces : fgetsAll lineSize (ascii "Milk" ++ newline :: ascii ":help") = [ascii "Milk" ++ [newline], ascii ":help"] := by
    decide +kernel
  have idle : ∀ later, 2 ≤ later → ¬ Edits (ascii "Milk" ++ newline :: ascii ":help") later := fun later past =>
    not_not.mpr (Note.linesAfter_end (by rw [pieces]; exact past))
  refine keepsText_of_savesLast _ [.turn, .autosaveTest, .turn, .autosaveSave, .turn] (by decide +kernel)
    (Or.inr ⟨2, Or.inr ?_, idle⟩)
  exact .autosave [.turn] [.turn] [.turn] rfl (by decide) (by decide +kernel) (by rw [pieces]; decide)

/-- A line that is followed by the end of the input is lost. -/
theorem end_of_input_loses_line :
    (Machine.run Notepad.step (Notepad.start (ascii "Milk" ++ [newline])) [.turn, .turn]).Ended ∧
      ¬ (Machine.run Notepad.step (Notepad.start (ascii "Milk" ++ [newline])) [.turn, .turn]).KeepsText
        (ascii "Milk" ++ [newline]) := by
  refine ⟨by decide +kernel, fun kept => ?_⟩
  unfold Notepad.KeepsText at kept
  revert kept
  decide +kernel

end Nebula
