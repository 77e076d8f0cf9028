import Nebula.Library.FileRegion
import Nebula.Programs.Console
import Nebula.Programs.Notepad
import Nebula.Programs.TodoList

/-! Programs that work on the virtual disk one after another, and what a session of them leaves alone. -/

namespace Nebula

open CText Paths

/-- What strftime makes of the date and the time for the name of a note. -/
structure Stamp where
  text : Bytes
  plain : ∀ byte ∈ text, isDigit byte = true ∨ byte = ch '_'
  short : text.length ≤ 54

/-- generate_filename -/
def generateFilename (stamp : Stamp) : Bytes := ascii "note_" ++ stamp.text ++ ascii ".txt"

/-- The name of the file that the to-do list is kept in. -/
def todoName : Bytes := ascii "todo.txt"

/-- The place of a name on the virtual disk. -/
def hddPlace (cwd : List Bytes) (name : Bytes) : List Bytes := FileTree.leads cwd (components (hddPath name))

/-- The name that a line of the terminal makes a directory or a file of. -/
def terminalTarget (line : Bytes) : Option Bytes :=
  if startsWith "cat " (trimNewline line) then none else terminalName line

/-- A text is saved to a file: it is opened, and as much as finds space is written. -/
def saveFile (disk : Disk) (cwd : List Bytes) (around : Circumstances) (name text : Bytes) : Report :=
  match granted around.grants.write (disk.openWrite cwd (components (hddPath name)) []) with
  | some (place, disk') => ⟨writeAt disk' place (text.take around.space), true⟩
  | none => ⟨disk, false⟩

/-- delete_file, for the name that is selected; without a result the path is too long for its buffer. -/
def deleteFile (disk : Disk) (cwd : List Bytes) (around : Circumstances) (name confirm : Bytes) : Option Report :=
  if charAt confirm 0 = ch 'y' ∨ charAt confirm 0 = ch 'Y' then
    (sprintf 128 (hddPath name)).map fun path =>
      match granted around.grants.write (disk.remove cwd (components path)) with
      | some disk' => ⟨disk', true⟩
      | none => ⟨disk, false⟩
  else some ⟨disk, false⟩

/-- init_storage, which says nothing of a failure. -/
def initStorage (disk : Disk) (cwd : List Bytes) (around : Circumstances) : Disk :=
  match disk.stat cwd (components hddName) with
  | none => (granted around.grants.mkdir (disk.mkdir cwd (components hddName))).getD disk
  | some _ => disk

/-- What works on the virtual disk, with all that is listed and typed. -/
inductive DiskStep where
  /-- The start of the system. -/
  | prepare
  | create (line : Bytes)
  | transfer (tool : FileTool.Transfer) (listing : Listing)
  | move (listing : Listing) (line : Bytes)
  | rename (listing : Listing) (line : Bytes)
  | delete (listing : Listing) (confirm : Bytes)
  | terminal (line : Bytes)
  | saveNote (stamp : Stamp) (note : Notepad)
  | saveTodos (todos : Todos)

namespace DiskStep

section Run

variable (cwd : List Bytes) (around : Circumstances) (disk : Disk)

/-- A program that asks for a number does nothing without a selection. -/
def onSelected (listing : Listing) (program : Bytes → Option Disk) : Option Disk :=
  match listing.selected with
  | some name => program name
  | none => some disk

/-- The disk afterwards, if no buffer overflows. -/
def run : DiskStep → Option Disk
  | .prepare => some (initStorage disk cwd around)
  | .create line => some (createFile disk cwd around.grants line).disk
  | .transfer tool listing =>
    onSelected disk listing fun name => some (tool.run disk cwd around.grants around.space name).disk
  | .move listing line => onSelected disk listing fun name => some (moveFile disk cwd around.grants name line).disk
  | .rename listing line => onSelected disk listing fun name =>
    (renameFile disk cwd around.grants name line).map Report.disk
  | .delete listing confirm => onSelected disk listing fun name =>
    (deleteFile disk cwd around name confirm).map Report.disk
  | .terminal line => (Console.line cwd around ⟨disk, []⟩ line).map Console.disk
  | .saveNote stamp note =>
    some (saveFile disk cwd around (generateFilename stamp)
      (note.buffer.entries.map fun row => row.text.text ++ [newline]).flatten).disk
  | .saveTodos todos => some (saveFile disk cwd around todoName todos.saved).disk

end Run

/-- The paths of what a step may make, fill, move or take away. -/
def paths : DiskStep → List (List (Component Bytes))
  | .prepare => [components hddName]
  | .create line => if chopped line = [] then [] else [components (hddPath (chopped line))]
  | .transfer tool listing => listing.selected.toList.map tool.dest
  | .move listing line => listing.selected.toList.flatMap fun name =>
    [selectedPath name, components (moveFolder line), moveTarget name line]
  | .rename listing line => listing.selected.toList.flatMap fun name =>
    [components (hddPath name), components (hddPath (chopped line))]
  | .delete listing _ => listing.selected.toList.map fun name => components (hddPath name)
  | .terminal line => (terminalTarget line).toList.map fun name => components (hddPath name)
  | .saveNote stamp _ => [components (hddPath (generateFilename stamp))]
  | .saveTodos _ => [components (hddPath todoName)]

/-- The places of these. -/
def tops (cwd : List Bytes) (step : DiskStep) : List (List Bytes) := step.paths.map (FileTree.leads cwd)

/-- Steps that are taken one after the other, each in its own circumstances. -/
def session (cwd : List Bytes) : List (DiskStep × Circumstances) → Disk → Option Disk
  | [], disk => some disk
  | (step, around) :: later, disk => (step.run cwd around disk).bind (session cwd later)

end DiskStep

open FileTool (granted_eq_some)

section Changes

variable {disk disk' : Disk} {cwd place : List Bytes} {path : List (Component Bytes)} {grant : Bool}

/-- What is written to a file changes only that. -/
theorem changesOnly_writeAt (disk : Disk) (place : List Bytes) (text : Bytes) :
    FileTree.ChangesOnly [place] disk (writeAt disk place text) := by
  unfold writeAt
  -- Where nothing can be put, nothing is changed.
  split
  · exact FileTree.changesOnly_put disk _ _
  · exact .refl _ disk

/-- A file that is opened and written to is all that changes. -/
theorem changesOnly_opened (opened : granted grant (disk.openWrite cwd path []) = some (place, disk')) (text : Bytes) :
    FileTree.ChangesOnly [FileTree.leads cwd path] disk (writeAt disk' place text) := by
  obtain ⟨there, opens⟩ := FileTree.changesOnly_openWrite (granted_eq_some.mp opened).2
  -- The place that is written to is the one that was opened.
  apply opens.trans
  rw [← there]
  exact changesOnly_writeAt disk' place text

/-- Saving a text changes only the file of the name. -/
theorem changesOnly_saveFile (disk : Disk) (cwd : List Bytes) (around : Circumstances) (name text : Bytes) :
    FileTree.ChangesOnly [hddPlace cwd name] disk (saveFile disk cwd around name text).disk := by
  unfold saveFile
  split
  · rename_i opened
    exact changesOnly_opened opened _
  · exact .refl _ disk

/-- create_file changes only the file of the name that is typed. -/
theorem changesOnly_createFile (disk : Disk) (cwd : List Bytes) (grants : Grants) (line : Bytes) :
    FileTree.ChangesOnly (DiskStep.tops cwd (.create line)) disk (createFile disk cwd grants line).disk := by
  unfold createFile DiskStep.tops DiskStep.paths
  dsimp only
  by_cases empty : chopped line = []
  · -- Without a name nothing is done.
    rw [if_pos (List.length_eq_zero_iff.mpr empty)]
    exact .refl _ disk
  · rw [if_neg (mt List.length_eq_zero_iff.mp empty), if_neg empty]
    split
    · exact .refl _ disk
    · split
      · rename_i opened
        exact (FileTree.changesOnly_openWrite (granted_eq_some.mp opened).2).2
      · exact .refl _ disk

/-- Copying and compressing change only the file that is written. -/
theorem changesOnly_transfer (disk : Disk) (cwd : List Bytes) (grants : Grants) (space : Nat)
    (tool : FileTool.Transfer) (name : Bytes) :
    FileTree.ChangesOnly [FileTree.leads cwd (tool.dest name)] disk (tool.run disk cwd grants space name).disk := by
  unfold FileTool.Transfer.run
  dsimp only
  split
  · exact .refl _ disk
  · rename_i opened
    -- The file is empty at least, whether or not there is something to be written to it.
    split
    · exact (FileTree.changesOnly_openWrite (granted_eq_some.mp opened).2).2
    · exact changesOnly_opened opened _

/-- move_file changes only the selected file, the folder and what it renames to. -/
theorem changesOnly_moveFile (disk : Disk) (cwd : List Bytes) (grants : Grants) (name line : Bytes) :
    FileTree.ChangesOnly ([selectedPath name, components (moveFolder line), moveTarget name line].map
      (FileTree.leads cwd)) disk (moveFile disk cwd grants name line).disk := by
  -- First the folder is made, unless it is there.
  have folder : FileTree.ChangesOnly [FileTree.leads cwd (components (moveFolder line))] disk
      (moveReady disk cwd grants line) := by
    unfold moveReady
    cases made : granted grants.mkdir (disk.mkdir cwd (components (moveFolder line))) with
    | none => exact .refl _ disk
    | some disk' => exact FileTree.changesOnly_mkdir (granted_eq_some.mp made).2
  refine (folder.mono (by simp)).trans ?_
  unfold moveFile
  dsimp only
  split
  · rename_i renamed
    exact (FileTree.changesOnly_renamePath (granted_eq_some.mp renamed).2).mono (by simp)
  · exact .refl _ _

/-- rename_file changes only the selected file and the new name. -/
theorem changesOnly_renameFile {grants : Grants} {name line : Bytes} {report : Report}
    (renamed : renameFile disk cwd grants name line = some report) :
    FileTree.ChangesOnly [hddPlace cwd name, hddPlace cwd (chopped line)] disk report.disk := by
  obtain ⟨path, made, rfl⟩ := Option.map_eq_some_iff.mp renamed
  obtain rfl := sprintf_eq_some made
  dsimp only
  split
  · exact .refl _ disk
  · split
    · rename_i renamed
      exact FileTree.changesOnly_renamePath (granted_eq_some.mp renamed).2
    · exact .refl _ disk

/-- delete_file changes only the selected file. -/
theorem changesOnly_deleteFile {around : Circumstances} {name confirm : Bytes} {report : Report}
    (deleted : deleteFile disk cwd around name confirm = some report) :
    FileTree.ChangesOnly [hddPlace cwd name] disk report.disk := by
  unfold deleteFile at deleted
  split at deleted
  · obtain ⟨path, made, rfl⟩ := Option.map_eq_some_iff.mp deleted
    -- The path is the name below the directory, for which there is room.
    obtain rfl : hddPath name = path := by
      unfold sprintf at made
      split at made
      · exact Option.some.inj made
      · cases made
    split
    · rename_i removed
      exact FileTree.changesOnly_remove (granted_eq_some.mp removed).2
    · exact .refl _ disk
  · obtain rfl := Option.some.inj deleted
    exact .refl _ disk

/-- init_storage changes only the directory of the virtual disk. -/
theorem changesOnly_initStorage (disk : Disk) (cwd : List Bytes) (around : Circumstances) :
    FileTree.ChangesOnly [FileTree.leads cwd (components hddName)] disk (initStorage disk cwd around) := by
  unfold initStorage
  split
  · cases made : granted around.grants.mkdir (disk.mkdir cwd (components hddName)) with
    | none => exact .refl _ disk
    | some disk' => exact FileTree.changesOnly_mkdir (granted_eq_some.mp made).2
  · exact .refl _ disk

end Changes

namespace Console

variable {cwd : List Bytes} {around : Circumstances} {c c' : Console}

/-- Listing the files only prints. -/
theorem disk_ls (cwd : List Bytes) (around : Circumstances) (c : Console) : (c.ls cwd around).disk = c.disk := by
  -- One name after the other is printed, and none of that is on the disk.
  have printing : ∀ (names : List Bytes) (c : Console),
      (names.foldl (fun c name => c.print (ascii "    " ++ name ++ [newline])) c).disk = c.disk := by
    intro names
    induction names with
    | nil => exact fun c => rfl
    | cons name names ih => exact fun c => ih _
  unfold ls
  split
  · exact printing _ _
  · rfl

/-- Showing a file only prints. -/
theorem disk_cat {filename : Bytes} (ran : c.cat cwd around filename = some c') : c'.disk = c.disk := by
  obtain ⟨path, -, rfl⟩ := Option.map_eq_some_iff.mp ran
  -- So does the message that it cannot be opened.
  split <;> rfl

/-- mkdir changes only what it makes. -/
theorem changesOnly_makeDir {name : Bytes} (ran : c.makeDir cwd around name = some c') :
    FileTree.ChangesOnly [hddPlace cwd name] c.disk c'.disk := by
  obtain ⟨path, made, rfl⟩ := Option.map_eq_some_iff.mp ran
  obtain rfl := sprintf_eq_some made
  -- What is printed besides makes no difference to the disk.
  split
  · rename_i made
    exact FileTree.changesOnly_mkdir (granted_eq_some.mp made).2
  · exact .refl _ c.disk

/-- A redirect changes only the file behind it. -/
theorem changesOnly_echo {input text behind : Bytes} (found : strchr (ch '>') input = some (text, behind))
    (ran : c.echo cwd around input = some c') :
    FileTree.ChangesOnly [hddPlace cwd (behind.dropWhile (· == ch ' '))] c.disk c'.disk := by
  unfold echo at ran
  rw [found] at ran
  obtain ⟨path, made, rfl⟩ := Option.map_eq_some_iff.mp ran
  obtain rfl := sprintf_eq_some made
  -- A file that cannot be opened is left alone.
  split
  · rename_i opened
    exact changesOnly_opened opened _
  · exact .refl _ c.disk

/-- A line changes only the directory or the file that it names. -/
theorem changesOnly_line {line : Bytes} (ran : c.line cwd around line = some c') :
    FileTree.ChangesOnly ((terminalTarget line).toList.map (hddPlace cwd)) c.disk c'.disk := by
  unfold Console.line at ran
  dsimp only at ran
  by_cases empty : trimNewline line = []
  · rw [if_pos empty] at ran
    obtain rfl := Option.some.inj ran
    exact .refl _ c.disk
  rw [if_neg empty] at ran
  -- The commands that make something are the two that the name is taken from.
  unfold Console.command at ran
  split_ifs at ran with ls pwd cat mkdir echo clear
  · obtain rfl := Option.some.inj ran
    rw [disk_ls]
    exact .refl _ c.disk
  · obtain rfl := Option.some.inj ran
    exact .refl _ c.disk
  · rw [disk_cat ran]
    exact .refl _ c.disk
  · have exit : trimNewline line ≠ ascii "exit" := by
      intro same
      rw [same] at mkdir
      exact absurd mkdir (by decide)
    have target : terminalTarget line = some ((trimNewline line).drop 6) := by
      simp only [terminalTarget, terminalName, empty, exit, ls, pwd, cat, mkdir, ↓reduceIte, Bool.false_eq_true]
    rw [target]
    exact changesOnly_makeDir ran
  · have exit : trimNewline line ≠ ascii "exit" := by
      intro same
      rw [same] at echo
      exact absurd echo (by decide)
    cases found : strchr (ch '>') ((trimNewline line).drop 5) with
    | none =>
      -- Without a redirect the text is only printed.
      unfold Console.echo at ran
      rw [found] at ran
      obtain rfl := Option.some.inj ran
      exact .refl _ c.disk
    | some parts =>
      obtain ⟨text, behind⟩ := parts
      have target : terminalTarget line = some (behind.dropWhile (· == ch ' ')) := by
        simp only [terminalTarget, terminalName, empty, exit, ls, pwd, cat, mkdir, echo, found, ↓reduceIte,
          Bool.false_eq_true]
      rw [target]
      exact changesOnly_echo found ran
  · obtain rfl := Option.some.inj ran
    exact .refl _ c.disk
  · obtain rfl := Option.some.inj ran
    exact .refl _ c.disk

end Console

namespace DiskStep

variable {cwd : List Bytes} {around : Circumstances} {disk disk' : Disk}

/-- What follows a selection changes nothing if nothing is selected. -/
theorem changesOnly_onSelected {listing : Listing} {program : Bytes → Option Disk} {tops : List (List Bytes)}
    (ran : onSelected disk listing program = some disk')
    (each : ∀ name, listing.selected = some name → program name = some disk' →
      FileTree.ChangesOnly tops disk disk') : FileTree.ChangesOnly tops disk disk' := by
  unfold onSelected at ran
  split at ran
  · rename_i name chosen
    exact each name chosen ran
  · obtain rfl := Option.some.inj ran
    exact .refl _ disk

/-- A step changes only the places that its paths lead to. -/
theorem changesOnly_run {step : DiskStep} (ran : step.run cwd around disk = some disk') :
    FileTree.ChangesOnly (step.tops cwd) disk disk' := by
  -- Each program has been looked at by itself.
  cases step with
  | prepare =>
    obtain rfl := Option.some.inj ran
    exact changesOnly_initStorage disk cwd around
  | create line =>
    obtain rfl := Option.some.inj ran
    exact changesOnly_createFile disk cwd around.grants line
  | transfer tool listing =>
    apply changesOnly_onSelected ran
    intro name chosen ran
    obtain rfl := Option.some.inj ran
    rw [tops, paths, chosen]
    exact changesOnly_transfer disk cwd around.grants around.space tool name
  | move listing line =>
    apply changesOnly_onSelected ran
    intro name chosen ran
    obtain rfl := Option.some.inj ran
    rw [tops, paths, chosen]
    exact changesOnly_moveFile disk cwd around.grants name line
  | rename listing line =>
    apply changesOnly_onSelected ran
    intro name chosen ran
    obtain ⟨report, renamed, rfl⟩ := Option.map_eq_some_iff.mp ran
    rw [tops, paths, chosen]
    exact changesOnly_renameFile renamed
  | delete listing confirm =>
    apply changesOnly_onSelected ran
    intro name chosen ran
    obtain ⟨report, deleted, rfl⟩ := Option.map_eq_some_iff.mp ran
    rw [tops, paths, chosen]
    exact changesOnly_deleteFile deleted
  | terminal line =>
    obtain ⟨c, typed, rfl⟩ := Option.map_eq_some_iff.mp ran
    rw [tops, paths, List.map_map]
    exact Console.changesOnly_line typed
  | saveNote stamp note =>
    obtain rfl := Option.some.inj ran
    exact changesOnly_saveFile disk cwd around _ _
  | saveTodos todos =>
    obtain rfl := Option.some.inj ran
    exact changesOnly_saveFile disk cwd around _ _

/-- A session changes only the places that the paths of its steps lead to. -/
theorem changesOnly_session {steps : List (DiskStep × Circumstances)} {tops : List (List Bytes)}
    (within : ∀ step ∈ steps, ∀ top ∈ step.1.tops cwd, ∃ above ∈ tops, above <+: top)
    (ran : session cwd steps disk = some disk') : FileTree.ChangesOnly tops disk disk' := by
  -- Step by step, what is changed is below one of the tops.
  induction steps generalizing disk with
  | nil =>
    obtain rfl := Option.some.inj ran
    exact .refl _ disk
  | cons first later ih =>
    obtain ⟨step, around⟩ := first
    obtain ⟨between, ran, rest⟩ := Option.bind_eq_some_iff.mp ran
    have one : FileTree.ChangesOnly tops disk between := by
      intro place apart
      apply changesOnly_run ran
      intro top member below
      obtain ⟨above, allowed, higher⟩ := within _ List.mem_cons_self top member
      exact apart above allowed (higher.trans below)
    exact one.trans (ih (fun step member => within step (List.mem_cons_of_mem _ member)) rest)

end DiskStep

namespace Console

variable {cwd : List Bytes} {around : Circumstances}

/-- What a line does to the disk does not depend on what has been printed. -/
theorem map_disk_line (c : Console) (printed line : Bytes) :
    (Console.line cwd around { c with printed := printed } line).map disk =
      (Console.line cwd around c line).map disk := by
  have listing : ∀ c : Console, (c.ls cwd around).disk = c.disk := disk_ls cwd around
  unfold Console.line command
  dsimp only
  -- Command by command the same calls are made.
  split_ifs
  · rfl
  · rw [Option.map_some, Option.map_some, listing, listing]
  · rfl
  · unfold cat
    cases sprintf 128 (hddPath ((trimNewline line).drop 4)) with
    | none => rfl
    | some path =>
      dsimp only [Option.map_some]
      split <;> rfl
  · unfold makeDir
    cases sprintf 128 (hddPath ((trimNewline line).drop 6)) with
    | none => rfl
    | some path =>
      dsimp only [Option.map_some]
      split <;> rfl
  · unfold echo
    dsimp only
    split
    · rename_i text behind found
      cases sprintf 128 (hddPath (behind.dropWhile (· == ch ' '))) with
      | none => rfl
      | some path =>
        dsimp only [Option.map_some]
        split <;> rfl
    · rfl
  · rfl
  · rfl

end Console

/-- The terminal does to the disk what a session of the lines before the first exit does. -/
theorem session_of_terminal {cwd : List Bytes} {lines : List (Bytes × Circumstances)} {c c' : Console}
    (ran : Console.run cwd lines c = some c') :
    DiskStep.session cwd ((lines.takeWhile fun typed => trimNewline typed.1 ≠ ascii "exit").map fun typed =>
      (.terminal typed.1, typed.2)) c.disk = some c'.disk := by
  induction lines generalizing c with
  | nil =>
    obtain rfl := Option.some.inj ran
    rfl
  | cons typed later ih =>
    obtain ⟨line, around⟩ := typed
    rw [Console.run] at ran
    split at ran
    · -- At exit the program is left, whatever else is typed.
      rename_i exit
      obtain rfl := Option.some.inj ran
      rw [List.takeWhile_cons_of_neg (by simpa using exit)]
      rfl
    · rename_i goes
      obtain ⟨between, did, rest⟩ := Option.bind_eq_some_iff.mp ran
      rw [List.takeWhile_cons_of_pos (by simpa using goes), List.map_cons, DiskStep.session, DiskStep.run,
        ← Console.map_disk_line ⟨c.disk, []⟩ (c.print (ascii "  nebula_hdd$ ")).printed]
      have same : Console.line cwd around { disk := c.disk, printed := (c.print (ascii "  nebula_hdd$ ")).printed }
          line = some between := did
      dsimp only
      rw [same, Option.map_some, Option.bind_some]
      exact ih rest

/-- A text that is one component of a path, and none of the special ones. -/
structure Plain (name : Bytes) : Prop where
  some : name ≠ []
  single : ch '/' ∉ name
  dotless : charAt name 0 ≠ ch '.'

/-- A plain name is the only component of its path. -/
theorem Plain.components {name : Bytes} (plain : Plain name) : components name = [.name name] := by
  -- Both special components begin with a dot.
  have noSelf : name ≠ ascii "." := fun same => plain.dotless (same ▸ rfl)
  have noParent : name ≠ ascii ".." := fun same => plain.dotless (same ▸ rfl)
  rw [Nebula.components, List.splitOn_eq_singleton plain.single, List.map_singleton, component, if_neg plain.some,
    if_neg noSelf, if_neg noParent]

/-- A plain name is that of something directly below the directory. -/
theorem Plain.place {name : Bytes} (plain : Plain name) (cwd : List Bytes) :
    hddPlace cwd name = cwd ++ [hddName, name] := by
  rw [hddPlace, components_hddPath, plain.components]
  simp [FileTree.leads, FileTree.enter]

/-- A plain name stays one with some more behind it. -/
theorem Plain.append {name ending : Bytes} (plain : Plain name) (single : ch '/' ∉ ending) :
    Plain (name ++ ending) := by
  -- What it begins with is not changed by what follows.
  cases name with
  | nil => exact absurd rfl plain.some
  | cons byte name =>
    refine ⟨List.cons_ne_nil _ _, ?_, plain.dotless⟩
    rw [List.mem_append]
    exact fun member => member.elim plain.single single

/-- What is confined to the directory leads below it. -/
theorem below_hddPlace {name : Bytes} (confined : Confined hddName (components name)) (cwd : List Bytes) :
    FileTree.Below (cwd ++ [hddName]) (hddPlace cwd name) := by
  rw [hddPlace, components_hddPath]
  exact FileTree.below_of_confined confined cwd

/-- A plain name leads below the directory. -/
theorem Plain.below {name : Bytes} (plain : Plain name) (cwd : List Bytes) :
    FileTree.Below (cwd ++ [hddName]) (hddPlace cwd name) := by
  rw [plain.place]
  exact ⟨[name], List.cons_ne_nil _ _, by simp⟩

/-- Every listed name has room in its row, with its terminator. -/
def Listing.Short (listing : Listing) : Prop := ∀ name ∈ listing.entries, name ≠ [] ∧ 0 ∉ name ∧ name.length ≤ 62

/-- The name that is selected of short ones is that of an entry. -/
theorem Listing.Short.selected {listing : Listing} (short : listing.Short) {name : Bytes}
    (chosen : listing.selected = some name) : name ∈ listing.entries ∧ Plain name ∧ name.length ≤ 62 := by
  unfold Listing.selected at chosen
  dsimp only at chosen
  split at chosen
  · obtain ⟨entry, member, dotless, beyond, stored⟩ := FileTool.mem_files (List.mem_of_getElem? chosen)
    obtain ⟨some, ended, fits⟩ := short entry member
    -- The row holds the name itself.
    rw [storedName, cstring_of_notMem ended, if_pos (by omega)] at stored
    subst stored
    exact ⟨member, ⟨some, listing.plain _ member, dotless⟩, fits⟩
  · cases chosen

/-- What copying and compressing write has the selected name with an ending. -/
theorem FileTool.Transfer.dest_short (tool : FileTool.Transfer) {name : Bytes} (short : name.length ≤ 62) :
    ∃ ending, ch '/' ∉ ending ∧ tool.dest name = components (hddPath (name ++ ending)) := by
  -- There is room for the name and its ending in both buffers.
  have fits : ∀ ending : Bytes, ending.length ≤ 5 →
      components (snprintf 256 (hddPath (snprintf 128 (name ++ ending)))) = components (hddPath (name ++ ending)) := by
    intro ending few
    have length : (name ++ ending).length ≤ 67 := by
      rw [List.length_append]
      omega
    have whole : snprintf 128 (name ++ ending) = name ++ ending := List.take_of_length_le (by omega)
    rw [whole, snprintf_hddPath, List.take_of_length_le (by omega)]
  cases tool with
  | copy => exact ⟨ascii "_copy", by decide, fits _ (by decide)⟩
  | compress => exact ⟨ascii ".neb", by decide, fits _ (by decide)⟩

/-- The name of a note is plain, and has room in its path. -/
theorem plain_generateFilename (stamp : Stamp) : Plain (generateFilename stamp) := by
  refine ⟨List.cons_ne_nil _ _, fun slash => ?_, show ch 'n' ≠ ch '.' by decide⟩
  unfold generateFilename at slash
  rw [List.append_assoc, List.mem_append, List.mem_append] at slash
  -- Neither the literals nor the date and the time have a slash.
  rcases slash with before | within | behind
  · exact absurd before (by decide)
  · exact absurd (stamp.plain _ within) (by decide)
  · exact absurd behind (by decide)

namespace DiskStep

/-- The typed names of a step end below nebula_hdd/ again, and the listed ones have room in their rows. -/
def StaysInside : DiskStep → Prop
  | .prepare | .saveNote _ _ | .saveTodos _ => True
  | .create line => (Typed.create line).StaysInside
  | .transfer _ listing | .delete listing _ => listing.Short
  | .move listing line => listing.Short ∧ ∀ name ∈ listing.selected, (Typed.move name line).StaysInside
  | .rename listing line => listing.Short ∧ (listing.selected.isSome → (Typed.rename line).StaysInside)
  | .terminal line => (Typed.terminal line).StaysInside

/-- Every path of such a step leads below the directory, but for the one that makes it. -/
theorem StaysInside.below {step : DiskStep} (inside : step.StaysInside) (cwd : List Bytes) :
    ∀ top ∈ step.tops cwd, (step = .prepare ∧ top = cwd ++ [hddName]) ∨ FileTree.Below (cwd ++ [hddName]) top := by
  intro top member
  obtain ⟨path, used, rfl⟩ := List.mem_map.mp member
  cases step with
  | prepare =>
    -- The path is that of the directory itself.
    rw [List.mem_singleton.mp used]
    exact Or.inl ⟨rfl, rfl⟩
  | create line =>
    rw [paths] at used
    split at used
    · cases used
    · rename_i named
      rw [List.mem_singleton.mp used]
      apply Or.inr
      apply below_hddPlace
      exact inside _ (by rw [Typed.names, if_neg named]; exact List.mem_singleton_self _)
  | transfer tool listing =>
    obtain ⟨name, chosen, rfl⟩ := List.mem_map.mp used
    obtain ⟨-, plain, short⟩ := inside.selected (Option.mem_toList.mp chosen)
    obtain ⟨ending, single, dest⟩ := tool.dest_short short
    rw [dest]
    exact Or.inr ((plain.append single).below cwd)
  | move listing line =>
    obtain ⟨short, typed⟩ := inside
    obtain ⟨name, chosen, used⟩ := List.mem_flatMap.mp used
    have chosen := Option.mem_toList.mp chosen
    obtain ⟨-, plain, fits⟩ := short.selected chosen
    have stays := typed name chosen
    -- The folder and the target are two of the paths that the typed names make.
    have both := Typed.paths_eq (.move name line)
    have folder : moveFolder line = hddPath ((chopped line).take 244) := snprintf_hddPath _
    have target : moveTarget name line = components (hddPath (((chopped line).take 244 ++ ch '/' :: name).take 244)) :=
      congrArg components (List.cons.inj (List.cons.inj both).2).1
    apply Or.inr
    simp only [List.mem_cons, List.not_mem_nil, or_false] at used
    rcases used with rfl | rfl | rfl
    · rw [selectedPath, snprintf_hddPath, List.take_of_length_le (by omega)]
      exact plain.below cwd
    · rw [folder]
      exact below_hddPlace (stays _ List.mem_cons_self) cwd
    · rw [target]
      exact below_hddPlace (stays _ (List.mem_cons_of_mem _ List.mem_cons_self)) cwd
  | rename listing line =>
    obtain ⟨short, typed⟩ := inside
    obtain ⟨name, chosen, used⟩ := List.mem_flatMap.mp used
    have chosen := Option.mem_toList.mp chosen
    apply Or.inr
    simp only [List.mem_cons, List.not_mem_nil, or_false] at used
    rcases used with rfl | rfl
    · exact (short.selected chosen).2.1.below cwd
    · exact below_hddPlace (typed (Option.isSome_iff_exists.mpr ⟨name, chosen⟩) _ List.mem_cons_self) cwd
  | delete listing confirm =>
    obtain ⟨name, chosen, rfl⟩ := List.mem_map.mp used
    exact Or.inr ((inside.selected (Option.mem_toList.mp chosen)).2.1.below cwd)
  | terminal line =>
    obtain ⟨name, named, rfl⟩ := List.mem_map.mp used
    have named := Option.mem_toList.mp named
    unfold terminalTarget at named
    split at named
    · cases named
    · exact Or.inr (below_hddPlace (inside name (Option.mem_toList.mpr named)) cwd)
  | saveNote stamp note =>
    rw [List.mem_singleton.mp used]
    exact Or.inr ((plain_generateFilename stamp).below cwd)
  | saveTodos todos =>
    rw [List.mem_singleton.mp used]
    have plain : Plain todoName := ⟨by decide, by decide, by decide⟩
    exact Or.inr (plain.below cwd)

/-- Once the directory is there, the start of the system leaves the disk as it is. -/
theorem run_prepare {cwd : List Bytes} {around : Circumstances} {disk : Disk}
    (there : disk.isDir (cwd ++ [hddName]) = true) : prepare.run cwd around disk = some disk := by
  have inner := FileTree.node_eq_some.mp (FileTree.isDir_iff.mp there)
  -- What is above the directory is one too, so stat finds it.
  have outer : disk.isDir cwd = true :=
    FileTree.isDir_iff.mpr (FileTree.node_eq_some.mpr (FileTree.dir_of_below inner (by simp)))
  have plain : Plain hddName := ⟨by decide, by decide, by decide⟩
  have found : disk.stat cwd (components hddName) = some .dir := by
    rw [FileTree.stat, plain.components, FileTree.lookup, if_pos outer, FileTree.enter, FileTree.lookup,
      Option.bind_some, FileTree.isDir_iff.mp there]
  rw [run, initStorage, found]

end DiskStep

/--
However the programs follow each other, a session of names that stay inside changes nothing outside of
nebula_hdd/, and the directory is there as long as it was at the start.
-/
theorem session_stays_on_the_disk (cwd : List Bytes) (disk disk' : Disk) (steps : List (DiskStep × Circumstances))
    (inside : ∀ step ∈ steps, step.1.StaysInside) (ran : DiskStep.session cwd steps disk = some disk') :
    (∀ place, ¬ cwd ++ [hddName] <+: place → disk'.node place = disk.node place) ∧
      (disk.isDir (cwd ++ [hddName]) = true → disk'.isDir (cwd ++ [hddName]) = true) := by
  constructor
  · -- All paths lead to the directory or below it.
    have changes : FileTree.ChangesOnly [cwd ++ [hddName]] disk disk' := by
      apply DiskStep.changesOnly_session _ ran
      intro step member top used
      refine ⟨_, List.mem_singleton_self _, ?_⟩
      rcases (inside step member).below cwd top used with ⟨-, same⟩ | below
      · rw [same]
      · exact below.within
    exact fun place outside => changes place (by simpa using outside)
  · intro there
    induction steps generalizing disk with
    | nil =>
      obtain rfl := Option.some.inj ran
      exact there
    | cons first later ih =>
      obtain ⟨step, around⟩ := first
      obtain ⟨between, ran, rest⟩ := Option.bind_eq_some_iff.mp ran
      have stays := inside _ List.mem_cons_self
      apply ih between (fun step member => inside step (List.mem_cons_of_mem _ member)) rest
      by_cases start : step = .prepare
      · subst start
        rw [DiskStep.run_prepare there] at ran
        exact Option.some.inj ran ▸ there
      · -- Nothing but the start of the system comes to the directory itself.
        have changes := DiskStep.changesOnly_run ran
        rw [changes.isDir, there]
        intro top used above
        rcases stays.below cwd top used with ⟨same, -⟩ | below
        · exact start same
        · exact below.ne (above.eq_of_length_le below.within.length_le)

/-- A disk is set up, a file is made, written to, copied under a number, and a directory is made. -/
def firstSession : List (DiskStep × Circumstances) :=
  let around : Circumstances := ⟨⟨true, true, true, true⟩, 4096, []⟩
  [(.prepare, around), (.create (ascii "b" ++ [newline]), around),
    (.terminal (ascii "echo hello > b" ++ [newline]), around),
    (.transfer .copy ⟨[ascii "a", ascii "b"], by decide, fun _ => [], ascii "2" ++ [newline]⟩, around),
    (.terminal (ascii "mkdir d/" ++ [newline]), around)]

theorem session_stays_on_the_disk_first :
    let done := DiskStep.session [] firstSession FileTool.Transfer.oneFile
    (∀ place, ¬ [hddName] <+: place →
      (done.getD FileTool.Transfer.oneFile).node place = FileTool.Transfer.oneFile.node place) ∧
        (done.getD FileTool.Transfer.oneFile).isDir [hddName] = true := by
  intro done
  have ran : done = some (done.getD FileTool.Transfer.oneFile) := by
    have some : done.isSome = true := by decide +kernel
    obtain ⟨disk', same⟩ := Option.isSome_iff_exists.mp some
    rw [same]
    rfl
  have inside : ∀ step ∈ firstSession, step.1.StaysInside := by
    simp only [firstSession, List.forall_mem_cons, List.not_mem_nil, IsEmpty.forall_iff, implies_true, and_true]
    -- Each of the typed names is one name below the directory.
    have one : ∀ names : List Bytes, (∀ name ∈ names,
        (components name).foldl (Whereabouts.walk hddName) (.inside 0) = .inside 1) →
          ∀ name ∈ names, Confined hddName (components name) :=
      fun names all name member => ⟨0, all name member⟩
    refine ⟨trivial, one _ (by decide +kernel), one _ (by decide +kernel), ?_, one _ (by decide +kernel)⟩
    show ∀ name ∈ [ascii "a", ascii "b"], _
    decide
  have stays := session_stays_on_the_disk [] FileTool.Transfer.oneFile _ firstSession inside ran
  exact ⟨stays.1, stays.2 (by decide +kernel)⟩

namespace DiskStep

/-- The name of the file that a step saves text to, and the lines that it saves. -/
def saves : DiskStep → Option (Bytes × List Bytes)
  | .terminal line =>
    if startsWith "echo " (trimNewline line) then
      (strchr (ch '>') ((trimNewline line).drop 5)).map fun (text, behind) =>
        (behind.dropWhile (· == ch ' '), [text])
    else none
  | .saveNote stamp note => some (generateFilename stamp, note.buffer.entries.map fun row => row.text.text)
  | .saveTodos todos => some (todoName, todos.entries.map fun t => t.line.dropLast)
  | _ => none

/-- A file of that name can be opened, and its lines find space. -/
structure CanSave (cwd : List Bytes) (around : Circumstances) (disk : Disk) (name : Bytes) (lines : List Bytes) :
    Prop where
  write : around.grants.write = true
  opens : (disk.openWrite cwd (components (hddPath name)) []).isSome = true
  space : (lines.map (· ++ [newline])).flatten.length ≤ around.space

variable {cwd : List Bytes} {around : Circumstances} {disk disk' : Disk}

/-- Where a file can be saved, it is there afterwards with all its lines. -/
theorem CanSave.written {name : Bytes} {lines : List Bytes} (can : CanSave cwd around disk name lines) :
    ∃ place between, granted around.grants.write (disk.openWrite cwd (components (hddPath name)) []) =
        some (place, between) ∧
      (writeAt between place ((lines.map (· ++ [newline])).flatten.take around.space)).node (hddPlace cwd name) =
        some (.file (lines.map (· ++ [newline])).flatten) := by
  obtain ⟨⟨place, between⟩, opened⟩ := Option.isSome_iff_exists.mp can.opens
  obtain ⟨found, fits, rfl⟩ := FileTree.openWrite_eq_some.mp opened
  refine ⟨place, _, granted_eq_some.mpr ⟨can.write, opened⟩, ?_⟩
  -- The place is the one that the path leads to, and nothing is cut from the text.
  have there : hddPlace cwd name = place := (FileTree.lookup_leads found).symm
  rw [there, FileTool.node_writeAt_self (FileTool.fits_put fits), List.take_of_length_le can.space]

/-- The line of an item ends with its newline. -/
theorem line_todo (t : Todo) : t.line.dropLast ++ [newline] = t.line := by
  -- It is put there as the last byte.
  rw [Todo.line, List.dropLast_concat]

/-- A step that can save its lines has saved them. -/
theorem run_saves {step : DiskStep} {name : Bytes} {lines : List Bytes} (saves : step.saves = some (name, lines))
    (can : CanSave cwd around disk name lines) (ran : step.run cwd around disk = some disk') :
    disk'.node (hddPlace cwd name) = some (.file (lines.map (· ++ [newline])).flatten) := by
  obtain ⟨place, between, opened, written⟩ := can.written
  -- However the text is made, it is written to what has been opened.
  have saved : ∀ text, text = (lines.map (· ++ [newline])).flatten →
      (saveFile disk cwd around name text).disk.node (hddPlace cwd name) =
        some (.file (lines.map (· ++ [newline])).flatten) := by
    rintro text rfl
    rw [saveFile, opened]
    exact written
  cases step with
  | terminal line =>
    rw [DiskStep.saves] at saves
    split at saves
    · rename_i echo
      obtain ⟨⟨text, behind⟩, found, same⟩ := Option.map_eq_some_iff.mp saves
      obtain ⟨rfl, rfl⟩ := Prod.mk.inj same
      obtain ⟨rest, input⟩ := startsWith_iff.mp echo
      obtain ⟨c, typed, rfl⟩ := Option.map_eq_some_iff.mp ran
      -- The line is none of the commands that are tested before.
      have typed : Console.echo cwd around ⟨disk, []⟩ rest = some c := by
        rw [← typed, Console.line, input]
        rfl
      rw [input] at found
      have found : strchr (ch '>') rest = some (text, behind) := found
      unfold Console.echo at typed
      rw [found] at typed
      obtain ⟨path, made, rfl⟩ := Option.map_eq_some_iff.mp typed
      obtain rfl := sprintf_eq_some made
      rw [opened]
      simpa using written
    · cases saves
  | saveNote stamp note =>
    obtain ⟨rfl, rfl⟩ := Prod.mk.inj (Option.some.inj saves)
    obtain rfl := Option.some.inj ran
    exact saved _ (by rw [List.map_map]; rfl)
  | saveTodos todos =>
    obtain ⟨rfl, rfl⟩ := Prod.mk.inj (Option.some.inj saves)
    obtain rfl := Option.some.inj ran
    apply saved
    -- Each line of an item is put together again.
    rw [List.map_map, Todos.saved]
    exact congrArg List.flatten (List.map_congr_left fun t _ => (line_todo t).symm)
  | prepare | create | transfer | move | rename | delete => cases saves

end DiskStep

/--
What the terminal, the notepad or the to-do list has saved is shown line by line, whatever programs have
run in between, unless one of them came to the file or to what it is in.
-/
theorem shows_what_was_saved (cwd : List Bytes) (disk saved disk' : Disk) (step : DiskStep) (around : Circumstances)
    (name : Bytes) (lines : List Bytes) (saves : step.saves = some (name, lines))
    (whole : ∀ line ∈ lines, Printable line ∧ line.length ≤ 254) (can : DiskStep.CanSave cwd around disk name lines)
    (ran : step.run cwd around disk = some saved) (later : List (DiskStep × Circumstances))
    (apart : ∀ other ∈ later, ∀ top ∈ other.1.tops cwd, ¬ top <+: hddPlace cwd name)
    (went : DiskStep.session cwd later saved = some disk') (around' : Circumstances) (other printed : Bytes)
    (same : hddPlace cwd other = hddPlace cwd name) (fits : (hddPath other).length < 128)
    (readable : around'.grants.read = true) (walks : (disk'.lookup cwd (components (hddPath other))).isSome = true) :
    Console.cat cwd around' ⟨disk', printed⟩ other =
      some ⟨disk', printed ++ (lines.map fun line => ascii "  " ++ (line ++ [newline])).flatten⟩ := by
  -- The steps in between have not changed the file.
  have held : disk'.node (hddPlace cwd name) = some (.file (lines.map (· ++ [newline])).flatten) := by
    rw [← DiskStep.run_saves saves can ran]
    have changes : FileTree.ChangesOnly (later.flatMap fun other => other.1.tops cwd) saved disk' :=
      DiskStep.changesOnly_session
        (fun other member top used => ⟨top, List.mem_flatMap.mpr ⟨other, member, used⟩, List.prefix_refl top⟩) went
    apply changes
    intro top used
    obtain ⟨other, member, used⟩ := List.mem_flatMap.mp used
    exact apart other member top used
  obtain ⟨place, found⟩ := Option.isSome_iff_exists.mp walks
  have there : place = hddPlace cwd name := (FileTree.lookup_leads found).trans same
  subst there
  -- So it opens, and what is shown of it are its lines.
  have opened : granted around'.grants.read (openRead disk' cwd (components (hddPath other))) =
      some (hddPlace cwd name) := by
    rw [granted_eq_some, openRead, found, Option.filter_some, if_pos (by rw [held]; rfl)]
    exact ⟨readable, rfl⟩
  rw [Console.cat, sprintf, if_pos fits, Option.map_some, opened]
  dsimp only
  rw [contentAt, held, Console.print,
    displayed_lines (fun line member => (whole line member).1) fun line member => (whole line member).2]

/-- A line is saved, copied, and its file shown under another path after a directory was made. -/
theorem shows_what_was_saved_greeting :
    let around : Circumstances := ⟨⟨true, true, true, true⟩, 4096, []⟩
    let saved := ((DiskStep.terminal (ascii "echo hello > b" ++ [newline])).run [] around
      FileTool.Transfer.oneFile).getD FileTool.Transfer.oneFile
    let disk' := (DiskStep.session [] (firstSession.drop 3) saved).getD saved
    Console.cat [] around ⟨disk', []⟩ (ascii "d/../b") = some ⟨disk', ascii "  hello " ++ [newline]⟩ := by
  intro around saved disk'
  have ran : (DiskStep.terminal (ascii "echo hello > b" ++ [newline])).run [] around FileTool.Transfer.oneFile =
      some saved := by
    obtain ⟨disk', same⟩ := Option.isSome_iff_exists.mp (show ((DiskStep.terminal
      (ascii "echo hello > b" ++ [newline])).run [] around FileTool.Transfer.oneFile).isSome = true by decide +kernel)
    show _ = some (Option.getD _ _)
    rw [same]
    rfl
  have went : DiskStep.session [] (firstSession.drop 3) saved = some disk' := by
    obtain ⟨later, same⟩ := Option.isSome_iff_exists.mp (show (DiskStep.session [] (firstSession.drop 3)
      saved).isSome = true by decide +kernel)
    show _ = some (Option.getD _ _)
    rw [same]
    rfl
  exact shows_what_was_saved [] _ saved disk' _ around (ascii "b") [ascii "hello "] (by decide +kernel)
    (by decide +kernel) ⟨rfl, by decide +kernel, by decide +kernel⟩ ran (firstSession.drop 3) (by decide +kernel) went
    around (ascii "d/../b") [] (by decide +kernel) (by decide +kernel) rfl (by decide +kernel)

/--
Whatever programs have done with a name that was free, deleting it leaves the disk as it was before.
-/
theorem deleting_restores (cwd : List Bytes) (disk made disk' : Disk) (name : Bytes)
    (free : disk.node (hddPlace cwd name) = none) (steps : List (DiskStep × Circumstances))
    (only : ∀ step ∈ steps, ∀ top ∈ step.1.tops cwd, hddPlace cwd name <+: top)
    (ran : DiskStep.session cwd steps disk = some made) (around : Circumstances) (confirm : Bytes)
    (deleted : deleteFile made cwd around name confirm = some ⟨disk', true⟩) :
    ∀ place, disk'.node place = disk.node place := by
  have first : FileTree.ChangesOnly [hddPlace cwd name] disk made :=
    DiskStep.changesOnly_session
      (fun step member top used => ⟨_, List.mem_singleton_self _, only step member top used⟩) ran
  have changes := first.trans (changesOnly_deleteFile deleted)
  -- What has been deleted is not there any more.
  have gone : disk'.node (hddPlace cwd name) = none := by
    unfold deleteFile at deleted
    split at deleted
    · obtain ⟨path, fits, report⟩ := Option.map_eq_some_iff.mp deleted
      obtain rfl := sprintf_eq_some fits
      split at report
      · rename_i removed
        obtain ⟨-, place, found, -, bare, rfl⟩ := FileTree.remove_eq_some.mp (granted_eq_some.mp removed).2
        obtain rfl := congrArg Report.disk report
        have there : hddPlace cwd name = place := (FileTree.lookup_leads found).symm
        rw [there]
        show (made.erase place bare).node place = none
        rw [FileTree.node_erase, if_pos rfl]
      · cases congrArg Report.ok report
    · cases congrArg Report.ok (Option.some.inj deleted)
  intro place
  by_cases below : hddPlace cwd name <+: place
  · -- Nothing is below a place where nothing is, before and after.
    have none_of : ∀ {t : Disk}, t.node (hddPlace cwd name) = none → t.node place = none := by
      intro t missing
      by_contra some
      obtain ⟨node, here⟩ := Option.ne_none_iff_exists'.mp some
      exact FileTree.not_below_missing missing here below
    rw [none_of gone, none_of free]
  · exact changes place (by simpa using below)

/-- A file is made, filled and deleted. -/
theorem deleting_restores_draft :
    let around : Circumstances := ⟨⟨true, true, true, true⟩, 4096, []⟩
    let steps : List (DiskStep × Circumstances) :=
      [(.create (ascii "c" ++ [newline]), around), (.terminal (ascii "echo draft >c" ++ [newline]), around)]
    let made := (DiskStep.session [] steps FileTool.Transfer.oneFile).getD FileTool.Transfer.oneFile
    let disk' := ((deleteFile made [] around (ascii "c") (ascii "y")).map Report.disk).getD made
    disk'.node [hddName, ascii "c"] = none ∧
      disk'.node [hddName, ascii "a"] = FileTool.Transfer.oneFile.node [hddName, ascii "a"] := by
  intro around steps made disk'
  have ran : DiskStep.session [] steps FileTool.Transfer.oneFile = some made := by
    obtain ⟨later, same⟩ := Option.isSome_iff_exists.mp (show (DiskStep.session [] steps
      FileTool.Transfer.oneFile).isSome = true by decide +kernel)
    show _ = some (Option.getD _ _)
    rw [same]
    rfl
  have told : (deleteFile made [] around (ascii "c") (ascii "y")).map Report.ok = some true := by decide +kernel
  obtain ⟨⟨left, ok⟩, deleted, rfl⟩ := Option.map_eq_some_iff.mp told
  have restored := deleting_restores [] FileTool.Transfer.oneFile made left (ascii "c") (by decide +kernel) steps
    (by decide +kernel) ran around (ascii "y") deleted
  have same : disk' = left := congrArg (fun report => (report.map Report.disk).getD made) deleted
  rw [same, restored, restored]
  exact ⟨by decide +kernel, rfl⟩

end Nebula
