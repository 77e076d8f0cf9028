import Nebula.Library.FileTree
import Nebula.Programs.Confinement

/-! The programs that create, copy, move and rename the files of the virtual disk. -/

namespace Nebula

open CText Paths

/-- The directories and files of the machine, by their names. -/
abbrev Disk := FileTree Bytes Bytes

/--
The C string in a row of files after strncpy of at most 63 bytes.

A name that fills all of them gets no terminator, so it runs on into what is behind the row.
-/
def storedName (beyond name : Bytes) : Bytes :=
  let text := cstring name
  if text.length < 63 then text else text.take 63 ++ cstring beyond

/-- What a program lists of nebula_hdd/, in the order of readdir, and the number that is typed. -/
structure Listing where
  entries : List Bytes
  plain : ∀ name ∈ entries, ch '/' ∉ name
  beyond : Nat → Bytes
  number : Bytes

/-- The names in files after the loop over the directory. -/
def Listing.files (listing : Listing) : List Bytes :=
  ((listing.entries.filter fun name => charAt name 0 ≠ ch '.').take 100).mapIdx fun row name =>
    storedName (listing.beyond row) name

/-- The name that the number selects, if there is one. -/
def Listing.selected (listing : Listing) : Option Bytes :=
  let choice := atoi (cstring listing.number)
  if 1 ≤ choice ∧ choice ≤ listing.files.length then listing.files[choice.toNat - 1]? else none

/-- Which system calls are not refused for reasons of their own, such as permissions or space. -/
structure Grants where
  read : Bool
  write : Bool
  mkdir : Bool
  rename : Bool

/-- What a call gives if it is not refused. -/
def granted {α : Type} (grant : Bool) (result : Option α) : Option α := if grant then result else none

/-- What a program leaves behind, and whether it has told of success. -/
structure Report where
  disk : Disk
  ok : Bool

/-- sprintf into a buffer of a size, in which the text has to have room. -/
def sprintf (size : Nat) (text : Bytes) : Option Bytes := if text.length < size then some text else none

/-- A text that has room is written as it is. -/
theorem sprintf_eq_some {size : Nat} {text path : Bytes} (made : sprintf size text = some path) : path = text := by
  unfold sprintf at made
  -- A text without room for it is no path at all.
  split at made
  · exact (Option.some.inj made).symm
  · cases made

theorem sprintf_fits {size : Nat} {text path : Bytes} (made : sprintf size text = some path) :
    text.length < size := by
  unfold sprintf at made
  split at made
  · assumption
  · cases made

/-- The copying loop, which reads a chunk and writes it behind what is written, chunk after chunk. -/
def copyLoop (size : Nat) : Nat → Bytes → Bytes → Bytes
  | 0, _, written => written
  | turns + 1, rest, written =>
    let chunk := rest.take size
    if chunk = [] then written else copyLoop size turns (rest.drop size) (written ++ chunk)

section Programs

variable (disk : Disk) (cwd : List Bytes) (grants : Grants)

/-- create_file, for the line that is typed. -/
def createFile (line : Bytes) : Report :=
  let filename := chopped line
  if filename.length = 0 then ⟨disk, false⟩
  else
    let path := components (hddPath filename)
    if (disk.stat cwd path).isSome then ⟨disk, false⟩
    else
      match granted grants.write (disk.openWrite cwd path []) with
      | some (_, disk') => ⟨disk', true⟩
      | none => ⟨disk, false⟩

/-- The path of the selected file in copy_file and move_file. -/
def selectedPath (name : Bytes) : List (Component Bytes) := components (snprintf 256 (hddPath name))

/-- The path that copy_file writes. -/
def copyDest (name : Bytes) : List (Component Bytes) :=
  let destName := snprintf 128 (name ++ ascii "_copy")
  components (snprintf 256 (hddPath destName))

/-- fopen for reading: the place of what is there. -/
def openRead (path : List (Component Bytes)) : Option (List Bytes) :=
  (disk.lookup cwd path).filter fun place => (disk.node place).isSome

/-- What fread reads at a place, which is nothing for a directory. -/
def contentAt (place : List Bytes) : Bytes :=
  match disk.node place with
  | some (.file content) => content
  | _ => []

/-- The file at a place with what was written to it. -/
def writeAt (place : List Bytes) (content : Bytes) : Disk :=
  if fits : disk.Fits place then disk.put place (.file content) fits else disk

/-- The folder that move_file makes, for the line that is typed. -/
def moveFolder (line : Bytes) : Bytes := snprintf 256 (hddPath (chopped line))

/-- The path that move_file renames to. -/
def moveTarget (name line : Bytes) : List (Component Bytes) :=
  components (snprintf 256 (moveFolder line ++ ch '/' :: name))

/-- The disk after move_file has tried to make the folder. -/
def moveReady (line : Bytes) : Disk :=
  (granted grants.mkdir (disk.mkdir cwd (components (moveFolder line)))).getD disk

/-- move_file, for the name that is selected and the line that is typed. -/
def moveFile (name line : Bytes) : Report :=
  let ready := moveReady disk cwd grants line
  match granted grants.rename (ready.renamePath cwd (selectedPath name) (moveTarget name line)) with
  | some disk' => ⟨disk', true⟩
  | none => ⟨ready, false⟩

/--
rename_file, for the name that is selected and the line that is typed.

The line has at most 63 bytes, so its path has room; that of the name may go past the end of old_path.
-/
def renameFile (name line : Bytes) : Option Report :=
  (sprintf 128 (hddPath name)).map fun oldPath =>
    let new := components (hddPath (chopped line))
    if (disk.stat cwd new).isSome then ⟨disk, false⟩
    else
      match granted grants.rename (disk.renamePath cwd (components oldPath) new) with
      | some disk' => ⟨disk', true⟩
      | none => ⟨disk, false⟩

end Programs

namespace FileTool

/-- The two programs that read the selected file and write another one. -/
inductive Transfer where
  | copy
  | compress
  deriving DecidableEq, Repr

/-- The path that file_compression writes. -/
def compressDest (name : Bytes) : List (Component Bytes) :=
  let destName := snprintf 128 (name ++ ascii ".neb")
  components (snprintf 256 (hddPath destName))

/-- What file_compression makes of a file: a mark, and half of the first chunk and one byte. -/
def compressed (content : Bytes) : Bytes :=
  let buffer := content.take 1024
  let n := buffer.length
  ascii "[NEBULA_COMPRESSED]" ++ newline :: if n > 0 then buffer.take (n / 2 + 1) else []

namespace Transfer

/-- The path of the file that is written. -/
def dest : Transfer → Bytes → List (Component Bytes)
  | .copy => copyDest
  | .compress => compressDest

/-- What is written for a file. -/
def output : Transfer → Bytes → Bytes
  | .copy, content => copyLoop 4096 (content.length + 1) content []
  | .compress, content => compressed content

/--
The program, for the name that is selected and the number of bytes there is space for.

Both files are opened before either is tested, and nobody tests whether a write has found space.
-/
def run (disk : Disk) (cwd : List Bytes) (grants : Grants) (space : Nat) (tool : Transfer) (name : Bytes) : Report :=
  let src := granted grants.read (openRead disk cwd (selectedPath name))
  match granted grants.write (disk.openWrite cwd (tool.dest name) []) with
  | none => ⟨disk, false⟩
  | some (place, disk') =>
    match src with
    | none => ⟨disk', false⟩
    | some source => ⟨writeAt disk' place ((tool.output (contentAt disk' source)).take space), true⟩

end Transfer

end FileTool

/-- copy_file, for the name that is selected. -/
def copyFile (disk : Disk) (cwd : List Bytes) (grants : Grants) (space : Nat) (name : Bytes) : Report :=
  FileTool.Transfer.run disk cwd grants space .copy name

/-- One of the programs, with what is listed and typed. -/
inductive FileTool where
  | create (line : Bytes)
  | copy (listing : Listing)
  | move (listing : Listing) (line : Bytes)
  | rename (listing : Listing) (line : Bytes)

namespace FileTool

variable (disk : Disk) (cwd : List Bytes) (grants : Grants) (space : Nat)

/-- The program runs, if no buffer overflows; without a selection it does nothing. -/
def run : FileTool → Option Report
  | .create line => some (createFile disk cwd grants line)
  | .copy listing => some ((listing.selected.map (copyFile disk cwd grants space)).getD ⟨disk, false⟩)
  | .move listing line =>
    some ((listing.selected.map fun name => moveFile disk cwd grants name line).getD ⟨disk, false⟩)
  | .rename listing line =>
    (listing.selected.map fun name => renameFile disk cwd grants name line).getD (some ⟨disk, false⟩)

/-- The path whose name may be taken. -/
def target : FileTool → Option (List (Component Bytes))
  | .create line => if chopped line = [] then none else some (components (hddPath (chopped line)))
  | .copy listing => listing.selected.map copyDest
  | .move listing line => listing.selected.map fun name => moveTarget name line
  | .rename listing line => listing.selected.map fun _ => components (hddPath (chopped line))

/-- The place of the selected file and the one it is given, if it is to be moved. -/
def moved : FileTool → Option (List Bytes × List Bytes)
  | .move listing line => listing.selected.bind fun name =>
    (moveReady disk cwd grants line).renamePlaces cwd (selectedPath name) (moveTarget name line)
  | .rename listing line => listing.selected.bind fun name =>
    disk.renamePlaces cwd (components (hddPath name)) (components (hddPath (chopped line)))
  | _ => none

end FileTool

end Nebula
