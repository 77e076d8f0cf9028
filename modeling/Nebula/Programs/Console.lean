import Nebula.Programs.Selection
import Nebula.Programs.Terminal

/-! The mini terminal as a whole: what its commands print, and what they do to the disk. -/

namespace Nebula

open CText Paths

/-- What the machine does about a step: what it refuses, how many bytes find space, and what readdir gives. -/
structure Circumstances where
  grants : Grants
  space : Nat
  entries : List Bytes

/-- What a file looks like: each piece that fgets reads of it stands behind two blanks. -/
def displayed (content : Bytes) : Bytes :=
  ((fgetsAll 256 content).map fun line => ascii "  " ++ cstring line).flatten

/-- Lines that the buffer holds whole are shown as they are. -/
theorem displayed_lines {lines : List Bytes} (plain : ∀ line ∈ lines, Printable line)
    (short : ∀ line ∈ lines, line.length ≤ 254) :
    displayed (lines.map (· ++ [newline])).flatten =
      (lines.map fun line => ascii "  " ++ (line ++ [newline])).flatten := by
  have whole : ∀ line ∈ lines.map (· ++ [newline]), WholeLine 256 line := by
    intro line member
    obtain ⟨body, listed, rfl⟩ := List.mem_map.mp member
    have fits := short body listed
    exact ⟨body, rfl, fun inside => (plain body listed newline inside).2 rfl, by omega⟩
  -- Each of them is one piece, and its own C string.
  rw [displayed, fgetsAll_flatten whole, List.map_map]
  apply congrArg List.flatten
  apply List.map_congr_left
  intro line listed
  have ended : 0 ∉ line ++ [newline] := by
    rw [List.mem_append, List.mem_singleton]
    rintro (inside | last)
    · exact (plain line listed 0 inside).1 rfl
    · exact absurd last (by decide)
  rw [Function.comp_apply, cstring_of_notMem ended]

/-- The disk, and what the terminal has printed. -/
structure Console where
  disk : Disk
  printed : Bytes

namespace Console

def print (c : Console) (text : Bytes) : Console := { c with printed := c.printed ++ text }

@[simp] theorem disk_print (c : Console) (text : Bytes) : (c.print text).disk = c.disk := rfl

section Commands

variable (cwd : List Bytes) (around : Circumstances) (c : Console)

/-- cmd_ls -/
def ls : Console :=
  if around.grants.read ∧ c.disk.stat cwd (components hddName) = some .dir then
    (around.entries.filter fun name => charAt name 0 ≠ ch '.').foldl
      (fun c name => c.print (ascii "    " ++ name ++ [newline]))
      (c.print (ascii "  [ Files in nebula_hdd/ ]" ++ [newline]))
  else c.print (ascii "  Error: Cannot open nebula_hdd/" ++ [newline])

/-- cmd_cat; without a result the path has been written behind its buffer. -/
def cat (filename : Bytes) : Option Console :=
  (sprintf 128 (hddPath filename)).map fun path =>
    match granted around.grants.read (openRead c.disk cwd (components path)) with
    | some place => c.print (displayed (contentAt c.disk place))
    | none => c.print (ascii "  Error: Could not open " ++ filename ++ [newline])

/-- mkdir -/
def makeDir (name : Bytes) : Option Console :=
  (sprintf 128 (hddPath name)).map fun path =>
    match granted around.grants.mkdir (c.disk.mkdir cwd (components path)) with
    | some disk' => { c with disk := disk' }.print (ascii "  Created directory " ++ name ++ [newline])
    | none => c.print (ascii "  Error creating directory" ++ [newline])

/-- echo, for what is behind the command. -/
def echo (input : Bytes) : Option Console :=
  match strchr (ch '>') input with
  | some (text, behind) =>
    let filename := behind.dropWhile (· == ch ' ')
    (sprintf 128 (hddPath filename)).map fun path =>
      match granted around.grants.write (c.disk.openWrite cwd (components path) []) with
      | some (place, disk') =>
        { c with disk := writeAt disk' place ((text ++ [newline]).take around.space) }.print
          (ascii "  Written to " ++ filename ++ [newline])
      -- A file that cannot be opened is passed over without a word.
      | none => c
  | none => some (c.print (ascii "  " ++ input ++ [newline]))

/-- One command that is neither empty nor the end. -/
def command (input : Bytes) : Option Console :=
  if input = ascii "ls" then some (c.ls cwd around)
  else if input = ascii "pwd" then some (c.print (ascii "  /nebula_hdd" ++ [newline]))
  else if startsWith "cat " input then c.cat cwd around (input.drop 4)
  else if startsWith "mkdir " input then c.makeDir cwd around (input.drop 6)
  else if startsWith "echo " input then c.echo cwd around (input.drop 5)
  else if input = ascii "clear" then some (c.print (List.replicate 50 newline))
  else some (c.print (ascii "  Unknown command: " ++ input ++ [newline]))

/-- What one line does that does not end the program. -/
def line (line : Bytes) : Option Console :=
  let input := trimNewline line
  if input = [] then some c else c.command cwd around input

end Commands

/-- The main loop, over the lines that fgets reads. -/
def run (cwd : List Bytes) : List (Bytes × Circumstances) → Console → Option Console
  | [], c => some (c.print (ascii "  nebula_hdd$ "))
  | (line, around) :: later, c =>
    let c := c.print (ascii "  nebula_hdd$ ")
    if trimNewline line = ascii "exit" then some c else (c.line cwd around line).bind (run cwd later)

end Console

end Nebula
