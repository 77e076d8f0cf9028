import Nebula.Library.Paths
import Nebula.Library.Stdio

/-! The paths that the programs build from what is typed, and when they stay below nebula_hdd/. -/

namespace Nebula

open CText Paths

/-- The directory of the virtual disk. -/
def hddName : Bytes := ascii "nebula_hdd"

/-- What sprintf makes of "nebula_hdd/%s", in a buffer that has room for it. -/
def hddPath (name : Bytes) : Bytes := hddName ++ ch '/' :: name

/-- What stands between two slashes. -/
def component (text : Bytes) : Component Bytes :=
  if text = [] then .blank
  else if text = ascii "." then .self
  else if text = ascii ".." then .parent
  else .name text

def components (path : Bytes) : List (Component Bytes) := (path.splitOn (ch '/')).map component

/-- The text of a line that fgets has stored, without its last byte. -/
def chopped (line : Bytes) : Bytes := (cstring line).dropLast

/-- trim_newline: the text of a line, without a newline at its end. -/
def trimNewline (line : Bytes) : Bytes :=
  let text := cstring line
  if text.getLast? = some newline then text.dropLast else text

/-- The file or directory name in a line of mini_terminal: of cat, of mkdir or behind the redirect of echo. -/
def terminalName (line : Bytes) : Option Bytes :=
  let input := trimNewline line
  if input = [] then none
  else if input = ascii "exit" then none
  else if input = ascii "ls" then none
  else if input = ascii "pwd" then none
  else if startsWith "cat " input then some (input.drop 4)
  else if startsWith "mkdir " input then some (input.drop 6)
  else if startsWith "echo " input then
    match strchr (ch '>') (input.drop 5) with
    | some (_, filename) => some (filename.dropWhile (· == ch ' '))
    | none => none
  else none

/-- What snprintf leaves of a text in a buffer of a size. -/
def snprintf (size : Nat) (text : Bytes) : Bytes := text.take (size - 1)

/-- What move_file passes to mkdir, and to rename as the target for a listed file. -/
def movePaths (file line : Bytes) : List Bytes :=
  let destPath := snprintf 256 (hddPath (chopped line))
  [destPath, snprintf 256 (destPath ++ ch '/' :: file)]

/-- What is typed into one of the programs. -/
inductive Typed where
  | terminal (line : Bytes)
  | create (line : Bytes)
  | rename (line : Bytes)
  | move (file line : Bytes)

namespace Typed

/-- The paths that the program passes to the file system for what is typed. -/
def paths : Typed → List Bytes
  | .terminal line => (terminalName line).toList.map hddPath
  | .create line =>
    let filename := chopped line
    if filename.length = 0 then [] else [hddPath filename]
  | .rename line => [hddPath (chopped line)]
  | .move file line => movePaths file line

/-- The names that are typed, as far as there is room for them. -/
def names : Typed → List Bytes
  | .terminal line => (terminalName line).toList
  | .create line => if chopped line = [] then [] else [chopped line]
  | .rename line => [chopped line]
  | .move file line =>
    let folder := (chopped line).take 244
    [folder, (folder ++ ch '/' :: file).take 244]

/-- Read from nebula_hdd/ on, every name ends below it again. -/
def StaysInside (typed : Typed) : Prop := ∀ name ∈ typed.names, Confined hddName (components name)

end Typed

theorem components_hddPath (name : Bytes) :
    components (hddPath name) = .name hddName :: components name := by
  have plain : ch '/' ∉ hddName := by decide
  rw [components, hddPath, List.splitOn_append_cons_self_of_not_mem plain, List.map_cons]
  rfl

/-- The buffer of 256 bytes has room for the directory, the slash and 244 bytes behind it. -/
theorem snprintf_hddPath (name : Bytes) : snprintf 256 (hddPath name) = hddPath (name.take 244) := by
  -- Of the 255 bytes that are kept, the directory and the slash take eleven.
  have length : hddName.length = 10 := rfl
  rw [snprintf, hddPath, List.take_append, List.take_of_length_le (by omega), length]
  rfl

/-- Each path is the typed name below the directory. -/
theorem Typed.paths_eq (typed : Typed) : typed.paths = typed.names.map hddPath := by
  cases typed with
  | terminal line => rfl
  | create line =>
    simp only [paths, names, List.length_eq_zero_iff]
    split <;> rfl
  | rename line => rfl
  | move file line =>
    -- The second path goes on from the first one, below the same directory.
    have behind : hddPath ((chopped line).take 244) ++ ch '/' :: file =
        hddPath ((chopped line).take 244 ++ ch '/' :: file) := by
      simp [hddPath]
    simp only [paths, names, movePaths, snprintf_hddPath, behind, List.map_cons, List.map_nil]

/--
The paths that a program builds from what is typed lead below nebula_hdd/ if and only if the typed
names do when they are walked from there.
-/
theorem paths_inside_iff (typed : Typed) :
    (∀ path ∈ typed.paths, StrictlyInside hddName (resolve (components path))) ↔ typed.StaysInside := by
  rw [typed.paths_eq, List.forall_mem_map]
  -- The first component of a path is the directory.
  have each : ∀ name, StrictlyInside hddName (resolve (components (hddPath name))) ↔
      Confined hddName (components name) := by
    intro name
    rw [components_hddPath]
    exact strictlyInside_iff_confined hddName (components name)
  exact forall_congr' fun name => imp_congr_right fun _ => each name

/-- The kernel's log, which is beside the directory, can be shown. -/
theorem cat_leaves_the_disk :
    let typed := Typed.terminal (ascii "cat ../system.log" ++ [newline])
    typed.paths = [ascii "nebula_hdd/../system.log"] ∧
      ¬ ∀ path ∈ typed.paths, StrictlyInside hddName (resolve (components path)) := by
  intro typed
  have paths : typed.paths = [ascii "nebula_hdd/../system.log"] := by decide
  refine ⟨paths, fun inside => ?_⟩
  obtain ⟨-, inner, nonempty, names⟩ := inside (ascii "nebula_hdd/../system.log") (by simp [paths])
  have resolved : (resolve (components (ascii "nebula_hdd/../system.log"))).names = [ascii "system.log"] := by
    decide
  rw [resolved] at names
  -- One name is too few for something below the directory.
  have length := congrArg List.length names
  rw [List.length_append, List.length_singleton, List.length_singleton] at length
  exact nonempty (List.length_eq_zero_iff.mp (by omega))

end Nebula
