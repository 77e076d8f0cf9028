import Nebula.Programs.FileTools

/-! What the file programs leave of the other files, and when a taken name is overwritten. -/

namespace Nebula

open CText Paths

namespace FileTool

theorem granted_eq_some {α : Type} {grant : Bool} {result : Option α} {value : α} :
    granted grant result = some value ↔ grant = true ∧ result = some value := by
  cases grant <;> simp [granted]

/-- A path opens for reading where stat finds something. -/
theorem isSome_openRead (disk : Disk) (cwd : List Bytes) (path : List (Component Bytes)) :
    (openRead disk cwd path).isSome = (disk.stat cwd path).isSome := by
  unfold openRead FileTree.stat
  cases disk.lookup cwd path with
  | none => rfl
  | some place =>
    rw [Option.bind_some]
    cases held : disk.node place <;> simp [Option.filter, held]

/-- What a call of rename leaves, and whether it has succeeded. -/
def renamed (disk : Disk) (cwd : List Bytes) (grant : Bool) (old new : List (Component Bytes)) : Report :=
  match granted grant (disk.renamePath cwd old new) with
  | some disk' => ⟨disk', true⟩
  | none => ⟨disk, false⟩

/-- What is written to a file leaves the other places alone. -/
theorem node_writeAt (disk : Disk) (place : List Bytes) (content : Bytes) {other : List Bytes}
    (apart : other ≠ place) : (writeAt disk place content).node other = disk.node other := by
  unfold writeAt
  split
  · rw [FileTree.node_put, if_neg apart]
  · rfl

/-- The source of a copy opens if it is there and reading is granted. -/
theorem source_opens (disk : Disk) (cwd : List Bytes) (grants : Grants) (name : Bytes) :
    (granted grants.read (openRead disk cwd (selectedPath name))).isSome = true ↔
      grants.read = true ∧ (disk.stat cwd (selectedPath name)).isSome := by
  rw [← isSome_openRead]
  cases grants.read <;> simp [granted]

section Copy

variable {disk : Disk} {cwd : List Bytes} {grants : Grants} {space : Nat} {name : Bytes} {dest : List Bytes}
  {fits : disk.Fits dest}
  (opened : granted grants.write (disk.openWrite cwd (copyDest name) []) =
    some (dest, disk.put dest (.file []) fits))
  (found : disk.lookup cwd (copyDest name) = some dest)

include opened found

end Copy

/-- A name in files is one that readdir gave and that is not skipped. -/
theorem mem_files {listing : Listing} {name : Bytes} (listed : name ∈ listing.files) :
    ∃ entry ∈ listing.entries, charAt entry 0 ≠ ch '.' ∧ ∃ beyond, storedName beyond entry = name := by
  obtain ⟨row, within, stored⟩ := List.mem_mapIdx.mp listed
  obtain ⟨member, kept⟩ := List.mem_filter.mp (List.mem_of_mem_take (List.getElem_mem within))
  exact ⟨_, member, of_decide_eq_true kept, _, stored⟩

end FileTool

end Nebula
