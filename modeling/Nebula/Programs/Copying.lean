import Nebula.Programs.Overwriting

/-! Copying and compressing a file: when a failure leaves nothing behind, and a copy is whole. -/

namespace Nebula

open CText Paths

namespace FileTool

namespace Transfer

section Run

variable (disk : Disk) (cwd : List Bytes) (grants : Grants) (space : Nat)

/-- The file to be written can be opened. -/
def CanWrite (path : List (Component Bytes)) : Prop :=
  grants.write = true ∧ ∃ place, disk.lookup cwd path = some place ∧ disk.Fits place

/-- The copy has exactly the bytes of the selected file, and every other place is as it was. -/
def Copied (name : Bytes) (report : Report) : Prop :=
  ∃ content place, disk.stat cwd (selectedPath name) = some (.file content) ∧
    disk.lookup cwd (copyDest name) = some place ∧ report.disk.node place = some (.file content) ∧
    ∀ other, other ≠ place → report.disk.node other = disk.node other

/-- A failure that is told has changed nothing, and a copy that is told of is whole. -/
structure WholeOrClean (tool : Transfer) (name : Bytes) (report : Report) : Prop where
  clean : report.ok = false → ∀ place, report.disk.node place = disk.node place
  whole : tool = .copy → report.ok = true → Copied disk cwd name report

/-- What has to be there to be read: for a copy, a file for whose bytes there is space. -/
def Serves : Transfer → Option (Node Bytes) → Prop
  | .copy, some (.file content) => content.length ≤ space
  | .compress, some _ => True
  | _, _ => False

instance : ∀ tool found, Decidable (Serves space tool found)
  | .copy, some (.file content) => inferInstanceAs (Decidable (content.length ≤ space))
  | .compress, some _ => isTrue trivial
  | .copy, some .dir | .copy, none | .compress, none => isFalse id

end Run

end Transfer

/-- The loop copies the whole file, whatever the size of its chunks. -/
theorem copyLoop_eq {size turns : Nat} (positive : 0 < size) {rest : Bytes} (enough : rest.length < turns)
    (written : Bytes) : copyLoop size turns rest written = written ++ rest := by
  induction turns generalizing rest written with
  | zero => exact absurd enough (Nat.not_lt_zero _)
  | succ turns ih =>
    rw [copyLoop]
    split
    · rename_i none
      have empty : rest = [] := by
        by_contra some
        have length := congrArg List.length none
        rw [List.length_take, List.length_nil] at length
        have present := List.length_pos_iff.mpr some
        omega
      rw [empty, List.append_nil]
    · rename_i some
      have present : 0 < rest.length := by
        refine List.length_pos_iff.mpr fun none => some ?_
        rw [none, List.take_nil]
      -- Each turn leaves less to be read.
      rw [ih (by rw [List.length_drop]; omega), List.append_assoc, List.take_append_drop]

theorem node_writeAt_self {disk : Disk} {place : List Bytes} (fits : disk.Fits place) (content : Bytes) :
    (writeAt disk place content).node place = some (.file content) := by
  rw [writeAt, dif_pos fits, FileTree.node_put, if_pos rfl]

/-- A place where a file was just put takes another one. -/
theorem fits_put {disk : Disk} {place : List Bytes} {content : Bytes} (fits : disk.Fits place) :
    (disk.put place (.file content) fits).Fits place := by
  have here : (disk.put place (.file content) fits).node place = some (.file content) := by
    rw [FileTree.node_put, if_pos rfl]
  exact FileTree.fits_of_file here

namespace Transfer

variable {disk : Disk} {cwd : List Bytes} {grants : Grants} {space : Nat} {name : Bytes} {tool : Transfer}

/-- What is read of an opened file is what stat has found there. -/
theorem contentAt_opened {source : List Bytes}
    (read : granted grants.read (openRead disk cwd (selectedPath name)) = some source) :
    disk.stat cwd (selectedPath name) = disk.node source ∧ (disk.node source).isSome = true := by
  obtain ⟨found, there⟩ := Option.filter_eq_some_iff.mp (granted_eq_some.mp read).2
  exact ⟨by rw [FileTree.stat, found, Option.bind_some], there⟩

/-- A file that cannot be opened for writing makes the program fail at once. -/
theorem run_shut (shut : ¬ CanWrite disk cwd grants (tool.dest name)) :
    run disk cwd grants space tool name = ⟨disk, false⟩ := by
  -- An open that succeeds has found a place where a file can be.
  have closed : granted grants.write (disk.openWrite cwd (tool.dest name) []) = none := by
    cases opened : granted grants.write (disk.openWrite cwd (tool.dest name) []) with
    | none => rfl
    | some result =>
      obtain ⟨grant, opens⟩ := granted_eq_some.mp opened
      obtain ⟨found, fits, -⟩ := FileTree.openWrite_eq_some.mp opens
      exact absurd ⟨grant, _, found, fits⟩ shut
  unfold run
  rw [closed]

/-- What is left where the new file was opened and the selected one was not. -/
theorem run_debris (space : Nat) {place : List Bytes} (grant : grants.write = true)
    (found : disk.lookup cwd (tool.dest name) = some place) (fits : disk.Fits place)
    (unread : granted grants.read (openRead disk cwd (selectedPath name)) = none) :
    run disk cwd grants space tool name = ⟨disk.put place (.file []) fits, false⟩ := by
  have opened : granted grants.write (disk.openWrite cwd (tool.dest name) []) =
      some (place, disk.put place (.file []) fits) :=
    granted_eq_some.mpr ⟨grant, FileTree.openWrite_eq_some.mpr ⟨found, fits, rfl⟩⟩
  unfold run
  rw [opened, unread]

/-- Where both files are opened, what is made of the selected one is written as far as there is space. -/
theorem run_served (space : Nat) {place source : List Bytes} (free : disk.node place = none)
    (grant : grants.write = true) (found : disk.lookup cwd (tool.dest name) = some place) (fits : disk.Fits place)
    (read : granted grants.read (openRead disk cwd (selectedPath name)) = some source) :
    (run disk cwd grants space tool name).ok = true ∧
      (run disk cwd grants space tool name).disk.node place =
        some (.file ((tool.output (contentAt disk source)).take space)) ∧
      ∀ other, other ≠ place → (run disk cwd grants space tool name).disk.node other = disk.node other := by
  have opened : granted grants.write (disk.openWrite cwd (tool.dest name) []) =
      some (place, disk.put place (.file []) fits) :=
    granted_eq_some.mpr ⟨grant, FileTree.openWrite_eq_some.mpr ⟨found, fits, rfl⟩⟩
  -- The new file is not the one that is read, which was there before.
  have apart : source ≠ place := by
    rintro rfl
    have there := (Option.filter_eq_some_iff.mp (granted_eq_some.mp read).2).2
    rw [free] at there
    exact absurd there (by decide)
  -- So its content is still what it was when the new file was made.
  have content : contentAt (disk.put place (.file []) fits) source = contentAt disk source := by
    rw [contentAt, FileTree.node_put, if_neg apart, contentAt]
  unfold run
  rw [opened, read]
  dsimp only
  rw [content]
  refine ⟨rfl, node_writeAt_self (fits_put fits) _, fun other differs => ?_⟩
  rw [node_writeAt _ _ _ differs, FileTree.node_put, if_neg differs]

/-- A whole copy has been written exactly if a file was selected and there was space for its bytes. -/
theorem copied_iff {place source : List Bytes} (free : disk.node place = none) (grant : grants.write = true)
    (found : disk.lookup cwd (copyDest name) = some place) (fits : disk.Fits place)
    (read : granted grants.read (openRead disk cwd (selectedPath name)) = some source) :
    Copied disk cwd name (run disk cwd grants space .copy name) ↔
      Serves space .copy (disk.stat cwd (selectedPath name)) := by
  have dest : disk.lookup cwd (dest .copy name) = some place := found
  obtain ⟨-, written, others⟩ := run_served space free grant dest fits read
  obtain ⟨held, -⟩ := contentAt_opened read
  -- The loop copies the content whole, and the file system keeps what it has space for.
  rw [output, copyLoop_eq (by decide) (Nat.lt_succ_self _), List.nil_append] at written
  constructor
  · rintro ⟨content, place', file, found', copied, -⟩
    rw [found, Option.some.injEq] at found'
    subst found'
    have here : contentAt disk source = content := by rw [contentAt, ← held, file]
    rw [written, here, Option.some.injEq, Node.file.injEq] at copied
    rw [file]
    -- As many bytes have found space as the file has.
    have length := congrArg List.length copied
    rw [List.length_take] at length
    show content.length ≤ space
    omega
  · intro serves
    cases file : disk.stat cwd (selectedPath name) with
    | none =>
      rw [file] at serves
      exact serves.elim
    | some node =>
      rw [file] at serves
      cases node with
      -- A directory is opened too, but it is no file to be copied.
      | dir => exact serves.elim
      | file content =>
        have here : contentAt disk source = content := by rw [contentAt, ← held, file]
        refine ⟨content, place, file, found, ?_, others⟩
        rw [written, here, List.take_of_length_le serves]

/--
While its destination is free, a copy is whole or fails without a trace, and a compression that fails
leaves no trace, exactly when the destination cannot be opened anyway, or the selected file can be,
and for a copy is no directory and finds space.
-/
theorem wholeOrClean_iff (disk : Disk) (cwd : List Bytes) (grants : Grants) (space : Nat) (tool : Transfer)
    (name : Bytes) (free : disk.stat cwd (tool.dest name) = none) :
    WholeOrClean disk cwd tool name (run disk cwd grants space tool name) ↔
      ¬ CanWrite disk cwd grants (tool.dest name) ∨
        (grants.read = true ∧ Serves space tool (disk.stat cwd (selectedPath name))) := by
  by_cases opens : CanWrite disk cwd grants (tool.dest name)
  · rw [or_iff_right (not_not.mpr opens)]
    obtain ⟨grant, place, found, fits⟩ := opens
    rw [FileTree.stat, found, Option.bind_some] at free
    cases read : granted grants.read (openRead disk cwd (selectedPath name)) with
    | none =>
      have debris := run_debris space grant found fits read
      constructor
      · intro whole
        -- The empty file is there, although nothing was there before.
        have still := whole.clean (by rw [debris]) place
        rw [debris, FileTree.node_put, if_pos rfl, free] at still
        cases still
      · rintro ⟨grant', serves⟩
        -- What can be served can be opened.
        have there := (source_opens disk cwd grants name).mpr ⟨grant', ?_⟩
        · rw [read] at there
          cases there
        · cases stat : disk.stat cwd (selectedPath name) with
          | none =>
            rw [stat] at serves
            cases tool <;> exact serves.elim
          | some node => rfl
    | some source =>
      obtain ⟨ok, -, -⟩ := run_served space free grant found fits read
      have grant' := (granted_eq_some.mp read).1
      obtain ⟨held, there⟩ := contentAt_opened read
      rw [and_iff_right grant']
      cases tool with
      | copy =>
        rw [← copied_iff free grant found fits read]
        constructor
        · exact fun whole => whole.whole rfl ok
        · exact fun copied => ⟨fun failed => absurd (failed.symm.trans ok) Bool.false_ne_true, fun _ _ => copied⟩
      | compress =>
        -- A compression has told of success, which is all that is asked of it then.
        refine iff_of_true
          ⟨fun failed => absurd (failed.symm.trans ok) Bool.false_ne_true, fun other => by cases other⟩ ?_
        obtain ⟨node, some⟩ := Option.isSome_iff_exists.mp there
        rw [held, some]
        trivial
  · -- Without the destination nothing is changed.
    rw [run_shut opens]
    exact iff_of_true ⟨fun _ _ => rfl, fun _ told => absurd told Bool.false_ne_true⟩ (Or.inl opens)

/-- A disk with one file. -/
def oneFile : Disk where
  entries := [([], .dir), ([hddName], .dir), ([hddName, ascii "a"], .file (ascii "new"))]
  once := by decide
  root := by decide
  parent := by decide

theorem wholeOrClean_one_file :
    WholeOrClean oneFile [] .copy (ascii "a") (run oneFile [] ⟨true, true, true, true⟩ 4096 .copy (ascii "a")) :=
  (wholeOrClean_iff oneFile [] ⟨true, true, true, true⟩ 4096 .copy (ascii "a") (by decide +kernel)).mpr
    (Or.inr ⟨rfl, by decide +kernel⟩)

/-- A file that may not be read is not copied, but an empty file has the name of the copy. -/
theorem unreadable_file_leaves_debris :
    oneFile.stat [] (copyDest (ascii "a")) = none ∧
      ¬ WholeOrClean oneFile [] .copy (ascii "a")
        (run oneFile [] ⟨false, true, true, true⟩ 4096 .copy (ascii "a")) := by
  refine ⟨by decide +kernel, fun whole => ?_⟩
  have still := whole.clean (by decide +kernel) [hddName, ascii "a_copy"]
  revert still
  decide +kernel

end Transfer

end FileTool

end Nebula
