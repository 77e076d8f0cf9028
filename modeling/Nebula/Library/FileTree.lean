import Mathlib.Data.List.Infix
import Mathlib.Data.List.Nodup
import Mathlib.Data.List.DropRight
import Nebula.Library.Paths

/-! A tree of directories and files, and the system calls that change it. -/

/-- What a place of the tree holds. -/
inductive Node (β : Type*) where
  | dir
  | file (content : β)
  deriving DecidableEq, Repr

/-- The places that hold something, each named by the directories on the way to it. -/
structure FileTree (ν β : Type*) where
  entries : List (List ν × Node β)
  once : (entries.map Prod.fst).Nodup
  root : ([], .dir) ∈ entries
  parent : ∀ entry ∈ entries, entry.1 ≠ [] → (entry.1.dropLast, .dir) ∈ entries

namespace FileTree

open Paths

variable {ν β : Type*} [DecidableEq ν]

omit [DecidableEq ν] in
/-- What a place is in is a directory. -/
theorem above (t : FileTree ν β) {place : List ν} {name : ν} {node : Node β}
    (listed : (place ++ [name], node) ∈ t.entries) : (place, .dir) ∈ t.entries := by
  have dir := t.parent _ listed (by simp)
  rwa [List.dropLast_concat] at dir

omit [DecidableEq ν] in
/-- It is enough that every place below another one is in a directory. -/
theorem parent_of_above {entries : List (List ν × Node β)}
    (above : ∀ place name node, (place ++ [name], node) ∈ entries → (place, .dir) ∈ entries) :
    ∀ entry ∈ entries, entry.1 ≠ [] → (entry.1.dropLast, .dir) ∈ entries := by
  rintro ⟨place, node⟩ listed below
  -- A place that is not the root ends with a name.
  cases place using List.reverseRecOn with
  | nil => exact absurd rfl below
  | append_singleton place name =>
    rw [List.dropLast_concat]
    exact above place name node listed

/-- What is at a place. -/
def node (t : FileTree ν β) (place : List ν) : Option (Node β) :=
  (t.entries.find? fun entry => entry.1 = place).map Prod.snd

/-- A place holds a directory. -/
def isDir (t : FileTree ν β) (place : List ν) : Bool :=
  match t.node place with
  | some .dir => true
  | _ => false

/-- What is at a place is what is listed for it. -/
theorem node_eq_some {t : FileTree ν β} {place : List ν} {node : Node β} :
    t.node place = some node ↔ (place, node) ∈ t.entries := by
  rw [FileTree.node, Option.map_eq_some_iff]
  constructor
  · rintro ⟨entry, found, rfl⟩
    have named : entry.1 = place := by simpa using List.find?_some found
    rw [← named]
    exact List.mem_of_find?_eq_some found
  · intro listed
    -- No other entry is listed for the place.
    cases found : t.entries.find? fun entry => entry.1 = place with
    | none =>
      have missing := List.find?_eq_none.mp found (place, node) listed
      exact absurd (decide_eq_true rfl) missing
    | some entry =>
      have named : entry.1 = place := by simpa using List.find?_some found
      have same := List.inj_on_of_nodup_map t.once (List.mem_of_find?_eq_some found) listed named
      exact ⟨entry, rfl, by rw [same]⟩

theorem isDir_iff {t : FileTree ν β} {place : List ν} : t.isDir place = true ↔ t.node place = some .dir := by
  unfold isDir
  split
  · rename_i here
    simp [here]
  · rename_i other
    exact iff_of_false (by simp) other

/-- Something can be put at a place: its directory is there, and it is no directory itself. -/
def Fits (t : FileTree ν β) (place : List ν) : Prop :=
  place ≠ [] ∧ t.isDir place.dropLast = true ∧ t.isDir place = false

instance (t : FileTree ν β) (place : List ν) : Decidable (t.Fits place) :=
  inferInstanceAs (Decidable (_ ∧ _ ∧ _))

/-- Put something at a place. -/
def put (t : FileTree ν β) (place : List ν) (node : Node β) (fits : t.Fits place) : FileTree ν β where
  entries := (place, node) :: t.entries.filter fun entry => entry.1 ≠ place
  once := by
    rw [List.map_cons, List.nodup_cons]
    refine ⟨fun member => ?_, t.once.sublist (List.filter_sublist.map _)⟩
    obtain ⟨entry, kept, same⟩ := List.mem_map.mp member
    exact absurd same (of_decide_eq_true (List.mem_filter.mp kept).2)
  root := List.mem_cons_of_mem _ (List.mem_filter.mpr ⟨t.root, decide_eq_true fits.1.symm⟩)
  parent := by
    refine parent_of_above fun above name below listed => ?_
    have keep : above ≠ place → (above, Node.dir) ∈ t.entries →
        (above, Node.dir) ∈ (place, node) :: t.entries.filter fun entry => entry.1 ≠ place := by
      intro apart here
      exact List.mem_cons_of_mem _ (List.mem_filter.mpr ⟨here, decide_eq_true apart⟩)
    rcases List.mem_cons.mp listed with new | old
    · -- The place itself is below a directory.
      obtain ⟨rfl, rfl⟩ := Prod.mk.inj new
      have dir := node_eq_some.mp (isDir_iff.mp fits.2.1)
      rw [List.dropLast_concat] at dir
      exact keep (fun same => absurd (congrArg List.length same) (by simp)) dir
    · have dir := t.above (List.mem_filter.mp old).1
      refine keep (fun same => ?_) dir
      rw [same, ← node_eq_some, ← isDir_iff, fits.2.2] at dir
      cases dir

theorem node_put (t : FileTree ν β) {place : List ν} (node : Node β) (fits : t.Fits place) (other : List ν) :
    (t.put place node fits).node other = if other = place then some node else t.node other := by
  split
  · rename_i same
    rw [same]
    exact node_eq_some.mpr List.mem_cons_self
  · rename_i apart
    -- The entries of other places are those that were there.
    refine Option.ext fun found => ?_
    rw [node_eq_some, node_eq_some]
    constructor
    · intro listed
      rcases List.mem_cons.mp listed with new | old
      · exact absurd (Prod.mk.inj new).1 apart
      · exact (List.mem_filter.mp old).1
    · intro listed
      exact List.mem_cons_of_mem _ (List.mem_filter.mpr ⟨listed, decide_eq_true apart⟩)

omit [DecidableEq ν] in
/-- What is above something is a directory. -/
theorem dir_of_below {t : FileTree ν β} {place suffix : List ν} {node : Node β}
    (listed : (place ++ suffix, node) ∈ t.entries) (below : suffix ≠ []) : (place, .dir) ∈ t.entries := by
  -- From what is below, one name after the other is taken off.
  induction suffix using List.reverseRecOn generalizing node with
  | nil => exact absurd rfl below
  | append_singleton suffix name ih =>
    rw [← List.append_assoc] at listed
    have here := t.above listed
    by_cases last : suffix = []
    · rwa [last, List.append_nil] at here
    · exact ih here last

/-- Where a place is after everything at and below a source has moved to a destination. -/
def relocate (source dest place : List ν) : List ν :=
  if source <+: place then dest ++ place.drop source.length else place

theorem relocate_append (source dest suffix : List ν) :
    relocate source dest (source ++ suffix) = dest ++ suffix := by
  rw [relocate, if_pos (List.prefix_append _ _), List.drop_left]

/-- A source can be moved: to a place in a directory that is not below the source. -/
def CanMove (t : FileTree ν β) (source dest : List ν) : Prop :=
  source ≠ [] ∧ dest ≠ [] ∧ t.isDir dest.dropLast = true ∧ ¬ source <+: dest

instance (t : FileTree ν β) (source dest : List ν) : Decidable (t.CanMove source dest) :=
  inferInstanceAs (Decidable (_ ∧ _ ∧ _ ∧ _))

/-- Places that are not below the destination stay apart. -/
theorem relocate_injective {source dest place other : List ν} (clear : ¬ dest <+: place)
    (clear' : ¬ dest <+: other) (same : relocate source dest place = relocate source dest other) :
    place = other := by
  -- Each of the two places has moved or not.
  by_cases moved : source <+: place <;> by_cases moved' : source <+: other
  · obtain ⟨suffix, rfl⟩ := moved
    obtain ⟨suffix', rfl⟩ := moved'
    rw [relocate_append, relocate_append] at same
    rw [List.append_cancel_left same]
  · rw [relocate, if_pos moved, relocate, if_neg moved'] at same
    exact absurd (same ▸ List.prefix_append _ _) clear'
  · rw [relocate, if_neg moved, relocate, if_pos moved'] at same
    exact absurd (same.symm ▸ List.prefix_append _ _) clear
  · rwa [relocate, if_neg moved, relocate, if_neg moved'] at same

/-- The entries after everything at and below a source has moved over what is at the destination. -/
def movedEntries (entries : List (List ν × Node β)) (source dest : List ν) : List (List ν × Node β) :=
  (entries.filter fun entry => ¬ dest <+: entry.1).map fun entry => (relocate source dest entry.1, entry.2)

theorem mem_movedEntries {entries : List (List ν × Node β)} {source dest place : List ν} {node : Node β} :
    (place, node) ∈ movedEntries entries source dest ↔
      ∃ old, (old, node) ∈ entries ∧ ¬ dest <+: old ∧ relocate source dest old = place := by
  rw [movedEntries, List.mem_map]
  constructor
  · rintro ⟨⟨old, _⟩, kept, same⟩
    obtain ⟨rfl, rfl⟩ := Prod.mk.inj same
    obtain ⟨listed, clear⟩ := List.mem_filter.mp kept
    exact ⟨old, listed, of_decide_eq_true clear, rfl⟩
  · rintro ⟨old, listed, clear, rfl⟩
    exact ⟨(old, node), List.mem_filter.mpr ⟨listed, decide_eq_true clear⟩, rfl⟩

/-- The directories on the way to a place are there after a move. -/
theorem parent_movedEntries (t : FileTree ν β) {source dest : List ν} (can : t.CanMove source dest)
    {place : List ν} {name : ν} {node : Node β}
    (listed : (place ++ [name], node) ∈ movedEntries t.entries source dest) :
    (place, .dir) ∈ movedEntries t.entries source dest := by
  obtain ⟨_, _, targetDir, apart⟩ := can
  obtain ⟨old, here, clear, same⟩ := mem_movedEntries.mp listed
  rw [mem_movedEntries]
  by_cases moved : source <+: old
  · obtain ⟨suffix, rfl⟩ := moved
    rw [relocate_append] at same
    cases suffix using List.reverseRecOn with
    | nil =>
      -- The source itself is now below the directory of the destination, which stays where it is.
      rw [List.append_nil] at same
      have above : dest.dropLast = place := by rw [same, List.dropLast_concat]
      rw [above, isDir_iff, node_eq_some] at targetDir
      have shorter : ¬ dest <+: place := fun within => by
        have length := within.length_le
        rw [same, List.length_append, List.length_singleton] at length
        omega
      refine ⟨place, targetDir, shorter, ?_⟩
      rw [relocate, if_neg fun within => apart (within.trans (same ▸ List.prefix_append _ _))]
    | append_singleton suffix last =>
      rw [← List.append_assoc] at same here clear
      obtain ⟨rfl, -⟩ := List.append_inj' same rfl
      refine ⟨source ++ suffix, t.above here, fun within => clear ?_, relocate_append _ _ _⟩
      exact within.trans (List.prefix_append _ _)
  · -- What did not move is below what did not move.
    rw [relocate, if_neg moved] at same
    subst same
    refine ⟨place, t.above here, fun within => clear (within.trans (List.prefix_append _ _)), ?_⟩
    rw [relocate, if_neg fun within => moved (within.trans (List.prefix_append _ _))]

/-- Move everything at and below a source, over what is at the destination. -/
def moveTo (t : FileTree ν β) (source dest : List ν) (can : t.CanMove source dest) : FileTree ν β where
  entries := movedEntries t.entries source dest
  once := by
    -- The places that stay listed are relocated one by one, and apart from each other.
    have places : (movedEntries t.entries source dest).map Prod.fst =
        ((t.entries.filter fun entry => ¬ dest <+: entry.1).map Prod.fst).map (relocate source dest) := by
      rw [movedEntries, List.map_map, List.map_map]
      rfl
    have clear : ∀ place ∈ (t.entries.filter fun entry => ¬ dest <+: entry.1).map Prod.fst,
        ¬ dest <+: place := by
      intro place member
      obtain ⟨entry, kept, rfl⟩ := List.mem_map.mp member
      exact of_decide_eq_true (List.mem_filter.mp kept).2
    rw [places]
    exact (t.once.sublist (List.filter_sublist.map _)).map_on fun place member other member' same =>
      relocate_injective (clear place member) (clear other member') same
  root := by
    obtain ⟨moving, target, -, -⟩ := can
    refine mem_movedEntries.mpr ⟨[], t.root, fun within => target (List.prefix_nil.mp within), ?_⟩
    rw [relocate, if_neg fun within => moving (List.prefix_nil.mp within)]
  parent := parent_of_above fun _ _ _ listed => parent_movedEntries t can listed

/-- What is neither below the source nor below the destination stays where it is. -/
theorem node_moveTo_beside {t : FileTree ν β} {source dest : List ν} (can : t.CanMove source dest)
    {place : List ν} (still : ¬ source <+: place) (clear : ¬ dest <+: place) {node : Node β}
    (here : t.node place = some node) : (t.moveTo source dest can).node place = some node := by
  rw [node_eq_some] at here ⊢
  exact mem_movedEntries.mpr ⟨_, here, clear, by rw [relocate, if_neg still]⟩

/-- Where nothing is, nothing is below. -/
theorem not_below_missing {t : FileTree ν β} {dest : List ν} (missing : t.node dest = none)
    {place : List ν} {node : Node β} (here : t.node place = some node) : ¬ dest <+: place := by
  rintro ⟨suffix, rfl⟩
  -- What is below something would make it a directory.
  by_cases same : suffix = []
  · rw [same, List.append_nil, missing] at here
    cases here
  · have dir := node_eq_some.mpr (dir_of_below (node_eq_some.mp here) same)
    rw [missing] at dir
    cases dir

/-- A place has something below it. -/
def hasChild (t : FileTree ν β) (place : List ν) : Bool :=
  t.entries.any fun entry => entry.1 ≠ [] ∧ entry.1.dropLast = place

/-- Whether rename may put one thing in the place of another, or of nothing. -/
def replaceable (t : FileTree ν β) (source dest : List ν) : Bool :=
  match t.node source, t.node dest with
  | none, _ => false
  | some _, none => true
  | some (.file _), some (.file _) => true
  | some .dir, some .dir => !t.hasChild dest
  | _, _ => false

/-- What rename makes of a source and a destination, if it is possible. -/
def rename (t : FileTree ν β) (source dest : List ν) : Option (FileTree ν β) :=
  if source = dest then if (t.node source).isSome then some t else none
  else if possible : t.CanMove source dest ∧ t.replaceable source dest = true then
    some (t.moveTo source dest possible.1)
  else none

/-- The place that one component of a path leads to. -/
def enter (here : List ν) : Component ν → List ν
  | .blank | .self => here
  | .parent => here.dropLast
  | .name name => here ++ [name]

/-- The place that a path names; all that it passes through has to be a directory. -/
def lookup (t : FileTree ν β) (here : List ν) : List (Component ν) → Option (List ν)
  | [] => some here
  | component :: path => if t.isDir here then t.lookup (enter here component) path else none

/-- A path without the slashes at its end. -/
def trimmed (path : List (Component ν)) : List (Component ν) := path.rdropWhile (· = .blank)

/-- A path ends with a name, slashes aside. -/
def endsWithName (path : List (Component ν)) : Bool :=
  match (trimmed path).getLast? with
  | some (.name _) => true
  | _ => false

/-- stat: what a path leads to. -/
def stat (t : FileTree ν β) (cwd : List ν) (path : List (Component ν)) : Option (Node β) :=
  (t.lookup cwd path).bind t.node

/-- mkdir: a new directory, where there is nothing. -/
def mkdir (t : FileTree ν β) (cwd : List ν) (path : List (Component ν)) : Option (FileTree ν β) :=
  match t.lookup cwd (trimmed path) with
  | none => none
  | some place =>
    if possible : t.Fits place ∧ (t.node place).isNone then some (t.put place .dir possible.1) else none

/-- open with O_CREAT and O_TRUNC: the place of the file, which now has the given empty content. -/
def openWrite (t : FileTree ν β) (cwd : List ν) (path : List (Component ν)) (empty : β) :
    Option (List ν × FileTree ν β) :=
  match t.lookup cwd path with
  | none => none
  | some place => if fits : t.Fits place then some (place, t.put place (.file empty) fits) else none

/-- The destination of a rename; a directory may be renamed to a path with slashes at its end. -/
def renameDest (t : FileTree ν β) (cwd source : List ν) (path : List (Component ν)) : Option (List ν) :=
  t.lookup cwd (if t.isDir source then trimmed path else path)

/-- The source and the destination of a rename, if both paths end with names. -/
def renamePlaces (t : FileTree ν β) (cwd : List ν) (old new : List (Component ν)) :
    Option (List ν × List ν) :=
  if endsWithName old && endsWithName new then
    match t.lookup cwd old with
    | none => none
    | some source => (t.renameDest cwd source new).map fun dest => (source, dest)
  else none

/-- rename, for two paths. -/
def renamePath (t : FileTree ν β) (cwd : List ν) (old new : List (Component ν)) : Option (FileTree ν β) :=
  (t.renamePlaces cwd old new).bind fun (source, dest) => t.rename source dest

/-- Every file is still where it was or, if it has moved, where it has moved to. -/
def Keeps (t t' : FileTree ν β) (moved : Option (List ν × List ν)) : Prop :=
  ∀ place content, t.node place = some (.file content) → t'.node place = some (.file content) ∨
    ∃ source dest suffix, moved = some (source, dest) ∧ place = source ++ suffix ∧
      t'.node (dest ++ suffix) = some (.file content)

theorem Keeps.refl (t : FileTree ν β) (moved : Option (List ν × List ν)) : Keeps t t moved :=
  fun _ _ here => Or.inl here

/-- What is cut from a path are slashes. -/
theorem trimmed_parts (path : List (Component ν)) :
    ∃ blanks, path = trimmed path ++ blanks ∧ ∀ component ∈ blanks, component = .blank := by
  refine ⟨path.rtakeWhile (· = .blank), List.rdropWhile_append_rtakeWhile.symm, fun component member => ?_⟩
  simpa using List.mem_rtakeWhile_imp member

/-- The places of a rename are those that its paths lead to. -/
theorem renamePlaces_eq_some {t : FileTree ν β} {cwd source dest : List ν} {old new : List (Component ν)}
    (places : t.renamePlaces cwd old new = some (source, dest)) :
    t.lookup cwd old = some source ∧ t.renameDest cwd source new = some dest := by
  unfold renamePlaces at places
  -- Neither the source nor the destination may lead nowhere.
  split at places
  · split at places
    · cases places
    · rename_i found
      obtain ⟨_, there, same⟩ := Option.map_eq_some_iff.mp places
      obtain ⟨rfl, rfl⟩ := Prod.mk.inj same
      exact ⟨found, there⟩
  · cases places

/-- mkdir puts a directory where nothing was. -/
theorem mkdir_eq_some {t t' : FileTree ν β} {cwd : List ν} {path : List (Component ν)} :
    t.mkdir cwd path = some t' ↔ ∃ place, t.lookup cwd (trimmed path) = some place ∧
      t.node place = none ∧ ∃ fits, t' = t.put place .dir fits := by
  unfold mkdir
  split
  · rename_i nowhere
    simp [nowhere]
  · rename_i found here
    rw [here]
    split
    · rename_i possible
      rw [Option.some.injEq]
      constructor
      · rintro rfl
        exact ⟨found, rfl, Option.isNone_iff_eq_none.mp possible.2, possible.1, rfl⟩
      · rintro ⟨place, same, -, _, rfl⟩
        obtain rfl := Option.some.inj same
        rfl
    · rename_i impossible
      -- Something is there, or there is no directory to put the new one in.
      refine iff_of_false (by simp) ?_
      rintro ⟨place, same, missing, fits, -⟩
      obtain rfl := Option.some.inj same
      exact impossible ⟨fits, Option.isNone_iff_eq_none.mpr missing⟩

/-- A path is slashes alone, or begins with a name. -/
def Descends (path : List (Component ν)) : Prop :=
  (∀ component ∈ path, component = .blank) ∨ ∃ name rest, path = .name name :: rest

/-- A file that a path leads to can be opened for writing. -/
theorem fits_of_file {t : FileTree ν β} {place : List ν} {content : β}
    (here : t.node place = some (.file content)) : t.Fits place := by
  have listed := node_eq_some.mp here
  have notDir : t.isDir place = false := by simp [isDir, here]
  -- The root is no file, and any other place is in a directory.
  cases place using List.reverseRecOn with
  | nil =>
    rw [node_eq_some.mpr t.root] at here
    cases here
  | append_singleton above name =>
    refine ⟨by simp, ?_, notDir⟩
    rw [List.dropLast_concat, isDir_iff, node_eq_some]
    exact t.above listed

theorem openWrite_eq_some {t t' : FileTree ν β} {cwd place : List ν} {path : List (Component ν)} {empty : β} :
    t.openWrite cwd path empty = some (place, t') ↔
      t.lookup cwd path = some place ∧ ∃ fits, t' = t.put place (.file empty) fits := by
  unfold openWrite
  -- The path leads somewhere, and there must be room for a file.
  split
  · rename_i nowhere
    simp [nowhere]
  · rename_i found here
    rw [here, Option.some.injEq]
    split
    · rename_i fits
      rw [Option.some.injEq, Prod.mk.injEq]
      constructor
      · rintro ⟨rfl, rfl⟩
        exact ⟨rfl, fits, rfl⟩
      · rintro ⟨rfl, _, rfl⟩
        exact ⟨rfl, rfl⟩
    · rename_i unfit
      refine iff_of_false (by simp) ?_
      rintro ⟨rfl, fits, -⟩
      exact unfit fits

end FileTree
