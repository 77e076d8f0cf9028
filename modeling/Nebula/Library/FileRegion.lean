import Nebula.Library.FileTree

/-! Which places the system calls change, taking a file away among them, and which paths lead below a directory. -/

namespace FileTree

open Paths

variable {ν β : Type*}

/-- The place that a path names, where there are no links. -/
def leads (cwd : List ν) (path : List (Component ν)) : List ν := path.foldl enter cwd

/-- A place is below a directory. -/
def Below (home place : List ν) : Prop := ∃ inner, inner ≠ [] ∧ place = home ++ inner

/-- What is below a directory has its place behind that of the directory. -/
theorem Below.within {home place : List ν} (below : Below home place) : home <+: place := by
  -- The names in between are what is missing.
  obtain ⟨inner, -, rfl⟩ := below
  exact List.prefix_append home inner

/-- A directory is not below itself. -/
theorem Below.ne {home place : List ν} (below : Below home place) : place ≠ home := by
  -- At least one name is in between.
  obtain ⟨inner, some, rfl⟩ := below
  exact fun same => some (List.append_right_eq_self.mp same)

variable [DecidableEq ν]

/-- Nothing has changed but the places of some tops and what is below them. -/
def ChangesOnly (tops : List (List ν)) (t t' : FileTree ν β) : Prop :=
  ∀ place, (∀ top ∈ tops, ¬ top <+: place) → t'.node place = t.node place

namespace ChangesOnly

/-- What stays as it is changes nothing anywhere. -/
theorem refl (tops : List (List ν)) (t : FileTree ν β) : ChangesOnly tops t t :=
  fun _ _ => rfl

/-- More may be allowed to change. -/
theorem mono {tops more : List (List ν)} {t t' : FileTree ν β} (changes : ChangesOnly tops t t')
    (all : tops ⊆ more) : ChangesOnly more t t' :=
  fun place apart => changes place fun top member => apart top (all member)

/-- Two changes, one after the other, stay within what each of them may change. -/
theorem trans {tops : List (List ν)} {t t' t'' : FileTree ν β} (first : ChangesOnly tops t t')
    (second : ChangesOnly tops t' t'') : ChangesOnly tops t t'' :=
  fun place apart => (second place apart).trans (first place apart)

/-- A directory stays one if nothing from it on up may change. -/
theorem isDir {tops : List (List ν)} {t t' : FileTree ν β} (changes : ChangesOnly tops t t') {home : List ν}
    (apart : ∀ top ∈ tops, ¬ top <+: home) : t'.isDir home = t.isDir home := by
  -- Being a directory is a matter of what is at the place.
  rw [FileTree.isDir, FileTree.isDir, changes home apart]

end ChangesOnly

/-- Putting something at a place changes only that. -/
theorem changesOnly_put {place : List ν} (t : FileTree ν β) (node : Node β) (fits : t.Fits place) :
    ChangesOnly [place] t (t.put place node fits) := by
  -- A place that is not behind the one of the new node is another one.
  intro other apart
  rw [node_put, if_neg]
  rintro rfl
  exact apart other (List.mem_singleton_self other) (List.prefix_refl other)

/-- What is neither below the source nor below the destination of a move is the same before and after it. -/
theorem node_moveTo_apart {t : FileTree ν β} {source dest : List ν} (can : t.CanMove source dest)
    {place : List ν} (still : ¬ source <+: place) (clear : ¬ dest <+: place) :
    (t.moveTo source dest can).node place = t.node place := by
  refine Option.ext fun node => ⟨fun there => ?_, node_moveTo_beside can still clear⟩
  rw [node_eq_some] at there ⊢
  obtain ⟨old, listed, -, same⟩ := mem_movedEntries.mp there
  -- Nothing has come to the place from below the source.
  by_cases moved : source <+: old
  · obtain ⟨suffix, rfl⟩ := moved
    rw [relocate_append] at same
    exact absurd (same ▸ List.prefix_append _ _) clear
  · rw [relocate, if_neg moved] at same
    exact same ▸ listed

/-- A rename changes only its source and its destination. -/
theorem changesOnly_rename {source dest : List ν} {t t' : FileTree ν β} (renamed : t.rename source dest = some t') :
    ChangesOnly [source, dest] t t' := by
  unfold rename at renamed
  -- Two names of one place leave everything as it is; otherwise a move is apart from what is asked about.
  split at renamed
  · split at renamed
    · obtain rfl := Option.some.inj renamed
      exact .refl _ t
    · cases renamed
  · split at renamed
    · rename_i possible
      obtain rfl := Option.some.inj renamed
      intro place apart
      apply node_moveTo_apart possible.1
      · exact apart source List.mem_cons_self
      · exact apart dest (List.mem_cons_of_mem _ (List.mem_singleton_self dest))
    · cases renamed

/-- Take a place without anything below it out of the tree. -/
def erase (t : FileTree ν β) (place : List ν) (bare : place ≠ [] ∧ t.hasChild place = false) : FileTree ν β where
  entries := t.entries.filter fun entry => entry.1 ≠ place
  once := t.once.sublist (List.filter_sublist.map _)
  root := List.mem_filter.mpr ⟨t.root, decide_eq_true bare.1.symm⟩
  parent := by
    intro entry kept below
    have listed := (List.mem_filter.mp kept).1
    refine List.mem_filter.mpr ⟨t.parent entry listed below, decide_eq_true fun same => ?_⟩
    -- The directory of what is kept has something below it.
    have child : t.hasChild place = true :=
      List.any_eq_true.mpr ⟨entry, listed, decide_eq_true ⟨below, same⟩⟩
    rw [bare.2] at child
    cases child

theorem node_erase (t : FileTree ν β) {place : List ν} (bare : place ≠ [] ∧ t.hasChild place = false)
    (other : List ν) : (t.erase place bare).node other = if other = place then none else t.node other := by
  refine Option.ext fun node => ?_
  rw [node_eq_some]
  split
  · rename_i same
    refine iff_of_false (fun kept => ?_) (by simp)
    exact of_decide_eq_true (List.mem_filter.mp kept).2 same
  · rename_i apart
    rw [node_eq_some]
    exact ⟨fun kept => (List.mem_filter.mp kept).1,
      fun listed => List.mem_filter.mpr ⟨listed, decide_eq_true apart⟩⟩

/-- remove: a file goes, or a directory without anything in it. -/
def remove (t : FileTree ν β) (cwd : List ν) (path : List (Component ν)) : Option (FileTree ν β) :=
  if endsWithName path then
    match t.lookup cwd path with
    | none => none
    | some place =>
      if bare : (place ≠ [] ∧ t.hasChild place = false) ∧ (t.node place).isSome then some (t.erase place bare.1)
      else none
  else none

/-- remove takes what the path leads to, if there is something and nothing is below it. -/
theorem remove_eq_some {t t' : FileTree ν β} {cwd : List ν} {path : List (Component ν)} :
    t.remove cwd path = some t' ↔ endsWithName path = true ∧ ∃ place, t.lookup cwd path = some place ∧
      (t.node place).isSome ∧ ∃ bare, t' = t.erase place bare := by
  unfold remove
  split
  · rename_i named
    cases found : t.lookup cwd path with
    | none => simp
    | some place =>
      dsimp only
      split
      · rename_i possible
        rw [Option.some.injEq]
        constructor
        · rintro rfl
          exact ⟨named, place, rfl, possible.2, possible.1, rfl⟩
        · rintro ⟨-, other, same, -, _, rfl⟩
          obtain rfl := Option.some.inj same
          rfl
      · rename_i impossible
        refine iff_of_false (by simp) ?_
        rintro ⟨-, other, same, here, bare, -⟩
        obtain rfl := Option.some.inj same
        exact impossible ⟨bare, here⟩
  · rename_i unnamed
    exact iff_of_false (by simp) fun removed => unnamed removed.1

/-- Taking something away changes only its place. -/
theorem changesOnly_erase {place : List ν} (t : FileTree ν β) (bare : place ≠ [] ∧ t.hasChild place = false) :
    ChangesOnly [place] t (t.erase place bare) := by
  -- A place that is not behind the one taken away is another one.
  intro other apart
  rw [node_erase, if_neg]
  rintro rfl
  exact apart other (List.mem_singleton_self other) (List.prefix_refl other)

/-- A path leads to a place exactly if its components say so and all that it passes through are directories. -/
theorem lookup_eq_some_iff {t : FileTree ν β} {here place : List ν} {path : List (Component ν)} :
    t.lookup here path = some place ↔ leads here path = place ∧
      ∀ before component after, path = before ++ component :: after → t.isDir (leads here before) = true := by
  induction path generalizing here with
  | nil =>
    rw [lookup, Option.some.injEq]
    refine ⟨fun same => ⟨same, fun before component after split => ?_⟩, fun both => both.1⟩
    cases before <;> cases split
  | cons component path ih =>
    rw [lookup]
    constructor
    · intro found
      split at found
      · rename_i dir
        obtain ⟨ends, passes⟩ := ih.mp found
        refine ⟨ends, fun before other after split => ?_⟩
        -- The first place is the one it starts from, and the others are those behind the first component.
        cases before with
        | nil => exact dir
        | cons first before =>
          obtain ⟨same, rest⟩ := List.cons.inj split
          rw [← same]
          exact passes before other after rest
      · cases found
    · rintro ⟨ends, passes⟩
      have dir : t.isDir here = true := passes [] component path rfl
      rw [if_pos dir]
      exact ih.mpr ⟨ends, fun before other after split =>
        passes (component :: before) other after (congrArg (component :: ·) split)⟩

/-- Without links, a path leads where its components say. -/
theorem lookup_leads {t : FileTree ν β} {here place : List ν} {path : List (Component ν)}
    (found : t.lookup here path = some place) : place = leads here path :=
  (lookup_eq_some_iff.mp found).1.symm

/-- The slashes that are cut from the end of a path lead nowhere else. -/
theorem leads_trimmed (path : List (Component ν)) (here : List ν) :
    leads here (trimmed path) = leads here path := by
  obtain ⟨blanks, parts, all⟩ := trimmed_parts path
  have still : ∀ place, blanks.foldl enter place = place := by
    clear parts
    induction blanks with
    | nil => exact fun _ => rfl
    | cons component blanks ih =>
      obtain rfl := all component List.mem_cons_self
      exact ih fun other member => all other (List.mem_cons_of_mem _ member)
  unfold leads
  conv_rhs => rw [parts, List.foldl_append, still]

/-- Where a walk that has started in a directory stands, by the count that is kept of it. -/
def Stands (cwd : List ν) (home : ν) (place : List ν) : Whereabouts → Prop
  | .inside depth => ∃ inner, place = cwd ++ [home] ++ inner ∧ inner.length = depth
  | .beside depth => ∃ inner, place = cwd ++ inner ∧ inner.length = depth ∧ inner.head? ≠ some home
  | .above => True

/-- One component keeps the count right. -/
theorem Stands.walk {cwd : List ν} {home : ν} {place : List ν} {w : Whereabouts} (stands : Stands cwd home place w)
    (component : Component ν) : Stands cwd home (enter place component) (w.walk home component) := by
  cases component with
  | blank => exact stands
  | self => exact stands
  | parent =>
    cases w with
    | inside depth =>
      obtain ⟨inner, rfl, rfl⟩ := stands
      cases inner using List.reverseRecOn with
      -- The directory itself is left for the one it is in.
      | nil => exact ⟨[], by simp [enter], rfl, by simp⟩
      | append_singleton inner name =>
        rw [List.length_append, List.length_singleton]
        exact ⟨inner, by rw [enter, ← List.append_assoc, List.dropLast_concat], rfl⟩
    | beside depth =>
      obtain ⟨inner, rfl, rfl, other⟩ := stands
      cases inner using List.reverseRecOn with
      | nil => trivial
      | append_singleton inner name =>
        rw [List.length_append, List.length_singleton]
        refine ⟨inner, by rw [enter, ← List.append_assoc, List.dropLast_concat], rfl, fun first => other ?_⟩
        rw [List.head?_append, first]
        rfl
    | above => trivial
  | name name =>
    cases w with
    | inside depth =>
      obtain ⟨inner, rfl, rfl⟩ := stands
      exact ⟨inner ++ [name], by rw [enter, List.append_assoc], by simp⟩
    | beside depth =>
      obtain ⟨inner, rfl, rfl, other⟩ := stands
      cases inner with
      | nil =>
        show Stands cwd home _ (if name = home then .inside 0 else .beside 1)
        split
        · rename_i back
          exact ⟨[], by simp [enter, back], rfl⟩
        · rename_i apart
          exact ⟨[name], by simp [enter], rfl, by simpa using apart⟩
      | cons first inner =>
        exact ⟨first :: inner ++ [name], by simp [enter], by simp, by simpa using other⟩
    | above => trivial

/-- A path that is confined to a directory leads below it from there. -/
theorem below_of_confined {home : ν} {path : List (Component ν)} (confined : Confined home path) (cwd : List ν) :
    Below (cwd ++ [home]) (leads cwd (.name home :: path)) := by
  have general : ∀ (path : List (Component ν)) (place : List ν) (w : Whereabouts), Stands cwd home place w →
      Stands cwd home (path.foldl enter place) (path.foldl (Whereabouts.walk home) w) := by
    intro path
    induction path with
    | nil => exact fun place w stands => stands
    | cons component path ih => exact fun place w stands => ih _ _ (stands.walk component)
  have start : Stands cwd home (cwd ++ [home]) (.inside 0) := ⟨[], by simp, rfl⟩
  obtain ⟨depth, ends⟩ := confined
  have there := general path _ _ start
  rw [ends] at there
  obtain ⟨inner, place, length⟩ := there
  exact ⟨inner, List.ne_nil_of_length_eq_add_one length, place⟩

section Calls

variable {t t' : FileTree ν β} {cwd : List ν} {path : List (Component ν)}

/-- mkdir changes only what its path leads to. -/
theorem changesOnly_mkdir (made : t.mkdir cwd path = some t') : ChangesOnly [leads cwd path] t t' := by
  obtain ⟨place, found, -, fits, rfl⟩ := mkdir_eq_some.mp made
  -- The slashes at the end of the path make no difference to that.
  rw [← leads_trimmed, ← lookup_leads found]
  exact changesOnly_put t _ fits

/-- Opening a file for writing changes only what the path leads to. -/
theorem changesOnly_openWrite {place : List ν} {empty : β} (opened : t.openWrite cwd path empty = some (place, t')) :
    place = leads cwd path ∧ ChangesOnly [leads cwd path] t t' := by
  obtain ⟨found, fits, rfl⟩ := openWrite_eq_some.mp opened
  -- The file is where the path leads to.
  rw [← lookup_leads found]
  exact ⟨rfl, changesOnly_put t _ fits⟩

/-- remove changes only what its path leads to. -/
theorem changesOnly_remove (removed : t.remove cwd path = some t') : ChangesOnly [leads cwd path] t t' := by
  obtain ⟨-, place, found, -, bare, rfl⟩ := remove_eq_some.mp removed
  -- What is taken away is what the path leads to.
  rw [← lookup_leads found]
  exact changesOnly_erase t bare

/-- rename changes only what its two paths lead to. -/
theorem changesOnly_renamePath {new : List (Component ν)} (renamed : t.renamePath cwd path new = some t') :
    ChangesOnly [leads cwd path, leads cwd new] t t' := by
  obtain ⟨⟨source, dest⟩, places, renamed⟩ := Option.bind_eq_some_iff.mp renamed
  obtain ⟨found, target⟩ := renamePlaces_eq_some places
  -- The destination may have been trimmed, which leads to the same place.
  have there : dest = leads cwd new := by
    unfold renameDest at target
    split at target
    · rw [lookup_leads target, leads_trimmed]
    · exact lookup_leads target
  rw [← lookup_leads found, ← there]
  exact changesOnly_rename renamed

end Calls

end FileTree
