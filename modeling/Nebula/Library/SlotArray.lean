import Mathlib.Data.Vector.Basic
import Mathlib.Data.List.Forall2
import Mathlib.Data.List.FinRange
import Mathlib.Data.Finset.Card
import Mathlib.Tactic.Common
import Nebula.Library.Bag

/-! A fixed array whose first entries are live, with deletion by shifting the later ones down. -/

/-- An array of a fixed capacity, of which the first `count` cells are live. -/
structure SlotArray (α : Type*) (cap : Nat) where
  /-- Every cell, the ones past the live prefix holding whatever was left there. -/
  cells : Vector α cap
  count : Nat
  count_le : count ≤ cap

namespace SlotArray

variable {α : Type*} {cap : Nat}

/-- An array with no live cell. -/
def empty (cap : Nat) [Inhabited α] : SlotArray α cap where
  cells := Vector.replicate cap default
  count := 0
  count_le := Nat.zero_le _

/-- The content of a cell, live or stale. -/
def get (a : SlotArray α cap) (slot : Fin cap) : α := a.cells[slot.val]

/-- The live cells in order, the ones a loop from zero below the count walks through. -/
def slots (a : SlotArray α cap) : List (Fin cap) := (List.finRange cap).take a.count

/-- The contents of the live cells in order. -/
def entries (a : SlotArray α cap) : List α := a.slots.map a.get

/-- The contents of the live cells without their order. -/
def bag (a : SlotArray α cap) : Multiset α := a.entries

/-- The first free cell of an array that is not full. -/
def nextSlot (a : SlotArray α cap) (room : a.count < cap) : Fin cap := ⟨a.count, room⟩

/-- Write the first free cell and count it as live. -/
def append (a : SlotArray α cap) (room : a.count < cap) (entry : α) : SlotArray α cap where
  cells := a.cells.set a.count entry
  count := a.count + 1
  count_le := room

/-- Count no cell as live any more. -/
def clear (a : SlotArray α cap) : SlotArray α cap := { a with count := 0, count_le := Nat.zero_le _ }

/-- Overwrite one cell. -/
def set (a : SlotArray α cap) (slot : Fin cap) (entry : α) : SlotArray α cap :=
  { a with cells := a.cells.set slot.val entry }

/-- Copy each of a number of cells from its successor, in increasing order. -/
def shiftDown (cells : Vector α cap) (start : Nat) : Nat → Vector α cap
  | 0 => cells
  | left + 1 =>
    if inside : start + 1 < cap then
      shiftDown (cells.set start cells[start + 1]) (start + 1) left
    else cells

/-- Delete a live cell by copying every later live cell one place down. -/
def removeAt (a : SlotArray α cap) (slot : Fin cap) : SlotArray α cap where
  cells := shiftDown a.cells slot.val (a.count - 1 - slot.val)
  count := a.count - 1
  count_le := by have := a.count_le; omega

/-- The first live cell whose content passes a test. -/
def findFirst (test : α → Bool) (a : SlotArray α cap) : Option (Fin cap) :=
  a.slots.find? fun slot => test (a.get slot)

/-- Rewrite one cell, and raise the flag if the rewriting does. -/
def sweepOne (rewrite : α → α × Bool) (swept : SlotArray α cap × Bool) (slot : Fin cap) :
    SlotArray α cap × Bool :=
  let (entry, flag) := rewrite (swept.1.get slot)
  (swept.1.set slot entry, swept.2 || flag)

/-- Rewrite every live cell in order, and whether any rewriting raised its flag. -/
def sweep (rewrite : α → α × Bool) (a : SlotArray α cap) : SlotArray α cap × Bool :=
  a.slots.foldl (sweepOne rewrite) (a, false)

@[simp] theorem slots_empty [Inhabited α] : (empty cap : SlotArray α cap).slots = [] := rfl

@[simp] theorem entries_empty [Inhabited α] : (empty cap : SlotArray α cap).entries = [] := rfl

@[simp] theorem entries_clear (a : SlotArray α cap) : a.clear.entries = [] := rfl

@[simp] theorem length_slots (a : SlotArray α cap) : a.slots.length = a.count := by
  simp [slots, a.count_le]

@[simp] theorem length_entries (a : SlotArray α cap) : a.entries.length = a.count := by
  simp [entries]

/-- The walk over the live cells visits exactly the indices below the count. -/
@[simp] theorem mem_slots {a : SlotArray α cap} {slot : Fin cap} :
    slot ∈ a.slots ↔ slot.val < a.count := by
  -- The cell at a position of the walk is the one with that number.
  simp only [slots, List.mem_take_iff_getElem, List.getElem_finRange, List.length_finRange]
  constructor
  · rintro ⟨index, inside, rfl⟩
    simp only [Fin.val_cast]
    omega
  · intro inside
    exact ⟨slot.val, by omega, by ext; simp⟩

theorem nodup_slots (a : SlotArray α cap) : a.slots.Nodup :=
  (List.nodup_finRange cap).sublist (List.take_sublist _ _)

/-- Without the cell of an index, the walk visits the other live cells. -/
theorem mem_eraseIdx_map_slots {β : Type*} {f : Fin cap → β} {a : SlotArray α cap} {slot : Fin cap}
    {row : β} : row ∈ (a.slots.map f).eraseIdx slot.val ↔
      ∃ other, other.val < a.count ∧ other ≠ slot ∧ f other = row := by
  -- The walk visits each cell at the position of its number.
  have place : ∀ index (inside : index < a.slots.length), (a.slots[index]).val = index := by
    intro index inside
    simp [slots]
  rw [List.mem_eraseIdx_iff_getElem]
  constructor
  · rintro ⟨index, inside, apart, rfl⟩
    rw [List.length_map] at inside
    refine ⟨a.slots[index], mem_slots.mp (List.getElem_mem inside), fun same => apart ?_, ?_⟩
    · rw [← place index inside, same]
    · rw [List.getElem_map]
  · rintro ⟨other, live, apart, rfl⟩
    have inside : other.val < a.slots.length := by simpa using live
    refine ⟨other.val, by simpa using live, fun same => apart (Fin.ext same), ?_⟩
    rw [List.getElem_map]
    exact congrArg f (Fin.ext (place other.val inside))

theorem mem_entries {a : SlotArray α cap} {entry : α} :
    entry ∈ a.entries ↔ ∃ slot, slot.val < a.count ∧ a.get slot = entry := by
  simp [entries]

@[simp] theorem mem_bag {a : SlotArray α cap} {entry : α} : entry ∈ a.bag ↔ entry ∈ a.entries :=
  Multiset.mem_coe

theorem getElem?_entries (a : SlotArray α cap) (slot : Fin cap) (live : slot.val < a.count) :
    a.entries[slot.val]? = some (a.get slot) := by
  simp [entries, slots, List.getElem?_take_of_lt live]

@[simp] theorem count_append (a : SlotArray α cap) (room : a.count < cap) (entry : α) :
    (a.append room entry).count = a.count + 1 := rfl

@[simp] theorem get_append_self (a : SlotArray α cap) (room : a.count < cap) (entry : α) :
    (a.append room entry).get (a.nextSlot room) = entry := by
  simp [append, get, nextSlot]

theorem get_append_of_lt {a : SlotArray α cap} (room : a.count < cap) (entry : α) {slot : Fin cap}
    (live : slot.val < a.count) : (a.append room entry).get slot = a.get slot := by
  -- The written cell is the first one past the live cells.
  simp only [append, get]
  exact Vector.getElem_set_ne _ _ (by omega)

/-- Appending makes exactly one more cell live, after the others. -/
theorem slots_append (a : SlotArray α cap) (room : a.count < cap) (entry : α) :
    (a.append room entry).slots = a.slots ++ [a.nextSlot room] := by
  simp [slots, append, nextSlot, List.take_add_one, room]

theorem entries_append (a : SlotArray α cap) (room : a.count < cap) (entry : α) :
    (a.append room entry).entries = a.entries ++ [entry] := by
  -- The walk gains the new cell, and the cells before it are untouched.
  simp only [entries, slots_append, List.map_append, List.map_cons, List.map_nil, get_append_self]
  congr 1
  exact List.map_congr_left fun slot member => get_append_of_lt room entry (mem_slots.mp member)

theorem bag_append (a : SlotArray α cap) (room : a.count < cap) (entry : α) :
    (a.append room entry).bag = entry ::ₘ a.bag := by
  -- The order of the live cells is forgotten, so the new entry may as well come first.
  rw [bag, bag, entries_append]
  exact Bag.snoc a.entries entry

@[simp] theorem count_set (a : SlotArray α cap) (slot : Fin cap) (entry : α) :
    (a.set slot entry).count = a.count := rfl

@[simp] theorem slots_set (a : SlotArray α cap) (slot : Fin cap) (entry : α) :
    (a.set slot entry).slots = a.slots := rfl

theorem get_set (a : SlotArray α cap) (slot other : Fin cap) (entry : α) :
    (a.set slot entry).get other = if slot = other then entry else a.get other := by
  simp only [set, get, Vector.getElem_set, Fin.ext_iff]

/-- A second overwrite of a cell hides the first. -/
theorem set_set (a : SlotArray α cap) (slot : Fin cap) (first second : α) :
    (a.set slot first).set slot second = a.set slot second := by
  simp [set]

theorem entries_set (a : SlotArray α cap) (slot : Fin cap) (entry : α) :
    (a.set slot entry).entries = a.entries.set slot.val entry := by
  -- Both sides are read at an index, where a cell is its own position in the walk.
  apply List.ext_getElem
  · simp
  · intro index inside _
    simp only [length_entries, count_set] at inside
    simp [entries, slots, get_set, List.getElem_set, Fin.ext_iff]

/-- Overwriting a cell relates each live entry to itself or to what it is overwritten with. -/
theorem forall₂_entries_set {related : α → α → Prop} (kept : ∀ entry, related entry entry)
    (a : SlotArray α cap) (slot : Fin cap) {entry : α}
    (written : slot.val < a.count → related (a.get slot) entry) :
    List.Forall₂ related a.entries (a.set slot entry).entries := by
  -- Entry by entry, only the one at the written cell has changed.
  simp only [entries, slots_set, List.forall₂_map_left_iff, List.forall₂_map_right_iff,
    List.forall₂_same]
  intro other member
  rw [get_set]
  split
  · rename_i here
    subst here
    exact written (mem_slots.mp member)
  · exact kept _

/-- The shifted cells hold what their successors held, and the others are untouched. -/
private theorem getElem_shiftDown (cells : Vector α cap) (start left : Nat) (fits : start + left < cap)
    (index : Nat) (inside : index < cap) :
    (shiftDown cells start left)[index] =
      if shifted : start ≤ index ∧ index < start + left then cells[index + 1] else cells[index] := by
  -- Copying goes upwards, so a cell is read before it is overwritten.
  induction left generalizing cells start with
  | zero => simp [shiftDown]
  | succ left ih =>
    rw [shiftDown, dif_pos (by omega), ih _ _ (by omega)]
    by_cases first : index = start
    · subst index
      simp
    -- A later cell is shifted by the rest of the loop, and any other cell is out of its reach.
    · by_cases later : start + 1 ≤ index ∧ index < start + 1 + left
      · rw [dif_pos later, dif_pos (by omega), Vector.getElem_set_ne _ _ (by omega)]
      · rw [dif_neg later, dif_neg (by omega), Vector.getElem_set_ne _ _ (by omega)]

@[simp] theorem count_removeAt (a : SlotArray α cap) (slot : Fin cap) :
    (a.removeAt slot).count = a.count - 1 := rfl

/-- Deleting a live cell erases its entry and keeps the others in order. -/
theorem entries_removeAt (a : SlotArray α cap) (slot : Fin cap) (live : slot.val < a.count) :
    (a.removeAt slot).entries = a.entries.eraseIdx slot.val := by
  -- Below the deleted index nothing moves, and from there on every entry is the next one.
  apply List.ext_getElem
  · simp [List.length_eraseIdx, live]
  · intro index inside _
    simp only [length_entries, count_removeAt] at inside
    have := a.count_le
    simp only [entries, slots, get, removeAt, List.getElem_map, List.getElem_take,
      List.getElem_finRange, Fin.val_cast, List.getElem_eraseIdx]
    rw [getElem_shiftDown _ _ _ (by omega)]
    by_cases below : index < slot.val
    · rw [dif_neg (by omega), dif_pos below]
    · rw [dif_pos (by omega), dif_neg below]

/-- The deleted entry and the ones left are the entries there were. -/
theorem bag_removeAt (a : SlotArray α cap) (slot : Fin cap) (live : slot.val < a.count) :
    a.bag = a.get slot ::ₘ (a.removeAt slot).bag := by
  -- Without order, picking an entry out is the same as deleting it.
  rw [bag, bag, entries_removeAt a slot live]
  exact Bag.split (getElem?_entries a slot live)

/-- Overwriting a cell is deleting its entry and adding the new one. -/
theorem bag_set (a : SlotArray α cap) (slot : Fin cap) (live : slot.val < a.count) (entry : α) :
    (a.set slot entry).bag = entry ::ₘ (a.removeAt slot).bag := by
  -- The other entries are those that a deletion would leave.
  rw [bag, bag, entries_set, entries_removeAt a slot live]
  exact Bag.set (by simpa using live) entry

/-- At most one live entry passes a test exactly when no two live cells hold passing entries. -/
theorem countP_le_one (a : SlotArray α cap) (test : α → Bool) :
    a.entries.countP test ≤ 1 ↔ ∀ first second : Fin cap, first.val < a.count →
      second.val < a.count → test (a.get first) = true → test (a.get second) = true →
      first = second := by
  -- The walk repeats no cell, so its passing cells are a finite set of the same size.
  have distinct : (a.slots.filter fun slot => test (a.get slot)).Nodup := a.nodup_slots.filter _
  have counted : a.entries.countP test = (a.slots.filter fun slot => test (a.get slot)).toFinset.card := by
    rw [List.toFinset_card_of_nodup distinct, entries, List.countP_map, List.countP_eq_length_filter]
    rfl
  rw [counted, Finset.card_le_one]
  simp only [List.mem_toFinset, List.mem_filter, mem_slots]
  constructor
  · intro unique first second live live' passes passes'
    exact unique first ⟨live, passes⟩ second ⟨live', passes'⟩
  · intro unique first here second there
    exact unique first second here.1 there.1 here.2 there.2

/-- A found cell is live and passes the test. -/
theorem findFirst_some {test : α → Bool} {a : SlotArray α cap} {slot : Fin cap}
    (found : a.findFirst test = some slot) : slot.val < a.count ∧ test (a.get slot) = true := by
  exact ⟨mem_slots.mp (List.mem_of_find?_eq_some found),
    by simpa using List.find?_some found⟩

/-- Nothing is found exactly when no live cell passes the test. -/
theorem findFirst_none {test : α → Bool} {a : SlotArray α cap} :
    a.findFirst test = none ↔ ∀ slot : Fin cap, slot.val < a.count → test (a.get slot) = false := by
  simp [findFirst]

/-- Deleting the first cell that passes a test erases the first entry that passes it. -/
theorem entries_removeAt_first {test : α → Bool} {a : SlotArray α cap} {slot : Fin cap}
    (found : a.findFirst test = some slot) :
    (a.removeAt slot).entries = a.entries.eraseP test := by
  have live := (findFirst_some found).1
  -- The walk visits each cell at the position of its number.
  obtain ⟨passes, ahead, behind, walk, before⟩ := List.find?_eq_some_iff_append.mp found
  have place : ahead.length = slot.val := by
    have here : a.slots[ahead.length]? = some slot := by simp [walk]
    obtain ⟨inside, at_place⟩ := List.getElem?_eq_some_iff.mp here
    rw [← at_place]
    simp [slots]
  -- The entries ahead of it fail the test, so erasing passes over them.
  have skipped : ∀ entry ∈ ahead.map a.get, ¬ test entry = true := by
    intro entry member
    obtain ⟨other, inside, rfl⟩ := List.mem_map.mp member
    simpa using before other inside
  rw [entries_removeAt a slot live, entries, walk, List.map_append, List.map_cons,
    List.eraseP_append_right _ skipped, List.eraseP_cons_of_pos passes,
    List.eraseIdx_append_of_length_le (by simp [place])]
  simp [place]

/-- Sweeping a walk rewrites the cells on it, and raises the flag if one of them does. -/
private theorem sweep_over (rewrite : α → α × Bool) (walk : List (Fin cap)) (distinct : walk.Nodup)
    (a : SlotArray α cap) (flag : Bool) :
    let result := walk.foldl (sweepOne rewrite) (a, flag)
    result.1.count = a.count ∧
      (∀ slot, result.1.get slot = if slot ∈ walk then (rewrite (a.get slot)).1 else a.get slot) ∧
      result.2 = (flag || walk.any fun slot => (rewrite (a.get slot)).2) := by
  -- No cell is visited twice, so each is rewritten from its original content.
  induction walk generalizing a flag with
  | nil => simp
  | cons slot rest ih =>
    obtain ⟨fresh, distinct⟩ := List.nodup_cons.mp distinct
    obtain ⟨counted, rewritten, raised⟩ := ih distinct
      (a.set slot (rewrite (a.get slot)).1) (flag || (rewrite (a.get slot)).2)
    refine ⟨counted, fun other => ?_, ?_⟩
    · rw [List.foldl_cons, sweepOne, rewritten other, get_set]
      -- The cell just rewritten is not on the rest of the walk.
      by_cases same : slot = other
      · subst other
        simp [fresh]
      · simp [same, Ne.symm same]
    · rw [List.foldl_cons, sweepOne, raised, List.any_cons, Bool.or_assoc]
      -- The flags of the rest are decided by the original contents.
      have unchanged : ∀ other ∈ rest, (a.set slot (rewrite (a.get slot)).1).get other = a.get other := by
        intro other member
        rw [get_set, if_neg]
        rintro rfl
        exact fresh member
      congr 2
      rw [Bool.eq_iff_iff, List.any_eq_true, List.any_eq_true]
      exact exists_congr fun other => and_congr_right fun member => by rw [unchanged other member]

@[simp] theorem count_sweep (rewrite : α → α × Bool) (a : SlotArray α cap) :
    (a.sweep rewrite).1.count = a.count :=
  (sweep_over rewrite a.slots a.nodup_slots a false).1

@[simp] theorem slots_sweep (rewrite : α → α × Bool) (a : SlotArray α cap) :
    (a.sweep rewrite).1.slots = a.slots := by
  simp [slots]

/-- A sweep rewrites the live cells and no other. -/
theorem get_sweep (rewrite : α → α × Bool) (a : SlotArray α cap) (slot : Fin cap) :
    (a.sweep rewrite).1.get slot =
      if slot.val < a.count then (rewrite (a.get slot)).1 else a.get slot := by
  simpa only [sweep, mem_slots] using (sweep_over rewrite a.slots a.nodup_slots a false).2.1 slot

theorem entries_sweep (rewrite : α → α × Bool) (a : SlotArray α cap) :
    (a.sweep rewrite).1.entries = a.entries.map fun entry => (rewrite entry).1 := by
  -- Every cell of the walk is live, so it is rewritten.
  simp only [entries, slots_sweep, List.map_map]
  apply List.map_congr_left
  intro slot member
  simp [get_sweep, mem_slots.mp member]

/-- A sweep relates each live entry to what it is rewritten to. -/
theorem forall₂_entries_sweep (rewrite : α → α × Bool) (a : SlotArray α cap) :
    List.Forall₂ (fun before after => after = (rewrite before).1) a.entries
      (a.sweep rewrite).1.entries := by
  rw [entries_sweep, List.forall₂_map_right_iff, List.forall₂_same]
  exact fun _ _ => rfl

theorem bag_sweep (rewrite : α → α × Bool) (a : SlotArray α cap) :
    (a.sweep rewrite).1.bag = a.bag.map fun entry => (rewrite entry).1 := by
  rw [bag, bag, entries_sweep, Multiset.map_coe]

/-- The flag of a sweep is raised when rewriting some live cell raises it. -/
theorem sweep_flag (rewrite : α → α × Bool) (a : SlotArray α cap) :
    (a.sweep rewrite).2 = a.slots.any fun slot => (rewrite (a.get slot)).2 := by
  simpa only [sweep, Bool.false_or] using (sweep_over rewrite a.slots a.nodup_slots a false).2.2

/-- The cell at a position of the walk is the one with that number. -/
theorem map_val_slots (a : SlotArray α cap) : a.slots.map Fin.val = List.range a.count := by
  rw [slots, List.map_take, List.map_coe_finRange_eq_range, List.take_range, Nat.min_eq_left a.count_le]

/-- The cell that a search finds is the first position of the list that passes. -/
theorem findFirst_val (test : α → Bool) (a : SlotArray α cap) :
    (a.findFirst test).map Fin.val = a.entries.findIdx? test := by
  rw [entries, List.findIdx?_map]
  cases found : a.findFirst test with
  | none =>
    refine (List.findIdx?_eq_none_iff.mpr fun slot member => ?_).symm
    exact findFirst_none.mp found slot (mem_slots.mp member)
  | some slot =>
    -- The position where the walk finds the cell is the number of the cell.
    obtain ⟨passes, place, inside, rfl, before⟩ := List.find?_eq_some_iff_getElem.mp found
    have number : (a.slots[place]).val = place := by
      rw [← List.getElem_map Fin.val (h := by simpa using inside)]
      simp [map_val_slots]
    rw [Option.map_some, number]
    refine (List.findIdx?_eq_some_iff_getElem.mpr ⟨inside, passes, fun index less => ?_⟩).symm
    simpa using before index less

/-- Rewriting the content of a live cell is modifying the list at its position. -/
theorem entries_modify (a : SlotArray α cap) (slot : Fin cap) (live : slot.val < a.count)
    (change : α → α) :
    (a.set slot (change (a.get slot))).entries = a.entries.modify slot.val change := by
  have inside : slot.val < a.entries.length := by simpa using live
  have here := List.getElem?_eq_some_iff.mp (getElem?_entries a slot live)
  rw [entries_set, List.modify_eq_set_get _ inside]
  simp [here.2]

/-- The live cells whose contents pass a test, as positions of the list. -/
theorem map_val_filter_slots (test : α → Bool) (a : SlotArray α cap) :
    (a.slots.filter fun slot => test (a.get slot)).map Fin.val =
      (List.range a.entries.length).filter fun place => a.entries[place]?.any test := by
  rw [length_entries, ← map_val_slots, List.filter_map]
  congr 1
  refine List.filter_congr fun slot member => ?_
  rw [Function.comp_apply, getElem?_entries a slot (mem_slots.mp member), Option.any_some]

end SlotArray
