import Mathlib.Algebra.GroupWithZero.Nat
import Mathlib.Data.Vector.Basic
import Mathlib.Data.List.Range
import Mathlib.Tactic.Common

/-! A queue in a circular array refines a FIFO list of bounded length. -/

/--
A circular array with its front, its rear and its number of queued entries.

The rear is always as many places past the front as there are entries, so a full array and an
empty one, whose indices agree, are told apart by the count alone.
-/
structure RingQueue (α : Type*) (cap : Nat) where
  /-- Every cell of the array, the ones outside the queue holding whatever was left there. -/
  data : Vector α cap
  frontIdx : Nat
  rearIdx : Nat
  count : Nat
  count_le : count ≤ cap
  front_lt : frontIdx < cap
  rear_eq : rearIdx = (frontIdx + count) % cap

namespace RingQueue

variable {α : Type*} {cap : Nat}

/-- The queue a constructor leaves: both indices at the first cell, nothing queued. -/
def empty (cap : Nat) [NeZero cap] [Inhabited α] : RingQueue α cap where
  data := Vector.replicate cap default
  frontIdx := 0
  rearIdx := 0
  count := 0
  count_le := Nat.zero_le _
  front_lt := Nat.pos_of_neZero cap
  rear_eq := (Nat.zero_mod cap).symm

/-- The queue a constructor leaves that sets the counters and no cell. -/
def construct [NeZero cap] (data : Vector α cap) : RingQueue α cap where
  data := data
  frontIdx := 0
  rearIdx := 0
  count := 0
  count_le := Nat.zero_le _
  front_lt := Nat.pos_of_neZero cap
  rear_eq := (Nat.zero_mod cap).symm

theorem cap_pos (q : RingQueue α cap) : 0 < cap :=
  Nat.zero_lt_of_lt q.front_lt

/-- The cell a number of places past the front, wrapping at the end of the array. -/
def cell (q : RingQueue α cap) (offset : Nat) : α :=
  have inside : (q.frontIdx + offset) % cap < cap := Nat.mod_lt _ q.cap_pos
  q.data[(q.frontIdx + offset) % cap]

/-- The entries from front to rear. -/
def toList (q : RingQueue α cap) : List α :=
  (List.range q.count).map q.cell

/-- Append an entry and answer true, or answer false on a full array. -/
def push (q : RingQueue α cap) (entry : α) : Bool × RingQueue α cap :=
  if full : q.count ≥ cap then (false, q)
  else
    have inside : q.rearIdx < cap := q.rear_eq ▸ Nat.mod_lt _ q.cap_pos
    (true, { q with
      data := q.data.set q.rearIdx entry
      rearIdx := (q.rearIdx + 1) % cap
      count := q.count + 1
      count_le := by omega
      rear_eq := by rw [q.rear_eq, Nat.mod_add_mod, Nat.add_assoc] })

/-- Take the front entry, or nothing from an empty queue. -/
def pop (q : RingQueue α cap) : Option α × RingQueue α cap :=
  if vacant : q.count = 0 then (none, q)
  else
    (some (q.cell 0), { q with
      frontIdx := (q.frontIdx + 1) % cap
      count := q.count - 1
      count_le := by have := q.count_le; omega
      front_lt := Nat.mod_lt _ q.cap_pos
      rear_eq := by rw [q.rear_eq, Nat.mod_add_mod]; congr 1; omega })

/-- The number of queued entries. -/
def size (q : RingQueue α cap) : Nat := q.count

/-- The entry at an index counted from the front, or nothing outside the queue. -/
def get (q : RingQueue α cap) (index : Int) : Option α :=
  if index < 0 ∨ index ≥ q.count then none else some (q.cell index.toNat)

/-- The first entry passing a test, looking through the indices below the size in order. -/
def findFirst (test : α → Bool) (q : RingQueue α cap) : Option α :=
  (List.range q.size).findSome? fun index : Nat => (q.get index).filter test

/-- Pop until nothing is left, at most as often as the bound says. -/
def drainWithin : Nat → RingQueue α cap → RingQueue α cap
  | 0, q => q
  | bound + 1, q =>
    match q.pop with
    | (none, q') => q'
    | (some _, q') => drainWithin bound q'

/-- Pop until pop answers with nothing, which takes one pop more than there are entries. -/
def drain (q : RingQueue α cap) : RingQueue α cap :=
  drainWithin (q.count + 1) q

/-- Pop a number of entries, collecting the ones not dropped. -/
def popKeep (drop : α → Bool) : Nat → RingQueue α cap → List α → List α × RingQueue α cap
  | 0, q, temp => (temp, q)
  | left + 1, q, temp =>
    match q.pop with
    | (none, q') => popKeep drop left q' temp
    | (some entry, q') => popKeep drop left q' (if drop entry then temp else temp ++ [entry])

/-- Push entries in order, and whether every push was taken. -/
def pushAll (q : RingQueue α cap) (entries : List α) : Bool × RingQueue α cap :=
  entries.foldl (fun (taken, q) entry => (taken && (q.push entry).1, (q.push entry).2)) (true, q)

/-- Take every entry out and push back the ones not dropped, and whether every push was taken. -/
def removeWhere (drop : α → Bool) (q : RingQueue α cap) : Bool × RingQueue α cap :=
  let (temp, q') := popKeep drop q.count q []
  q'.pushAll temp

@[simp] theorem toList_empty [NeZero cap] [Inhabited α] :
    (empty cap : RingQueue α cap).toList = [] := rfl

@[simp] theorem toList_construct [NeZero cap] (data : Vector α cap) :
    (construct data).toList = [] := rfl

@[simp] theorem length_toList (q : RingQueue α cap) : q.toList.length = q.count := by
  simp [toList]

theorem size_eq (q : RingQueue α cap) : q.size = q.toList.length := by
  simp [size]

theorem length_toList_le (q : RingQueue α cap) : q.toList.length ≤ cap := by
  simpa using q.count_le

/-- Distinct offsets within one turn of the array are distinct cells. -/
private theorem offset_ne {front near far : Nat} (before : near < far) (turn : far < cap) :
    (front + near) % cap ≠ (front + far) % cap := by
  intro same
  -- Equal residues differ by a multiple of the capacity, which is more than one turn.
  have divides : cap ∣ far - near := by
    have := Nat.dvd_of_mod_eq_zero (Nat.sub_mod_eq_zero_of_mod_eq same.symm)
    rwa [show front + far - (front + near) = far - near by omega] at this
  have := Nat.le_of_dvd (by omega) divides
  omega

/-- A push is taken exactly when the queue is not full. -/
theorem push_fst (q : RingQueue α cap) (entry : α) :
    (q.push entry).1 = decide (q.toList.length < cap) := by
  -- The guard of the push compares the count, which is the length of the list.
  unfold push
  split
  · simpa using by omega
  · simpa using by omega

/-- A push onto a queue with room appends its entry. -/
theorem toList_push {q : RingQueue α cap} (room : q.toList.length < cap) (entry : α) :
    (q.push entry).2.toList = q.toList ++ [entry] := by
  simp only [length_toList] at room
  -- The new list walks the old offsets and then the one of the rear.
  simp only [push, ge_iff_le, Nat.not_le.mpr room, ↓reduceDIte, toList, List.range_succ,
    List.map_append, List.map_cons, List.map_nil]
  congr 1
  · -- Earlier cells lie at other offsets, so writing at the rear leaves them alone.
    apply List.map_congr_left
    intro offset member
    have before := List.mem_range.mp member
    have apart : (q.frontIdx + offset) % cap ≠ (q.frontIdx + q.count) % cap := offset_ne before room
    simp only [cell]
    exact Vector.getElem_set_ne _ _ (by rw [q.rear_eq]; exact apart.symm)
  · -- The rear is the cell a full count past the front.
    simp [cell, q.rear_eq]

/-- A pop from an empty queue answers with nothing and changes nothing. -/
theorem pop_nil {q : RingQueue α cap} (vacant : q.toList = []) : q.pop = (none, q) := by
  -- An empty list means a count of zero.
  have none_left : q.count = 0 := by simpa using congrArg List.length vacant
  simp [pop, none_left]

/-- A pop brings every cell one place nearer to the front. -/
private theorem cell_pop {q : RingQueue α cap} (some_left : q.count ≠ 0) (offset : Nat) :
    q.pop.2.cell offset = q.cell (offset + 1) := by
  -- The front moves one place on, so an offset from it reaches one place further.
  simp only [pop, some_left, ↓reduceDIte, cell, Nat.mod_add_mod]
  congr 2
  omega

/-- A pop takes the head of the list and leaves its tail. -/
theorem pop_cons {q : RingQueue α cap} {entry : α} {rest : List α} (front : q.toList = entry :: rest) :
    q.pop.1 = some entry ∧ q.pop.2.toList = rest := by
  have some_left : q.count ≠ 0 := by
    intro vacant
    simp [toList, vacant] at front
  obtain ⟨left, counted⟩ := Nat.exists_eq_succ_of_ne_zero some_left
  have counted' : q.pop.2.count = left := by simp [pop, counted]
  -- Listing one more cell from the front is listing its first cell and then the shifted ones.
  simp only [toList, counted, List.range_succ_eq_map, List.map_cons, List.map_map,
    List.cons.injEq] at front
  refine ⟨by simp [pop, some_left, front.1], ?_⟩
  rw [← front.2, toList, counted']
  exact List.map_congr_left fun offset _ => cell_pop some_left offset

@[simp] theorem toList_pop (q : RingQueue α cap) : q.pop.2.toList = q.toList.tail := by
  -- An empty list is its own tail.
  cases listed : q.toList with
  | nil => simp [pop_nil listed, listed]
  | cons entry rest => simp [(pop_cons listed).2]

@[simp] theorem pop_fst (q : RingQueue α cap) : q.pop.1 = q.toList.head? := by
  cases listed : q.toList with
  | nil => simp [pop_nil listed]
  | cons entry rest => simp [(pop_cons listed).1]

/-- Reading at an index reads the list there, and nothing outside it. -/
theorem get_natCast (q : RingQueue α cap) (index : Nat) : q.get index = q.toList[index]? := by
  -- The bound that get checks is the length of the list.
  by_cases inside : index < q.count
  · simp [get, toList, inside]
  · simp [get, toList, Nat.not_lt.mp inside]

/-- Nothing is read at a negative index. -/
theorem get_negative (q : RingQueue α cap) {index : Int} (negative : index < 0) : q.get index = none := by
  rw [get, if_pos (Or.inl negative)]

private theorem findSome_range (list : List α) (test : α → Bool) :
    ((List.range list.length).findSome? fun index => list[index]?.filter test) = list.find? test := by
  -- Past the head, an index into the list is one more than an index into its tail.
  induction list with
  | nil => rfl
  | cons head rest ih =>
    -- The head decides, or the search goes on over the shifted indices.
    rw [List.length_cons, List.range_succ_eq_map, List.findSome?_cons, List.findSome?_map]
    cases passes : test head with
    | true => simp [Option.filter, passes]
    | false => simpa [Option.filter, passes, Function.comp_def] using ih

/-- Scanning by index finds the first entry of the list that passes. -/
theorem findFirst_eq (test : α → Bool) (q : RingQueue α cap) :
    q.findFirst test = q.toList.find? test := by
  simp only [findFirst, get_natCast, size_eq]
  exact findSome_range q.toList test

private theorem toList_drainWithin (bound : Nat) (q : RingQueue α cap) (enough : q.toList.length < bound) :
    (drainWithin bound q).toList = [] := by
  -- Each pop shortens the list by one, and the last one finds it empty.
  induction bound generalizing q with
  | zero => omega
  | succ bound ih =>
    cases listed : q.toList with
    | nil => simp [drainWithin, pop_nil listed, listed]
    | cons entry rest =>
      -- The pop takes one entry and one unit of the bound.
      obtain ⟨taken, left⟩ := pop_cons listed
      have popped : q.pop = (some entry, q.pop.2) := by rw [← taken]
      rw [drainWithin, popped]
      refine ih _ ?_
      simp only [left]
      simp only [listed, List.length_cons] at enough
      omega

/-- Draining leaves nothing queued. -/
@[simp] theorem toList_drain (q : RingQueue α cap) : q.drain.toList = [] :=
  toList_drainWithin _ q (by simp)

/-- The loop ends by itself as soon as its bound is larger than the number of entries. -/
theorem drainWithin_enough {q : RingQueue α cap} {bound : Nat} (enough : q.toList.length < bound) :
    drainWithin bound q = q.drain := by
  rw [drain]
  have enough' : q.toList.length < q.count + 1 := by simp
  -- Each pop takes one entry, and one unit of either bound.
  generalize q.count + 1 = bound' at enough'
  induction bound generalizing q bound' with
  | zero => exact absurd enough (Nat.not_lt_zero _)
  | succ bound ih =>
    obtain ⟨bound', rfl⟩ := Nat.exists_eq_add_one_of_ne_zero (Nat.pos_iff_ne_zero.mp (Nat.zero_lt_of_lt enough'))
    cases listed : q.toList with
    | nil => simp only [drainWithin, pop_nil listed]
    | cons entry rest =>
      obtain ⟨taken, left⟩ := pop_cons listed
      have popped : q.pop = (some entry, q.pop.2) := by rw [← taken]
      rw [listed, List.length_cons] at enough enough'
      rw [drainWithin, drainWithin, popped]
      exact ih (by rw [left]; omega) bound' (by rw [left]; omega)

/-- The entries of a queue are what its pops answer with, one after the other. -/
theorem toList_pops (q : RingQueue α cap) (pops : Nat) :
    ((fun q : RingQueue α cap => q.pop.2)^[pops] q).toList = q.toList.drop pops := by
  induction pops generalizing q with
  | zero => rfl
  | succ pops ih => rw [Function.iterate_succ_apply, ih, toList_pop, List.drop_tail]

/-- Pushing a list onto a queue with room for all of it is always taken. -/
theorem pushAll_room {q : RingQueue α cap} {entries : List α}
    (room : q.toList.length + entries.length ≤ cap) :
    (q.pushAll entries).1 = true ∧ (q.pushAll entries).2.toList = q.toList ++ entries := by
  -- Each push takes up one place of the room and leaves enough for the rest.
  induction entries generalizing q with
  | nil => simp [pushAll]
  | cons entry rest ih =>
    simp only [List.length_cons] at room
    have here : q.toList.length < cap := by omega
    have pushed := toList_push here entry
    -- One entry has moved from the list to the queue, so the sum is the same.
    have later := @ih (q.push entry).2 (by
      rw [pushed, List.length_append, List.length_singleton]
      omega)
    have taken : (q.push entry).1 = true := by simpa [push_fst] using here
    simp only [pushAll, List.foldl_cons, taken, Bool.and_true]
    simpa [pushed, pushAll] using later

/-- The loop collects at most one entry in each of its turns. -/
theorem length_popKeep_le (drop : α → Bool) (left : Nat) (q : RingQueue α cap) (temp : List α) :
    (popKeep drop left q temp).1.length ≤ temp.length + left := by
  induction left generalizing q temp with
  | zero => exact Nat.le_refl _
  | succ left ih =>
    rw [popKeep]
    split
    · rename_i q' _
      have later := ih q' temp
      omega
    · rename_i entry q' _
      have later := ih q' (if drop entry then temp else temp ++ [entry])
      -- The entry is dropped, or it is one more of those that are collected.
      have collected : (if drop entry then temp else temp ++ [entry]).length ≤ temp.length + 1 := by
        split
        · exact Nat.le_succ _
        · rw [List.length_append, List.length_singleton]
      omega

private theorem popKeep_eq (drop : α → Bool) (left : Nat) (q : RingQueue α cap) (temp : List α)
    (all : q.toList.length = left) :
    (popKeep drop left q temp).1 = temp ++ q.toList.filter (fun entry => !drop entry) ∧
      (popKeep drop left q temp).2.toList = [] := by
  -- The loop pops exactly as many entries as the queue held when it began.
  induction left generalizing q temp with
  | zero => simp [popKeep, List.eq_nil_of_length_eq_zero all]
  | succ left ih =>
    cases listed : q.toList with
    | nil => simp [listed] at all
    | cons entry rest =>
      obtain ⟨taken, tail⟩ := pop_cons listed
      have popped : q.pop = (some entry, q.pop.2) := by rw [← taken]
      have shorter : q.pop.2.toList.length = left := by
        simpa [tail, listed] using all
      rw [popKeep, popped]
      -- The popped entry is collected or dropped, as the filter keeps or drops it.
      have later := ih q.pop.2 (if drop entry then temp else temp ++ [entry]) shorter
      simp only [tail] at later
      refine ⟨later.1.trans ?_, later.2⟩
      cases dropped : drop entry <;> simp [dropped]

/-- Removing keeps the other entries in order, and refuses none of the pushes it makes. -/
theorem removeWhere_spec (drop : α → Bool) (q : RingQueue α cap) :
    (q.removeWhere drop).1 = true ∧
      (q.removeWhere drop).2.toList = q.toList.filter (fun entry => !drop entry) := by
  -- The pops empty the queue, so the entries kept fit back into it.
  obtain ⟨kept, vacant⟩ := popKeep_eq drop q.count q [] (length_toList q)
  have room : (popKeep drop q.count q []).2.toList.length +
      (popKeep drop q.count q []).1.length ≤ cap := by
    rw [kept, vacant]
    have := List.length_filter_le (fun entry => !drop entry) q.toList
    have := q.length_toList_le
    simpa using by omega
  have pushed := pushAll_room room
  refine ⟨pushed.1, pushed.2.trans ?_⟩
  simp [kept, vacant]

end RingQueue
