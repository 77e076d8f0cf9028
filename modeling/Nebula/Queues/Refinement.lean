import Nebula.Kernel.State
import Nebula.Library.Machine

/-! A run queue is a first-in first-out list of at most MAX_PROCESSES entries. -/

namespace Nebula

/-- A call of a method of KernelQueue, or the loop that pops until nothing is left. -/
inductive QueueCall where
  | push (slot : Slot)
  | pop
  | size
  | get (index : Int)
  /-- remove, with the pids that the slots of the table have at the time. -/
  | remove (pids : Slot → Int) (pid : Int)
  | drain

/-- What a call answers with. -/
inductive QueueAnswer where
  | taken (answer : Bool)
  | entry (answer : Option Slot)
  | size (answer : Nat)
  deriving DecidableEq

namespace SlotList

/-- What a call makes of the list that a queue is meant to be. -/
def step (list : List Slot) : QueueCall → List Slot
  | .push slot => if list.length < maxProcesses then list ++ [slot] else list
  | .pop => list.tail
  | .size => list
  | .get _ => list
  | .remove pids pid => list.filter fun slot => pids slot ≠ pid
  | .drain => []

/-- What a call answers about the list. -/
def answer (list : List Slot) : QueueCall → Option QueueAnswer
  | .push _ => some (.taken (list.length < maxProcesses))
  | .pop => some (.entry list.head?)
  | .size => some (.size list.length)
  | .get index => some (.entry (if index < 0 then none else list[index.toNat]?))
  | .remove _ _ => none
  | .drain => none

end SlotList

namespace KernelQueue

/-- What a call makes of the queue. -/
def step (q : KernelQueue) : QueueCall → KernelQueue
  | .push slot => (q.push slot).2
  | .pop => q.pop.2
  | .size => q
  | .get _ => q
  | .remove pids pid => (q.removeWhere fun slot => pids slot == pid).2
  | .drain => q.drain

/-- What a call answers with, if it is one that does. -/
def answer (q : KernelQueue) : QueueCall → Option QueueAnswer
  | .push slot => some (.taken (q.push slot).1)
  | .pop => some (.entry q.pop.1)
  | .size => some (.size q.size)
  | .get index => some (.entry (q.get index))
  | .remove _ _ => none
  | .drain => none

/-- The loops of remove: each pop finds an entry, the temp array has room, and no push is refused. -/
structure RemovesSafely (q : KernelQueue) (drop : Slot → Bool) : Prop where
  pops : ∀ turns < q.count, ((fun q : KernelQueue => q.pop.2)^[turns] q).pop.1 ≠ none
  temp : ∀ turns ≤ q.count, (RingQueue.popKeep drop turns q []).1.length ≤ maxProcesses
  pushes : (q.removeWhere drop).1 = true

/-- A queue with sound counters, whose entries from the front on are the list. -/
structure Represents (q : KernelQueue) (list : List Slot) : Prop where
  entries : q.toList = list
  count_le : q.count ≤ maxProcesses
  front_lt : q.frontIdx < maxProcesses
  rear_lt : q.rearIdx < maxProcesses
  rear_eq : q.rearIdx = (q.frontIdx + q.count) % maxProcesses
  /-- A push that is refused changes nothing. -/
  refused : ∀ slot, (q.push slot).1 = false → (q.push slot).2 = q
  removes : ∀ pids : Slot → Int, ∀ pid, RemovesSafely q fun slot => pids slot == pid
  /-- The draining loop ends by itself, after one pop more than there are entries. -/
  drains : ∀ bound, q.count < bound → q.drainWithin bound = q.drain

/-- Each call does to the list what it does to the queue. -/
theorem toList_step (q : KernelQueue) (call : QueueCall) :
    (step q call).toList = SlotList.step q.toList call := by
  cases call with
  | push slot =>
    rw [step, SlotList.step]
    split
    · -- There is room in the array as long as the list is short.
      rename_i room
      exact RingQueue.toList_push room slot
    · -- A full queue refuses the push.
      rename_i full
      have counted : q.count ≥ maxProcesses := by
        rw [RingQueue.length_toList] at full
        exact Nat.not_lt.mp full
      rw [RingQueue.push, dif_pos counted]
  | pop => exact q.toList_pop
  | size => rfl
  | get index => rfl
  | remove pids pid =>
    rw [step, (q.removeWhere_spec _).2, SlotList.step]
    refine List.filter_congr fun slot _ => ?_
    rw [decide_not, beq_eq_decide]
  | drain => exact q.toList_drain

/-- Each call answers about the queue as about the list. -/
theorem answer_toList (q : KernelQueue) (call : QueueCall) :
    answer q call = SlotList.answer q.toList call := by
  cases call with
  | push slot => rw [answer, SlotList.answer, RingQueue.push_fst]
  | pop => rw [answer, SlotList.answer, RingQueue.pop_fst]
  | size => rw [answer, SlotList.answer, RingQueue.size_eq]
  | get index =>
    rw [answer, SlotList.answer]
    split
    · rename_i negative
      rw [q.get_negative negative]
    · -- An index from 0 on is that of the list, behind the end of which there is nothing.
      rename_i inside
      obtain ⟨position, rfl⟩ := Int.eq_ofNat_of_zero_le (Int.not_lt.mp inside)
      rw [RingQueue.get_natCast]
      rfl
  | remove pids pid => rfl
  | drain => rfl

theorem removesSafely (q : KernelQueue) (drop : Slot → Bool) : RemovesSafely q drop := by
  refine ⟨fun turns before => ?_, fun turns within => ?_, (q.removeWhere_spec drop).1⟩
  · -- So many pops have left some of the entries.
    have some : q.toList.drop turns ≠ [] := by
      rw [ne_eq, List.drop_eq_nil_iff, RingQueue.length_toList]
      exact Nat.not_le.mpr before
    rw [RingQueue.pop_fst, RingQueue.toList_pops, ne_eq, List.head?_eq_none_iff]
    exact some
  · -- Each turn collects at most one entry.
    have collected := RingQueue.length_popKeep_le drop turns q []
    rw [List.length_nil, Nat.zero_add] at collected
    exact collected.trans (within.trans q.count_le)

theorem represents_toList (q : KernelQueue) : Represents q q.toList := by
  -- Each part is a fact about the ring buffer; a refused push has changed nothing.
  refine ⟨rfl, q.count_le, q.front_lt, ?_, q.rear_eq, fun slot refused => ?_,
    fun pids pid => removesSafely q _, fun bound enough => ?_⟩
  · rw [q.rear_eq]
    exact Nat.mod_lt _ q.cap_pos
  · unfold RingQueue.push at refused ⊢
    split
    · rfl
    · rename_i room
      rw [dif_neg room] at refused
      cases refused
  · exact RingQueue.drainWithin_enough (by rw [RingQueue.length_toList]; exact enough)

/--
Whatever calls are made from the constructor on, whose array may hold anything, the queue represents
the list and answers as the list does.
-/
theorem refines_run (data : Vector Slot maxProcesses) (calls : List QueueCall) :
    Represents (Machine.run step (.construct data) calls) (Machine.run SlotList.step [] calls) ∧
      Machine.outputs step answer (.construct data) calls =
        Machine.outputs SlotList.step SlotList.answer [] calls := by
  -- The list of the constructed queue is empty, and goes along with it from there.
  have start : (RingQueue.construct data).toList = [] := RingQueue.toList_construct data
  have runs := Machine.run_abstract toList_step (.construct data) calls
  have outputs := Machine.outputs_abstract toList_step answer_toList (.construct data) calls
  rw [start] at runs outputs
  refine ⟨?_, outputs⟩
  rw [← runs]
  exact represents_toList _

end KernelQueue

end Nebula
