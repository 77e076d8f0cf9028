import Nebula.Queues.Filing
import Nebula.Resources.Balance

/-! Processes are removed in any order and as often as one likes, with the same result. -/

namespace Nebula

namespace Kernel

/-- The pids of the live processes in table order. -/
def pids (k : Kernel) : List Int := k.pcbs.entries.map Process.pid

/-- remove_pcb of one pid after the other. -/
def removeAll (k : Kernel) (pids : List Int) : Kernel := pids.foldl removePcb k

/-- Two kernels with the same live processes, the same queues and the same amounts free. -/
structure Alike (k k' : Kernel) : Prop where
  count : k.pcbCount = k'.pcbCount
  table : k.pcbs.entries = k'.pcbs.entries
  queues : ∀ level, (k.queue level).toList = (k'.queue level).toList
  freeRam : k.resources.freeRam = k'.resources.freeRam
  freeHdd : k.resources.freeHdd = k'.resources.freeHdd

/-- What is left when the processes of some pids are removed. -/
structure Removed (k k' : Kernel) (pids : List Int) : Prop where
  table : k'.pcbs.entries = k.pcbs.entries.filter fun p => p.pid ∉ pids
  /-- The queues are filed anew if there was anything to remove, and otherwise nothing is done. -/
  filed : (∃ p ∈ k.pcbs.entries, p.pid ∈ pids) → ∀ level, (k'.queue level).toList = k'.slotsAt level
  idle : (¬ ∃ p ∈ k.pcbs.entries, p.pid ∈ pids) → k' = k
  /-- What is free and what the live processes have come to the same as before. -/
  ram : k'.resources.freeRam + (k'.pcbs.entries.map Process.ramAlloc).sum =
    k.resources.freeRam + (k.pcbs.entries.map Process.ramAlloc).sum
  hdd : k'.resources.freeHdd + (k'.pcbs.entries.map Process.hddAlloc).sum =
    k.resources.freeHdd + (k.pcbs.entries.map Process.hddAlloc).sum

/-- The slots of a level depend on the live processes only. -/
theorem slotsAt_entries {k k' : Kernel} (same : k'.pcbs.entries = k.pcbs.entries) (level : QueueLevel) :
    k'.slotsAt level = k.slotsAt level := by
  have count : k'.pcbs.count = k.pcbs.count := by
    rw [← k'.pcbs.length_entries, same, k.pcbs.length_entries]
  have slots : k'.pcbs.slots = k.pcbs.slots := by rw [SlotArray.slots, count, SlotArray.slots]
  refine slotsAt_congr slots (fun slot member => ?_) level
  -- A live slot holds the entry of its number.
  have live := SlotArray.mem_slots.mp member
  have here := k.pcbs.getElem?_entries slot live
  rw [← same, k'.pcbs.getElem?_entries slot (count ▸ live), Option.some.injEq] at here
  exact congrArg Process.queueLevel here

/-- With one process to a pid, the first that has it is the only one. -/
theorem eraseP_pid {entries : List Process} (distinct : (entries.map Process.pid).Nodup) (pid : Int) :
    entries.eraseP (fun p => p.pid == pid) = entries.filter fun p => p.pid ∉ [pid] := by
  induction entries with
  | nil => rfl
  | cons p rest ih =>
    rw [List.map_cons, List.nodup_cons] at distinct
    obtain ⟨fresh, distinct⟩ := distinct
    by_cases here : p.pid = pid
    · -- The rest has other pids and is left whole.
      have others : rest.filter (fun p => p.pid ∉ [pid]) = rest := by
        refine List.filter_eq_self.mpr fun other member => ?_
        rw [decide_eq_true_eq, List.mem_singleton, ← here]
        exact fun same => fresh (List.mem_map.mpr ⟨other, member, same⟩)
      rw [List.eraseP_cons_of_pos (by simpa using here), List.filter_cons_of_neg (by simpa using here), others]
    · rw [List.eraseP_cons_of_neg (by simpa using here), List.filter_cons_of_pos (by simpa using here),
        ih distinct]

/-- One removal moves the amounts of the process it finds from the table to the free ones. -/
theorem removePcb_amounts (k : Kernel) (pid : Int) :
    (k.removePcb pid).resources.freeRam + ((k.removePcb pid).pcbs.entries.map Process.ramAlloc).sum =
        k.resources.freeRam + (k.pcbs.entries.map Process.ramAlloc).sum ∧
      (k.removePcb pid).resources.freeHdd + ((k.removePcb pid).pcbs.entries.map Process.hddAlloc).sum =
        k.resources.freeHdd + (k.pcbs.entries.map Process.hddAlloc).sum := by
  -- What the table has recorded before is what it has after, and what was freed.
  have recorded := k.deletePcb_recorded pid
  have resources := k.deletePcb_resources pid
  have sums := fun field : Amounts → Int => congrArg (fun bag => (bag.map field).sum) recorded
  simp only [Multiset.map_add, Multiset.sum_add, sum_recorded] at sums
  have ram := sums Prod.fst
  have hdd := sums Prod.snd
  cases deleted : k.deletePcb pid with
  | mk freed left =>
    rw [deleted] at ram hdd resources
    cases freed with
    | none =>
      rw [removePcb_none deleted, resources]
      simpa [Process.amounts] using And.intro ram.symm hdd.symm
    | some amounts =>
      rw [removePcb_some deleted]
      simp only [Option.toList_some, Multiset.coe_singleton, Multiset.map_singleton,
        Multiset.sum_singleton] at ram hdd resources
      simp only [reclaimResources, resources, Int.add_assoc]
      exact ⟨congrArg (k.resources.freeRam + ·) ram.symm, congrArg (k.resources.freeHdd + ·) hdd.symm⟩

/-- remove_pcb removes the process of its pid, if there is one. -/
theorem removed_removePcb {k : Kernel} (distinct : k.pids.Nodup) (pid : Int) :
    Removed k (k.removePcb pid) [pid] := by
  have table : (k.removePcb pid).pcbs.entries = k.pcbs.entries.filter fun p => p.pid ∉ [pid] := by
    rw [← eraseP_pid distinct, ← deletePcb_entries, removePcb_eq]
  refine ⟨table, fun present level => ?_, fun absent => ?_, (k.removePcb_amounts pid).1,
    (k.removePcb_amounts pid).2⟩
  · -- The process is found, and the queues are drained and filled.
    obtain ⟨p, live, same⟩ := present
    obtain ⟨slot, inside, rfl⟩ := SlotArray.mem_entries.mp live
    cases found : k.findPcb fun p => p.pid == pid with
    | none =>
      have missing := findPcb_none.mp found slot inside
      rw [beq_eq_false_iff_ne] at missing
      exact absurd (List.mem_singleton.mp same) missing
    | some chosen =>
      rw [removePcb_eq, deletePcb_some found]
      exact rebuildQueues_slotsAt _ level
  · -- The call returns before it touches anything.
    have nobody : k.findPcb (fun p => p.pid == pid) = none := by
      refine findPcb_none.mpr fun slot inside => ?_
      rw [beq_eq_false_iff_ne]
      exact fun same => absent ⟨_, SlotArray.mem_entries.mpr ⟨slot, inside, rfl⟩, List.mem_singleton.mpr same⟩
    exact removePcb_none (deletePcb_none nobody)

/-- Removing some pids and then others is removing all of them. -/
theorem Removed.trans {k k' k'' : Kernel} {pids pids' : List Int} (first : Removed k k' pids)
    (second : Removed k' k'' pids') : Removed k k'' (pids ++ pids') := by
  have left : ∀ p, p ∈ k'.pcbs.entries ↔ p ∈ k.pcbs.entries ∧ p.pid ∉ pids := by
    intro p
    rw [first.table, List.mem_filter, decide_eq_true_eq]
  refine ⟨?_, fun present level => ?_, fun absent => ?_, second.ram.trans first.ram,
    second.hdd.trans first.hdd⟩
  · rw [second.table, first.table, List.filter_filter]
    refine List.filter_congr fun p _ => ?_
    simp [not_or, Bool.and_comm]
  · by_cases more : ∃ p ∈ k'.pcbs.entries, p.pid ∈ pids'
    · exact second.filed more level
    · -- The second removals find nothing, so the first ones have.
      rw [second.idle more]
      refine first.filed ?_ level
      obtain ⟨p, live, named⟩ := present
      rcases List.mem_append.mp named with here | there
      · exact ⟨p, live, here⟩
      · by_contra none
        exact more ⟨p, (left p).mpr ⟨live, fun here => none ⟨p, live, here⟩⟩, there⟩
  · -- Neither the first nor the second removals find anything.
    have none : ¬ ∃ p ∈ k.pcbs.entries, p.pid ∈ pids := by
      rintro ⟨p, live, here⟩
      exact absent ⟨p, live, List.mem_append_left _ here⟩
    have none' : ¬ ∃ p ∈ k'.pcbs.entries, p.pid ∈ pids' := by
      rintro ⟨p, live, there⟩
      exact absent ⟨p, ((left p).mp live).1, List.mem_append_right _ there⟩
    rw [second.idle none', first.idle none]

/-- One removal after the other removes the processes of all the pids. -/
theorem removed_removeAll {k : Kernel} (distinct : k.pids.Nodup) (pids : List Int) :
    Removed k (k.removeAll pids) pids := by
  induction pids generalizing k with
  | nil => exact ⟨by simp [removeAll], fun ⟨p, _, here⟩ => absurd here List.not_mem_nil, fun _ => rfl, rfl, rfl⟩
  | cons pid pids ih =>
    have first := removed_removePcb distinct pid
    -- The processes that are left still have different pids.
    have distinct' : (k.removePcb pid).pids.Nodup := by
      rw [Kernel.pids, first.table]
      exact distinct.sublist (List.filter_sublist.map _)
    exact first.trans (ih distinct')

/-- What is left does not depend on how the pids are listed. -/
theorem Removed.alike {k left right : Kernel} {pids pids' : List Int} (same : ∀ pid, pid ∈ pids ↔ pid ∈ pids')
    (first : Removed k left pids) (second : Removed k right pids') : Alike left right := by
  have table : left.pcbs.entries = right.pcbs.entries := by
    rw [first.table, second.table]
    exact List.filter_congr fun p _ => decide_eq_decide.mpr (not_congr (same p.pid))
  have present : (∃ p ∈ k.pcbs.entries, p.pid ∈ pids) ↔ ∃ p ∈ k.pcbs.entries, p.pid ∈ pids' := by
    simp only [same]
  -- The same processes are left, so the same amounts are free.
  have ram := first.ram.trans second.ram.symm
  have hdd := first.hdd.trans second.hdd.symm
  rw [table] at ram hdd
  refine ⟨?_, table, fun level => ?_, by omega, by omega⟩
  · rw [pcbCount, pcbCount, ← SlotArray.length_entries, table, SlotArray.length_entries]
  · -- Both have filed the same table, or neither has touched the queues.
    by_cases some : ∃ p ∈ k.pcbs.entries, p.pid ∈ pids
    · rw [first.filed some level, second.filed (present.mp some) level, slotsAt_entries table]
    · rw [first.idle some, second.idle (present.not.mp some)]

/--
Lists that name the same pids, in whatever order and however often, leave the same when their
processes are removed one by one, and to repeat one of the calls changes nothing.
-/
theorem removals_alike (k : Kernel) (distinct : k.pids.Nodup) (pids pids' : List Int)
    (same : ∀ pid, pid ∈ pids ↔ pid ∈ pids') :
    Alike (k.removeAll pids) (k.removeAll pids') ∧
      ∀ pid ∈ pids, (k.removeAll pids).removePcb pid = k.removeAll pids := by
  have removed := removed_removeAll distinct pids
  refine ⟨removed.alike same (removed_removeAll distinct pids'), fun pid member => ?_⟩
  -- The pid is not in the table any more.
  have distinct' : (k.removeAll pids).pids.Nodup := by
    rw [Kernel.pids, removed.table]
    exact distinct.sublist (List.filter_sublist.map _)
  refine (removed_removePcb distinct' pid).idle ?_
  rintro ⟨p, live, here⟩
  rw [removed.table, List.mem_filter, decide_eq_true_eq] at live
  rw [List.mem_singleton.mp here] at live
  exact live.2 member

/-- Two processes and a pid that nobody has, removed in one order and in another. -/
theorem removals_alike_two_processes :
    let k := Machine.run Kernel.step (boot 1024 1024 4)
      [.createPcb 101 (CText.ascii "Notepad") 3 20 2, .createPcb 102 (CText.ascii "Alarm") 6 10 5]
    Alike (k.removeAll [101, 7, 102]) (k.removeAll [102, 101, 7, 101]) ∧
      ∀ pid ∈ [101, 7, 102], (k.removeAll [101, 7, 102]).removePcb pid = k.removeAll [101, 7, 102] :=
  removals_alike _ (by decide +kernel) _ _ (by simp; omega)

end Kernel

end Nebula
