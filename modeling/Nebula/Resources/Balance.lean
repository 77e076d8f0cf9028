import Mathlib.Algebra.BigOperators.Group.Multiset.Basic
import Mathlib.Algebra.Ring.Int.Defs
import Nebula.Kernel.IpcManager

/-! The balance of memory and disk: what is free, recorded in the table and in flight. -/

namespace Nebula

/-- Megabytes of memory and of disk. -/
abbrev Amounts := Int × Int

def Process.amounts (p : Process) : Amounts := (p.ramAlloc, p.hddAlloc)

def ResourceRequest.amounts (request : ResourceRequest) : Amounts := (request.ram, request.hdd)

/-- The amounts the live processes have recorded. -/
def Kernel.recorded (k : Kernel) : Multiset Amounts := k.pcbs.bag.map Process.amounts

namespace Kernel

theorem createRequested_recorded {k : Kernel} (room : k.pcbs.count < maxProcesses) (childPid : Int)
    (request : ResourceRequest) :
    (k.createRequested childPid request).recorded = request.amounts ::ₘ k.recorded := by
  -- The new block is one more in the table, with the amounts of the request.
  unfold recorded createRequested
  rw [createPcb_pcbs room, SlotArray.bag_append, Multiset.map_cons]
  rfl

/-- What a deletion answers is what its block had recorded. -/
theorem deletePcb_recorded (k : Kernel) (pid : Int) :
    k.recorded = ((k.deletePcb pid).1.toList : Multiset Amounts) + (k.deletePcb pid).2.recorded := by
  cases found : k.findPcb fun p => p.pid == pid with
  | none => simp [deletePcb_none found]
  | some slot =>
    rw [deletePcb_some found]
    simp only [recorded, rebuildQueues_pcbs, Option.toList_some, Multiset.coe_singleton,
      Multiset.singleton_add]
    -- The deleted block and those left make up the table there was.
    rw [SlotArray.bag_removeAt _ _ (findPcb_some found).1, Multiset.map_cons]
    rfl

/-- The free amounts, the recorded ones and those in flight between two lock sections are the total. -/
structure Balanced (k : Kernel) (inFlight : Multiset Amounts) : Prop where
  ram : k.resources.freeRam + ((k.recorded + inFlight).map Prod.fst).sum = k.resources.totalRam
  hdd : k.resources.freeHdd + ((k.recorded + inFlight).map Prod.snd).sum = k.resources.totalHdd

theorem balanced_boot (ramMb hddMb cores : Int) : Balanced (boot ramMb hddMb cores) 0 :=
  ⟨Int.add_zero ramMb, Int.add_zero hddMb⟩

theorem Balanced.of_eq {k : Kernel} {inFlight same : Multiset Amounts} (balanced : Balanced k inFlight)
    (equal : inFlight = same) : Balanced k same := equal ▸ balanced

/-- A successful allocation puts its amounts in flight. -/
theorem Balanced.allocate {k k' : Kernel} {inFlight : Multiset Amounts} (balanced : Balanced k inFlight)
    {request : ResourceRequest} (charged : k.allocateResources request.ram request.hdd = (true, k')) :
    Balanced k' (request.amounts ::ₘ inFlight) ∧ k'.pcbs = k.pcbs := by
  obtain ⟨ram, hdd⟩ := balanced
  rcases k.allocateResources_cases request.ram request.hdd with ⟨-, -, granted⟩ | ⟨-, denied⟩
  · rw [granted, Prod.mk.injEq] at charged
    -- What the counter loses the flight gains.
    obtain ⟨-, rfl⟩ := charged
    refine ⟨⟨?_, ?_⟩, rfl⟩
    · rw [Multiset.add_cons, Multiset.map_cons, Multiset.sum_cons]
      show k.resources.freeRam - request.ram +
        (request.ram + ((k.recorded + inFlight).map Prod.fst).sum) = k.resources.totalRam
      omega
    · rw [Multiset.add_cons, Multiset.map_cons, Multiset.sum_cons]
      show k.resources.freeHdd - request.hdd +
        (request.hdd + ((k.recorded + inFlight).map Prod.snd).sum) = k.resources.totalHdd
      omega
  · rw [denied, Prod.mk.injEq] at charged
    exact absurd charged.1 (by decide)

/-- A refused allocation changes nothing. -/
theorem allocateResources_false {k k' : Kernel} {ram hdd : Int}
    (denied : k.allocateResources ram hdd = (false, k')) : k' = k := by
  rcases k.allocateResources_cases ram hdd with ⟨-, -, granted⟩ | ⟨-, same⟩
  · rw [granted, Prod.mk.injEq] at denied
    exact absurd denied.1 (by decide)
  · rw [same, Prod.mk.injEq] at denied
    exact denied.2.symm

/-- A new process in a table with room records what was in flight for it. -/
theorem Balanced.create {k : Kernel} {inFlight : Multiset Amounts} {request : ResourceRequest}
    (balanced : Balanced k (request.amounts ::ₘ inFlight)) (room : k.pcbs.count < maxProcesses)
    (childPid : Int) : Balanced (k.createRequested childPid request) inFlight := by
  -- The amounts move from the flight to the table, so their sum with it is the same.
  have recorded : (k.createRequested childPid request).recorded + inFlight =
      k.recorded + request.amounts ::ₘ inFlight := by
    rw [createRequested_recorded room, Multiset.cons_add, Multiset.add_cons]
  have counters : (k.createRequested childPid request).resources = k.resources :=
    k.createPcb_resources ..
  refine ⟨?_, ?_⟩
  · rw [recorded, counters]
    exact balanced.ram
  · rw [recorded, counters]
    exact balanced.hdd

/-- A deletion puts what its block had recorded in flight. -/
theorem Balanced.delete {k : Kernel} {inFlight : Multiset Amounts} (balanced : Balanced k inFlight)
    (pid : Int) :
    Balanced (k.deletePcb pid).2 (((k.deletePcb pid).1.toList : Multiset Amounts) + inFlight) := by
  -- The amounts move from the table to the flight.
  have recorded : (k.deletePcb pid).2.recorded + (((k.deletePcb pid).1.toList : Multiset Amounts) +
      inFlight) = k.recorded + inFlight := by
    rw [k.deletePcb_recorded pid, ← Multiset.add_assoc, Multiset.add_comm (k.deletePcb pid).2.recorded]
  refine ⟨?_, ?_⟩
  · rw [recorded, deletePcb_resources]
    exact balanced.ram
  · rw [recorded, deletePcb_resources]
    exact balanced.hdd

/-- A reclamation brings what was in flight back to the free counters. -/
theorem Balanced.reclaim {k : Kernel} {inFlight : Multiset Amounts} {amounts : Amounts}
    (balanced : Balanced k (amounts ::ₘ inFlight)) :
    Balanced (k.reclaimResources amounts.1 amounts.2) inFlight := by
  -- What the flight loses the counter gains.
  obtain ⟨ram, hdd⟩ := balanced
  rw [Multiset.add_cons, Multiset.map_cons, Multiset.sum_cons] at ram hdd
  refine ⟨?_, ?_⟩
  · show k.resources.freeRam + amounts.1 + ((k.recorded + inFlight).map Prod.fst).sum =
      k.resources.totalRam
    omega
  · show k.resources.freeHdd + amounts.2 + ((k.recorded + inFlight).map Prod.snd).sum =
      k.resources.totalHdd
    omega

/-- The recorded amounts in megabytes, summed over the table. -/
theorem sum_recorded (k : Kernel) (field : Amounts → Int) :
    (k.recorded.map field).sum = (k.pcbs.entries.map fun p => field p.amounts).sum := by
  -- A sum does not depend on the order.
  simp only [recorded, SlotArray.bag, Multiset.map_coe, List.map_map, Multiset.sum_coe]
  rfl

end Kernel

end Nebula
