import Mathlib.Algebra.Order.BigOperators.Group.Multiset
import Nebula.Resources.Sections

/-! The free counters stay within the machine while no request with a negative amount is granted. -/

namespace Nebula

open CText

/-- What reaches the memory and disk counters: a message read by a handler, or a removal. -/
inductive IpcOp where
  | handleIpcRequest (childPid : Int) (stack message : Bytes)
  | removePcb (pid : Int)

def IpcOp.toKernelOp : IpcOp → KernelOp
  | .handleIpcRequest childPid stack message => .handleIpcRequest childPid stack message
  | .removePcb pid => .removePcb pid

namespace Kernel

def ipcStep (k : Kernel) (op : IpcOp) : Kernel := k.step op.toKernelOp

/--
Both free counters are within their totals and within a C int.

A step adds to or subtracts from each counter once at most, and the exact result is what the counter
holds after it, so a result that leaves the int range would be seen here.
-/
structure CountersBounded (k : Kernel) : Prop where
  ram : 0 ≤ k.resources.freeRam ∧ k.resources.freeRam ≤ k.resources.totalRam
  hdd : 0 ≤ k.resources.freeHdd ∧ k.resources.freeHdd ≤ k.resources.totalHdd
  ramFits : InInt k.resources.freeRam
  hddFits : InInt k.resources.freeHdd

/-- A message that asks for amounts within the free ones asks for no negative amount. -/
def GrantsNoNegative (k : Kernel) : IpcOp → Prop
  | .handleIpcRequest _ stack message => ∀ request, requestOf stack message = some request →
      request.ram ≤ k.resources.freeRam → request.hdd ≤ k.resources.freeHdd →
      0 ≤ request.ram ∧ 0 ≤ request.hdd
  | _ => True

/-- Nothing negative is recorded, and what is recorded is not counted as free. -/
structure Charged (recorded : Multiset Amounts) (resources : Resources) : Prop where
  positive : ∀ amounts ∈ recorded, 0 ≤ amounts.1 ∧ 0 ≤ amounts.2
  ram : resources.freeRam + (recorded.map Prod.fst).sum ≤ resources.totalRam
  hdd : resources.freeHdd + (recorded.map Prod.snd).sum ≤ resources.totalHdd
  ramFree : 0 ≤ resources.freeRam
  hddFree : 0 ≤ resources.freeHdd
  ramFits : resources.totalRam ≤ intMax
  hddFits : resources.totalHdd ≤ intMax

theorem Charged.bounded {k : Kernel} (charged : Charged k.recorded k.resources) :
    CountersBounded k := by
  -- A sum of amounts that are not negative is not negative, so it leaves free at most the total.
  have ramHeld : 0 ≤ (k.recorded.map Prod.fst).sum := by
    apply Multiset.sum_nonneg
    intro value member
    obtain ⟨amounts, inTable, rfl⟩ := Multiset.mem_map.mp member
    exact (charged.positive amounts inTable).1
  have hddHeld : 0 ≤ (k.recorded.map Prod.snd).sum := by
    apply Multiset.sum_nonneg
    intro value member
    obtain ⟨amounts, inTable, rfl⟩ := Multiset.mem_map.mp member
    exact (charged.positive amounts inTable).2
  -- Between zero and the total, a counter is a C int because the total is.
  obtain ⟨-, ram, hdd, ramFree, hddFree, ramFits, hddFits⟩ := charged
  refine ⟨⟨ramFree, by omega⟩, ⟨hddFree, by omega⟩, ?_, ?_⟩
  · unfold InInt intMin
    omega
  · unfold InInt intMin
    omega

/-- A removal gives back what its process had recorded. -/
theorem charged_removePcb {k : Kernel} (charged : Charged k.recorded k.resources) (pid : Int) :
    Charged (k.removePcb pid).recorded (k.removePcb pid).resources := by
  have recorded := k.deletePcb_recorded pid
  have counters := k.deletePcb_resources pid
  obtain ⟨positive, ram, hdd, ramFree, hddFree, ramFits, hddFits⟩ := charged
  -- The bounds speak of what is recorded, so it is split into the deleted block and the others.
  cases deleted : k.deletePcb pid with
  | mk answer left =>
    rw [deleted] at recorded counters
    dsimp only at recorded counters
    rw [recorded] at positive ram hdd
    cases answer with
    | none =>
      rw [removePcb_none deleted, counters]
      simp only [Option.toList_none, Multiset.coe_nil, Multiset.zero_add] at positive ram hdd
      exact ⟨positive, ram, hdd, ramFree, hddFree, ramFits, hddFits⟩
    | some amounts =>
      simp only [Option.toList_some, Multiset.coe_singleton, Multiset.singleton_add,
        Multiset.map_cons, Multiset.sum_cons, Multiset.mem_cons, forall_eq_or_imp] at positive ram hdd
      -- The amounts given back were counted as recorded, so the free ones stay within the total.
      rw [removePcb_some deleted]
      show Charged left.recorded (left.reclaimResources amounts.1 amounts.2).resources
      simp only [reclaimResources, counters]
      exact ⟨positive.2, by dsimp only; omega, by dsimp only; omega, by dsimp only; omega,
        by dsimp only; omega, ramFits, hddFits⟩

/-- Amounts that are free and not negative can be charged, and recorded if there is a slot for them. -/
theorem Charged.charge {recorded : Multiset Amounts} {resources : Resources}
    (charged : Charged recorded resources) {ram hdd : Int} (ramThere : ram ≤ resources.freeRam)
    (hddThere : hdd ≤ resources.freeHdd) (positive : 0 ≤ ram ∧ 0 ≤ hdd) :
    Charged recorded { resources with
        freeRam := resources.freeRam - ram, freeHdd := resources.freeHdd - hdd } ∧
      Charged ((ram, hdd) ::ₘ recorded) { resources with
        freeRam := resources.freeRam - ram, freeHdd := resources.freeHdd - hdd } := by
  -- A charge that is not negative only lowers the free amounts, by no more than there is.
  obtain ⟨held, ramSum, hddSum, ramFree, hddFree, ramFits, hddFits⟩ := charged
  constructor
  · exact ⟨held, by dsimp only; omega, by dsimp only; omega, by dsimp only; omega,
      by dsimp only; omega, ramFits, hddFits⟩
  · refine ⟨?_, ?_, ?_, by dsimp only; omega, by dsimp only; omega, ramFits, hddFits⟩
    · intro amounts member
      rcases Multiset.mem_cons.mp member with rfl | member
      · exact positive
      · exact held amounts member
    · simp only [Multiset.map_cons, Multiset.sum_cons]
      omega
    · simp only [Multiset.map_cons, Multiset.sum_cons]
      omega

/-- A full table records nothing, any other one the new process. -/
theorem charged_createRequested {k : Kernel} (childPid : Int) (request : ResourceRequest)
    (lost : Charged k.recorded k.resources)
    (recorded : Charged (request.amounts ::ₘ k.recorded) k.resources) :
    Charged (k.createRequested childPid request).recorded
      (k.createRequested childPid request).resources := by
  -- Whether the table has room decides which of the two accounts applies.
  by_cases room : k.pcbs.count < maxProcesses
  · rw [createRequested_recorded room, createRequested, createPcb_resources]
    exact recorded
  · rw [createRequested, createPcb_full room]
    exact lost

/-- A message keeps the counters charged, unless it is granted a negative amount. -/
theorem charged_step {k : Kernel} (charged : Charged k.recorded k.resources) {op : IpcOp}
    (met : GrantsNoNegative k op) : Charged (k.ipcStep op).recorded (k.ipcStep op).resources := by
  cases op with
  | removePcb pid => exact charged_removePcb charged pid
  | handleIpcRequest childPid stack message =>
    simp only [ipcStep, IpcOp.toKernelOp, step, handleIpcRequest]
    cases asked : requestOf stack message with
    -- Without a request there is at most a removal.
    | none =>
      cases terminationOf message with
      | none => exact charged
      | some pid => exact charged_removePcb charged pid
    | some request =>
      dsimp only [handleRequest]
      rcases k.allocateResources_cases request.ram request.hdd with
        ⟨ramThere, hddThere, granted⟩ | ⟨-, denied⟩
      · -- The charge comes first, and a full table then records nothing.
        obtain ⟨lost, recorded⟩ := charged.charge ramThere hddThere
          (met request asked ramThere hddThere)
        rw [granted]
        exact charged_createRequested childPid request lost recorded
      · rw [denied]
        exact charged

/--
In every state that messages and removals reach without a negative amount being granted, the free
counters are within the machine and no operation on them has overflowed.
-/
theorem countersBounded_run {ramMb hddMb : Int} (cores : Int) (ram : 0 ≤ ramMb ∧ ramMb ≤ intMax)
    (hdd : 0 ≤ hddMb ∧ hddMb ≤ intMax) {ops : List IpcOp}
    (met : Machine.EachStep ipcStep GrantsNoNegative (boot ramMb hddMb cores) ops) :
    CountersBounded (Machine.run ipcStep (boot ramMb hddMb cores) ops) := by
  have initial : Charged (boot ramMb hddMb cores).recorded (boot ramMb hddMb cores).resources := by
    refine ⟨?_, ?_, ?_, ram.1, hdd.1, ram.2, hdd.2⟩
    · intro amounts member
      exact absurd member (Multiset.notMem_zero amounts)
    · exact le_of_eq (Int.add_zero ramMb)
    · exact le_of_eq (Int.add_zero hddMb)
  -- The charges are the invariant, and they bound the counters.
  have preserved : ∀ (k : Kernel) (op : IpcOp), Charged k.recorded k.resources →
      GrantsNoNegative k op → Charged (k.ipcStep op).recorded (k.ipcStep op).resources :=
    fun _ _ charged granted => charged_step charged granted
  have inv := @Machine.invariant_run_of_eachStep _ _ ipcStep
    (fun k => Charged k.recorded k.resources) _ preserved _ initial _ met
  exact Charged.bounded inv

theorem countersBounded_run_one_process :
    Machine.EachStep ipcStep GrantsNoNegative (boot 100 100 1)
      [.handleIpcRequest 101 [] (ascii "REQ:Alarm:30:5"), .removePcb 101] ∧
    CountersBounded (Machine.run ipcStep (boot 100 100 1)
      [.handleIpcRequest 101 [] (ascii "REQ:Alarm:30:5"), .removePcb 101]) := by
  have met : Machine.EachStep ipcStep GrantsNoNegative (boot 100 100 1)
      [.handleIpcRequest 101 [] (ascii "REQ:Alarm:30:5"), .removePcb 101] := by
    refine ⟨?_, trivial, trivial⟩
    -- The message asks for what its text says.
    intro request asked _ _
    have parsed : requestOf [] (ascii "REQ:Alarm:30:5") = some ⟨ascii "Alarm", 30, 5⟩ := by decide
    rw [parsed, Option.some.injEq] at asked
    subst asked
    decide
  exact ⟨met, countersBounded_run 1 (by decide) (by decide) met⟩

/-- A request for less than nothing is granted, and memory that does not exist becomes free. -/
theorem negative_request_frees_memory :
    ¬ CountersBounded (Machine.run ipcStep (boot 100 100 1)
      [.handleIpcRequest 101 [] (ascii "REQ:Alarm:-5:0")]) := by
  intro bounded
  have within := bounded.ram.2
  revert within
  decide +kernel

end Kernel

end Nebula
