import Nebula.Cores.Ledger
import Nebula.Queues.Filing

/-! Every step of the kernel is a move of the core ledger, a dispatch or a resume. -/

namespace Nebula

def Process.holding (p : Process) : CoreHolding := ⟨p.state, p.coreId⟩

namespace Kernel

/-- The ledger of a kernel. -/
def coreLedger (k : Kernel) : CoreLedger where
  total := k.resources.totalCores
  free := k.resources.freeCores
  holdings := k.pcbs.bag.map Process.holding

/-- The holdings other than that of one slot. -/
def otherHoldings (k : Kernel) (slot : Slot) : Multiset CoreHolding :=
  (k.pcbs.removeAt slot).bag.map Process.holding

theorem holdings_eq (k : Kernel) {slot : Slot} (live : slot.val < k.pcbs.count) :
    k.coreLedger.holdings = (k.pcb slot).holding ::ₘ k.otherHoldings slot := by
  rw [coreLedger, SlotArray.bag_removeAt _ _ live, Multiset.map_cons]
  rfl

theorem holdings_set (k : Kernel) {slot : Slot} (live : slot.val < k.pcbs.count) (p : Process) :
    (k.pcbs.set slot p).bag.map Process.holding = p.holding ::ₘ k.otherHoldings slot := by
  rw [SlotArray.bag_set _ _ live, Multiset.map_cons]
  rfl

@[simp] theorem push_coreLedger (k : Kernel) (level : QueueLevel) (slot : Slot) :
    (k.push level slot).coreLedger = k.coreLedger := rfl

/-- Aging changes no state and no core number. -/
theorem holdings_sweep (k : Kernel) :
    (k.pcbs.sweep ageProcess).1.bag.map Process.holding = k.coreLedger.holdings := by
  -- Aging keeps the two fields of each process that the ledger sees.
  rw [SlotArray.bag_sweep, Multiset.map_map]
  apply Multiset.map_congr rfl
  intro p _
  show (ageProcess p).1.holding = p.holding
  rw [ageProcess_keeps]
  rfl

/-- The steps that neither dispatch nor resume move the ledger. -/
theorem Effect.move {k k' : Kernel} (effect : Effect k k') :
    CoreLedger.Move k.coreLedger k'.coreLedger := by
  -- Each outcome changes one holding, or none.
  cases effect with
  | kept resources cores =>
    have same : ({ k with resources := resources } : Kernel).coreLedger = k.coreLedger := by
      simp only [coreLedger, cores.1, cores.2]
    rw [same]
    exact .kept
  | created room p ready idle resources cores =>
    have grown : ({ k with pcbs := k.pcbs.append room p, resources := resources } : Kernel).coreLedger =
        { k.coreLedger with
          holdings := ⟨stateReady, -1⟩ ::ₘ k.coreLedger.holdings } := by
      simp only [coreLedger, SlotArray.bag_append, Multiset.map_cons, cores.1, cores.2,
        Process.holding, ready, idle]
    rw [push_coreLedger, grown]
    exact .added
  | removed slot live resources cores =>
    have shrunk : ({ ({ k with pcbs := k.pcbs.removeAt slot } : Kernel).rebuildQueues with
        resources := resources } : Kernel).coreLedger =
        { k.coreLedger with holdings := k.otherHoldings slot } := by
      simp only [coreLedger, rebuildQueues_pcbs, cores.1, cores.2, otherHoldings]
    rw [shrunk]
    exact .removed _ _ (k.holdings_eq live)
  | reprioritised slot live priority =>
    -- The priority is not in the ledger, so the slot is put back as it was.
    have same : (k.setPcb slot { k.pcb slot with priority := priority }).coreLedger = k.coreLedger := by
      have here := k.holdings_eq live
      simp only [coreLedger, setPcb, k.holdings_set live] at here ⊢
      rw [here]
      rfl
    rw [same]
    exact .kept
  | unblocked slot live blocked =>
    have woken : (k.setState slot stateReady).coreLedger =
        { k.coreLedger with
          holdings := ⟨stateReady, (k.pcb slot).coreId⟩ ::ₘ k.otherHoldings slot } := by
      simp only [coreLedger, setState, setPcb, k.holdings_set live, Process.holding,
        Process.setState, copyInto_states]
    rw [woken]
    exact .woken _ _ (k.holdings_eq live) blocked
  | stopped slot live text stops =>
    -- The state texts fit their buffer.
    have copied : CText.copyInto maxState text = text := by
      rcases stops with rfl | rfl <;> simp
    rw [stopped_eq]
    simp only [coreLedger, k.holdings_set live, Process.holding, Process.setState, copied]
    exact .stopped _ _ (k.holdings_eq live) text stops
  | aged =>
    have same : k.agingTick.coreLedger = k.coreLedger := by
      -- A tick of aging leaves the ledger alone, also when it rebuilds the queues.
      rw [coreLedger, agingTick_pcbs, holdings_sweep, agingTick_resources]
      rfl
    rw [same]
    exact .kept

/-- The queues are filed and the ledger is sound. -/
structure CoresTracked (k : Kernel) : Prop where
  filed : Filed k
  sound : k.coreLedger.Sound

/-- With a surplus of free cores the formula of dispatch always names core zero. -/
theorem CoresTracked.assignedCore {k : Kernel} (tracked : CoresTracked k) :
    assignedCore k.resources = 0 := by
  -- The difference is not positive, so it is clamped to zero, which is below the total.
  have positive : 1 ≤ k.resources.totalCores := tracked.sound.positive
  have surplus : k.resources.totalCores ≤ k.resources.freeCores := tracked.sound.surplus
  unfold Nebula.assignedCore
  dsimp only
  split <;> split <;> omega

/-- A step moves the ledger without starting anything, or dispatches a process, or resumes one. -/
theorem step_ledger {k : Kernel} (tracked : CoresTracked k) (op : KernelOp) :
    (CoreLedger.Move k.coreLedger (k.step op).coreLedger ∧
      (op = .schedulerTick → k.dispatchTarget = none) ∧
      ∀ pid, op = .sendResume pid → k.findPcb (fun p => p.pid == pid) = none) ∨
    (∃ slot, op = .schedulerTick ∧ k.dispatchTarget = some slot ∧
      looksReady (k.pcb slot).state = true ∧ slot.val < k.pcbs.count ∧
      (k.step op).coreLedger = k.coreLedger.starting 0 (k.otherHoldings slot)) ∨
    (∃ pid slot, op = .sendResume pid ∧ k.findPcb (fun p => p.pid == pid) = some slot ∧
      slot.val < k.pcbs.count ∧
      (k.step op).coreLedger = k.coreLedger.starting (k.pcb slot).coreId (k.otherHoldings slot)) := by
  cases op with
  | schedulerTick =>
    have table := k.schedulerTick_pcbs
    cases target : k.dispatchTarget with
    | none =>
      rw [target] at table
      have same : (k.step .schedulerTick).coreLedger = k.coreLedger := by
        simp only [step, coreLedger, table, schedulerTick_resources]
      rw [same]
      exact Or.inl ⟨.kept, fun _ => rfl, by simp⟩
    | some slot =>
      -- Every queue entry is live, so the dispatched slot is.
      obtain ⟨level, queued, ready⟩ := dispatchTarget_some target
      have live := (tracked.filed.live level slot queued).1
      rw [target] at table
      refine Or.inr (Or.inl ⟨slot, rfl, rfl, ready, live, ?_⟩)
      -- The one slot that the tick writes gets the state RUNNING and core zero.
      simp only [step, coreLedger, table, schedulerTick_resources, dispatchProcess, setPcb,
        k.holdings_set live, tracked.assignedCore, Process.holding, Process.setState, copyInto_states]
      rfl
  | sendResume pid =>
    rcases k.sendResume_cases pid with ⟨absent, same⟩ | ⟨slot, found, live, set⟩
    · rw [same]
      refine Or.inl ⟨.kept, by simp, fun other asked => ?_⟩
      cases asked
      exact absent
    -- The one slot that a resume writes keeps its core number.
    · refine Or.inr (Or.inr ⟨pid, slot, rfl, found, live, ?_⟩)
      rw [set]
      simp only [coreLedger, setState, setPcb, k.holdings_set live, Process.holding,
        Process.setState, copyInto_states]
      rfl
  | _ => exact Or.inl ⟨(step_effect (by simp) (by simp)).move, by simp, by simp⟩

theorem CoresTracked.step {k : Kernel} (tracked : CoresTracked k) (op : KernelOp) :
    CoresTracked (k.step op) := by
  refine ⟨tracked.filed.step op, ?_⟩
  -- The ledger moves, or one process starts on core zero or where it was.
  rcases step_ledger tracked op with ⟨move, -⟩ | ⟨slot, -, -, -, live, started⟩ |
    ⟨pid, slot, -, -, live, started⟩
  · exact tracked.sound.move move
  · rw [started]
    exact tracked.sound.dispatched (k.holdings_eq live)
  · rw [started]
    exact tracked.sound.resumed (k.holdings_eq live)

theorem coresTracked_boot (ramMb hddMb : Int) {cores : Int} (positive : 1 ≤ cores) :
    CoresTracked (boot ramMb hddMb cores) := by
  -- The table is empty and every core is free.
  refine ⟨filed_boot ramMb hddMb cores, positive, Int.le_refl _, ?_, ?_⟩
  · intro h member
    exact absurd member (Multiset.notMem_zero h)
  · intro h member
    exact absurd member (Multiset.notMem_zero h)

end Kernel

end Nebula
