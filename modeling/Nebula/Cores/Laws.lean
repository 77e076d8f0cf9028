import Nebula.Cores.Steps

/-! Exactly which runs conserve the cores, keep them exclusive, and match them with RUNNING. -/

namespace Nebula

open CText

namespace Kernel

theorem countP_holdings (k : Kernel) (test : CoreHolding → Prop) [DecidablePred test] :
    k.coreLedger.holdings.countP test = k.pcbs.entries.countP fun p => test p.holding := by
  rw [coreLedger, Multiset.countP_map, ← Multiset.countP_eq_card_filter, SlotArray.bag,
    Multiset.coe_countP]

theorem mem_holdings {k : Kernel} {h : CoreHolding} :
    h ∈ k.coreLedger.holdings ↔ ∃ p ∈ k.pcbs.entries, p.holding = h := by
  simp [coreLedger]

/--
A law of the cores that holds at boot, and that a step keeps just when it meets a condition, holds
throughout exactly the runs whose steps all meet it.
-/
theorem law_throughout_iff {law : Kernel → Prop} {meets : Kernel → KernelOp → Prop}
    (exactly : ∀ {k : Kernel}, CoresTracked k → law k → ∀ op, law (k.step op) ↔ meets k op)
    (ramMb hddMb : Int) {cores : Int} (positive : 1 ≤ cores)
    (begins : law (boot ramMb hddMb cores)) (ops : List KernelOp) :
    Machine.Throughout Kernel.step law (boot ramMb hddMb cores) ops ↔
      Machine.EachStep Kernel.step meets (boot ramMb hddMb cores) ops := by
  have preserved : ∀ k op, CoresTracked k → CoresTracked (Kernel.step k op) :=
    fun _ op tracked => tracked.step op
  exact Machine.throughout_iff_eachStep preserved (fun _ op tracked held => exactly tracked held op)
    (coresTracked_boot ramMb hddMb positive) begins ops

/-- The free cores and the processes with a core number make up the machine. -/
def CoresConserved (k : Kernel) : Prop :=
  0 ≤ k.resources.freeCores ∧ k.resources.freeCores ≤ k.resources.totalCores ∧
    k.resources.freeCores + k.pcbs.entries.countP (fun p => 0 ≤ p.coreId) = k.resources.totalCores

/-- A tick finds no queued process it takes for READY. -/
def DispatchesNothing (k : Kernel) : KernelOp → Prop
  | .schedulerTick => ∀ level, ∀ slot ∈ (k.queue level).toList, looksReady (k.pcb slot).state = false
  | _ => True

theorem coresConserved_ledger (k : Kernel) : CoresConserved k ↔ k.coreLedger.Conserved := by
  -- The holders of the ledger are the processes with a core number.
  unfold CoreLedger.Conserved CoreLedger.holders
  rw [countP_holdings]
  rfl

/-- A step conserves the cores exactly when it dispatches nothing. -/
theorem coresConserved_step {k : Kernel} (tracked : CoresTracked k) (conserved : CoresConserved k)
    (op : KernelOp) : CoresConserved (k.step op) ↔ DispatchesNothing k op := by
  have sound := tracked.sound
  have sound' := (tracked.step op).sound
  rw [coresConserved_ledger] at conserved ⊢
  rcases step_ledger tracked op with ⟨move, idle, -⟩ | ⟨slot, rfl, target, ready, live, started⟩ |
    ⟨pid, slot, rfl, -, live, started⟩
  · refine ⟨fun _ => ?_, fun _ => move.conserved sound conserved⟩
    cases op with
    | schedulerTick => exact dispatchTarget_none.mp (idle rfl)
    | _ => trivial
  · -- The dispatch makes a holder, and the counter of free cores stays at the total.
    constructor
    · intro after
      have counted := (sound.dispatched_counts (k.holdings_eq live) ready).1
      have none := (sound'.conserved_iff.mp after).2
      rw [started, counted] at none
      omega
    · intro nothing
      rw [dispatchTarget_none.mpr nothing] at target
      cases target
  · refine ⟨fun _ => trivial, fun _ => ?_⟩
    -- A resume takes no core and makes no holder.
    obtain ⟨full, none⟩ := sound.conserved_iff.mp conserved
    have counted := (CoreLedger.resumed_counts (k.holdings_eq live)).1
    rw [sound'.conserved_iff, started]
    exact ⟨full, counted.trans none⟩

/-- A run conserves the cores in every state it reaches exactly when no tick of it dispatches. -/
theorem coresConserved_throughout_iff (ramMb hddMb : Int) {cores : Int} (positive : 1 ≤ cores)
    (ops : List KernelOp) :
    Machine.Throughout Kernel.step CoresConserved (boot ramMb hddMb cores) ops ↔
      Machine.EachStep Kernel.step DispatchesNothing (boot ramMb hddMb cores) ops := by
  have begins : CoresConserved (boot ramMb hddMb cores) := by
    refine ⟨?_, Int.le_refl _, Int.add_zero _⟩
    show 0 ≤ cores
    omega
  exact law_throughout_iff coresConserved_step ramMb hddMb positive begins ops

theorem coresConserved_throughout_iff_single_core :
    (1 : Int) ≤ 1 ∧
      (Machine.Throughout Kernel.step CoresConserved (boot 1024 1024 1)
          [.createPcb 101 (ascii "Clock") 0 20 2, .sendMinimize 101] ↔
        Machine.EachStep Kernel.step DispatchesNothing (boot 1024 1024 1)
          [.createPcb 101 (ascii "Clock") 0 20 2, .sendMinimize 101]) :=
  ⟨by decide, coresConserved_throughout_iff 1024 1024 (by decide) _⟩

/-- One process dispatched on a machine of four cores leaves all four counted as free. -/
theorem dispatch_takes_no_core :
    ¬ CoresConserved (Machine.run Kernel.step (boot 1024 1024 4)
      [.createPcb 101 (ascii "Clock") 0 20 2, .schedulerTick]) := by
  unfold CoresConserved
  decide +kernel

/-- How many live processes are RUNNING. -/
def runningCount (k : Kernel) : Nat := k.pcbs.entries.countP fun p => p.state = stateRunning

/-- No two RUNNING processes share a core number, and no more are RUNNING than there are cores. -/
def CoresExclusive (k : Kernel) : Prop :=
  (∀ first second : Slot, first.val < k.pcbCount → second.val < k.pcbCount → first ≠ second →
    (k.pcb first).state = stateRunning → (k.pcb second).state = stateRunning →
    0 ≤ (k.pcb first).coreId → (k.pcb first).coreId ≠ (k.pcb second).coreId) ∧
  (k.runningCount : Int) ≤ k.resources.totalCores

/--
A tick with something to dispatch finds nobody on a core and fewer RUNNING than cores.

A resume of a process that is not RUNNING finds fewer RUNNING than cores.
-/
def StartsWithinCores (k : Kernel) : KernelOp → Prop
  | .schedulerTick =>
    (∃ level, ∃ slot ∈ (k.queue level).toList, looksReady (k.pcb slot).state = true) →
    (∀ p ∈ k.pcbs.entries, p.state = stateRunning → p.coreId < 0) ∧
      (k.runningCount : Int) < k.resources.totalCores
  | .sendResume pid =>
    ∀ slot, k.findPcb (fun p => p.pid == pid) = some slot → (k.pcb slot).state ≠ stateRunning →
    (k.runningCount : Int) < k.resources.totalCores
  | _ => True

theorem running_ledger (k : Kernel) : k.coreLedger.running = k.runningCount :=
  k.countP_holdings _

/-- As every core number in use is zero, exclusive cores mean that one process holds one at most. -/
theorem coresExclusive_ledger {k : Kernel} (tracked : CoresTracked k) :
    CoresExclusive k ↔ k.coreLedger.Exclusive := by
  have held : ∀ slot : Slot, slot.val < k.pcbs.count → 0 ≤ (k.pcb slot).coreId →
      (k.pcb slot).state = stateRunning ∧ (k.pcb slot).coreId = 0 := by
    intro slot live core
    exact tracked.sound.held (k.pcb slot).holding (by simp [k.holdings_eq live]) core
  unfold CoresExclusive CoreLedger.Exclusive
  rw [running_ledger, CoreLedger.holders, countP_holdings, SlotArray.countP_le_one]
  simp only [decide_eq_true_eq]
  refine and_congr_left fun _ => ⟨fun apart first second live live' core core' => ?_,
    fun unique first second live live' distinct _ _ core same => ?_⟩
  · -- Two holders would both be RUNNING on core zero.
    by_contra distinct
    have one := held first live core
    have other := held second live' core'
    exact apart first second live live' distinct one.1 other.1 core (one.2.trans other.2.symm)
  · exact distinct (unique first second live live' core (le_of_le_of_eq core same))

/-- A step keeps the cores exclusive exactly when what it starts is within the cores. -/
theorem coresExclusive_step {k : Kernel} (tracked : CoresTracked k) (exclusive : CoresExclusive k)
    (op : KernelOp) : CoresExclusive (k.step op) ↔ StartsWithinCores k op := by
  have sound := tracked.sound
  rw [coresExclusive_ledger tracked] at exclusive
  rw [coresExclusive_ledger (tracked.step op)]
  rcases step_ledger tracked op with ⟨move, idle, absent⟩ |
    ⟨slot, rfl, target, ready, live, started⟩ | ⟨pid, slot, rfl, found, live, started⟩
  -- A move that starts nothing needs nothing, and meets the condition because it starts nothing.
  · refine ⟨fun _ => ?_, fun _ => move.exclusive sound exclusive⟩
    cases op with
    | schedulerTick =>
      rintro ⟨level, slot, queued, ready⟩
      have notReady := dispatchTarget_none.mp (idle rfl) level slot queued
      rw [ready] at notReady
      cases notReady
    | sendResume pid =>
      intro slot found
      rw [absent pid rfl] at found
      cases found
    | _ => trivial
  · obtain ⟨holders, running⟩ := sound.dispatched_counts (k.holdings_eq live) ready
    have free : (∀ p ∈ k.pcbs.entries, p.state = stateRunning → p.coreId < 0) ↔
        k.coreLedger.holders = 0 := by
      -- Whoever holds a core is RUNNING.
      rw [CoreLedger.holders, Multiset.countP_eq_zero]
      constructor
      · intro idle h member core
        obtain ⟨p, inTable, rfl⟩ := mem_holdings.mp member
        have runs := (sound.held _ member core).1
        exact absurd core (Int.not_le.mpr (idle p inTable runs))
      · intro none p inTable _
        exact Int.not_le.mp (none p.holding (mem_holdings.mpr ⟨p, inTable, rfl⟩))
    -- A dispatch adds a holder, so there must have been none, and one RUNNING process.
    have found : ∃ level, ∃ slot ∈ (k.queue level).toList, looksReady (k.pcb slot).state = true := by
      obtain ⟨level, queued, ready⟩ := dispatchTarget_some target
      exact ⟨level, slot, queued, ready⟩
    rw [started]
    simp only [CoreLedger.Exclusive, holders, running, StartsWithinCores, found, free,
      forall_const, ← running_ledger]
    show _ ∧ ((k.coreLedger.running + 1 : Nat) : Int) ≤ k.coreLedger.total ↔
      _ ∧ (k.coreLedger.running : Int) < k.coreLedger.total
    omega
  · obtain ⟨atMostOne, within⟩ := exclusive
    have counts : (k.coreLedger.starting (k.pcb slot).coreId (k.otherHoldings slot)).holders =
          k.coreLedger.holders ∧
        (k.coreLedger.starting (k.pcb slot).coreId (k.otherHoldings slot)).running =
          k.coreLedger.running + if (k.pcb slot).state = stateRunning then 0 else 1 :=
      CoreLedger.resumed_counts (k.holdings_eq live)
    rw [started]
    simp only [CoreLedger.Exclusive, counts.1, counts.2, StartsWithinCores, found,
      Option.some.injEq, forall_eq', ← running_ledger]
    show _ ∧ _ ≤ k.coreLedger.total ↔ (_ → (k.coreLedger.running : Int) < k.coreLedger.total)
    -- Resuming what runs changes no count, and resuming anything else adds one.
    by_cases runs : (k.pcb slot).state = stateRunning
    · simp only [runs, ↓reduceIte, ne_eq, not_true_eq_false, false_implies, iff_true]
      exact ⟨atMostOne, within⟩
    · simp only [runs, ↓reduceIte, ne_eq, not_false_eq_true, forall_const]
      omega

/--
A run keeps the cores exclusive in every state it reaches exactly when each of its dispatches finds
every core free and each of its dispatches and resumes finds fewer RUNNING than cores.
-/
theorem coresExclusive_throughout_iff (ramMb hddMb : Int) {cores : Int} (positive : 1 ≤ cores)
    (ops : List KernelOp) :
    Machine.Throughout Kernel.step CoresExclusive (boot ramMb hddMb cores) ops ↔
      Machine.EachStep Kernel.step StartsWithinCores (boot ramMb hddMb cores) ops := by
  have begins : CoresExclusive (boot ramMb hddMb cores) := by
    -- The table is empty, so nobody is RUNNING.
    refine ⟨fun first _ live => absurd live (Nat.not_lt_zero _), ?_⟩
    show (0 : Int) ≤ cores
    omega
  exact law_throughout_iff coresExclusive_step ramMb hddMb positive begins ops

theorem coresExclusive_throughout_iff_two_cores :
    (1 : Int) ≤ 2 ∧
      (Machine.Throughout Kernel.step CoresExclusive (boot 1024 1024 2)
          [.createPcb 101 (ascii "Alarm") 6 20 2, .schedulerTick] ↔
        Machine.EachStep Kernel.step StartsWithinCores (boot 1024 1024 2)
          [.createPcb 101 (ascii "Alarm") 6 20 2, .schedulerTick]) :=
  ⟨by decide, coresExclusive_throughout_iff 1024 1024 (by decide) _⟩

/-- Two processes dispatched in turn on a machine of two cores both run on core zero. -/
theorem dispatches_share_core_zero :
    ¬ CoresExclusive (Machine.run Kernel.step (boot 1024 1024 2)
      [.createPcb 101 (ascii "Alarm") 6 20 2, .schedulerTick,
        .createPcb 102 (ascii "Stopwatch") 6 20 2, .schedulerTick]) := by
  intro exclusive
  have apart := exclusive.1 ⟨0, by decide⟩ ⟨1, by decide⟩
  revert apart
  decide +kernel

/-- The RUNNING processes are those with the number of a core of the machine. -/
def RunningHoldsCore (k : Kernel) : Prop :=
  ∀ p ∈ k.pcbs.entries,
    p.state = stateRunning ↔ 0 ≤ p.coreId ∧ p.coreId < k.resources.totalCores

/-- A resume finds no process, or one that is RUNNING already. -/
def ResumesOnlyRunning (k : Kernel) : KernelOp → Prop
  | .sendResume pid =>
    ∀ slot, k.findPcb (fun p => p.pid == pid) = some slot → (k.pcb slot).state = stateRunning
  | _ => True

theorem runningHoldsCore_ledger (k : Kernel) : RunningHoldsCore k ↔ k.coreLedger.Matched := by
  -- The ledger has one holding for each live process.
  constructor
  · intro holds h member
    obtain ⟨p, live, rfl⟩ := mem_holdings.mp member
    exact holds p live
  · intro matched p live
    exact matched p.holding (mem_holdings.mpr ⟨p, live, rfl⟩)

/-- A step keeps RUNNING matched with a core exactly when it resumes only what is RUNNING. -/
theorem runningHoldsCore_step {k : Kernel} (tracked : CoresTracked k) (holds : RunningHoldsCore k)
    (op : KernelOp) : RunningHoldsCore (k.step op) ↔ ResumesOnlyRunning k op := by
  have sound := tracked.sound
  rw [runningHoldsCore_ledger] at holds ⊢
  rcases step_ledger tracked op with ⟨move, -, absent⟩ | ⟨slot, rfl, -, -, live, started⟩ |
    ⟨pid, slot, rfl, found, live, started⟩
  -- A resume that moves the ledger without starting anything has found no process.
  · refine ⟨fun _ => ?_, fun _ => move.matched sound holds⟩
    cases op with
    | sendResume pid =>
      intro slot found
      rw [absent pid rfl] at found
      cases found
    | _ => trivial
  · rw [started]
    exact ⟨fun _ => trivial, fun _ => sound.dispatched_matched holds (k.holdings_eq live)⟩
  · rw [started]
    -- A resume leaves the core number alone, which matches only what was RUNNING.
    have matched := CoreLedger.resumed_matched_iff holds (k.holdings_eq live)
    simp only [ResumesOnlyRunning, found, Option.some.injEq, forall_eq']
    exact matched

/--
A run matches RUNNING with holding a core in every state it reaches exactly when each of its resumes
finds no process or one that is RUNNING already.
-/
theorem runningHoldsCore_throughout_iff (ramMb hddMb : Int) {cores : Int} (positive : 1 ≤ cores)
    (ops : List KernelOp) :
    Machine.Throughout Kernel.step RunningHoldsCore (boot ramMb hddMb cores) ops ↔
      Machine.EachStep Kernel.step ResumesOnlyRunning (boot ramMb hddMb cores) ops := by
  have begins : RunningHoldsCore (boot ramMb hddMb cores) := by
    intro p live
    exact absurd live (List.not_mem_nil)
  exact law_throughout_iff runningHoldsCore_step ramMb hddMb positive begins ops

theorem runningHoldsCore_throughout_iff_single_core :
    (1 : Int) ≤ 1 ∧
      (Machine.Throughout Kernel.step RunningHoldsCore (boot 1024 1024 1)
          [.createPcb 101 (ascii "Notepad") 3 20 2, .schedulerTick, .sendInterrupt 101] ↔
        Machine.EachStep Kernel.step ResumesOnlyRunning (boot 1024 1024 1)
          [.createPcb 101 (ascii "Notepad") 3 20 2, .schedulerTick, .sendInterrupt 101]) :=
  ⟨by decide, runningHoldsCore_throughout_iff 1024 1024 (by decide) _⟩

/-- A process that is minimised and resumed is RUNNING without a core. -/
theorem resume_runs_without_core :
    ¬ RunningHoldsCore (Machine.run Kernel.step (boot 1024 1024 1)
      [.createPcb 101 (ascii "Notepad") 3 20 2, .schedulerTick, .sendMinimize 101,
        .sendResume 101]) := by
  unfold RunningHoldsCore
  decide +kernel

end Kernel

end Nebula
