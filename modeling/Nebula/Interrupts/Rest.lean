import Nebula.Interrupts.Timers
import Nebula.Queues.Progress

/-! Left to its timers and its two loops, the machine comes to rest with everybody RUNNING or MINIMIZED. -/

namespace Nebula

open CText

namespace TimedKernel

/-- A step with the timers is at most one step of the kernel. -/
theorem step_reaches (t : TimedKernel) (op : TimedOp) :
    ∃ ops, (t.step op).kernel = Machine.run Kernel.step t.kernel ops := by
  cases op with
  | sendInterrupt pid =>
    simp only [step, interrupt]
    split
    · exact ⟨[], rfl⟩
    · exact ⟨[.sendInterrupt pid], rfl⟩
  | fire number =>
    simp only [step, fire]
    split
    · exact ⟨[], rfl⟩
    · rename_i timer _
      exact ⟨[.unblockAfterDelay timer.pid], rfl⟩
  | createPcb pid name priority ram hdd => exact ⟨[.createPcb pid name priority ram hdd], rfl⟩
  | removePcb pid => exact ⟨[.removePcb pid], rfl⟩
  | schedulerTick => exact ⟨[.schedulerTick], rfl⟩
  | agingTick => exact ⟨[.agingTick], rfl⟩
  | sendMinimize pid => exact ⟨[.sendMinimize pid], rfl⟩
  | sendResume pid => exact ⟨[.sendResume pid], rfl⟩

/-- What a run with the timers reaches, a run of the kernel alone reaches too. -/
theorem run_reaches (t : TimedKernel) (ops : List TimedOp) :
    ∃ kernelOps, (Machine.run step t ops).kernel = Machine.run Kernel.step t.kernel kernelOps := by
  induction ops generalizing t with
  | nil => exact ⟨[], rfl⟩
  | cons op rest ih =>
    obtain ⟨here, reached⟩ := t.step_reaches op
    obtain ⟨later, reached'⟩ := ih (t.step op)
    refine ⟨here ++ later, ?_⟩
    rw [Machine.run_append, ← reached]
    exact reached'

/-- The kernel once the timers with some numbers have woken up. -/
def woken (t : TimedKernel) (numbers : List Nat) : Kernel :=
  (Machine.run step t (numbers.map .fire)).kernel

/-- Once every timer has woken up, nobody is BLOCKED. -/
theorem woken_state {t : TimedKernel} (counted : Counted t) (known : t.kernel.KnownStates)
    {numbers : List Nat} (all : ∀ timer ∈ t.timers, timer.number ∈ numbers) {slot : Slot}
    (live : slot.val < (t.woken numbers).pcbs.count) :
    ((t.woken numbers).pcb slot).state = stateReady ∨ ((t.woken numbers).pcb slot).state = stateRunning ∨
      ((t.woken numbers).pcb slot).state = stateMinimized := by
  obtain ⟨-, count, -, state⟩ := fires_slot numbers t slot
  have before : slot.val < t.kernel.pcbs.count := Nat.lt_of_lt_of_eq live count
  rcases state with same | ready
  · have text := known _ (SlotArray.mem_entries.mpr ⟨slot, before, rfl⟩)
    simp only [knownStates, List.mem_cons, List.not_mem_nil, or_false] at text
    rcases text with ready | running | blocked | minimized
    · exact Or.inl (same.trans ready)
    · exact Or.inr (Or.inl (same.trans running))
    -- Its timer has woken it up.
    · exact Or.inl (counted.noneStranded.woken slot before blocked numbers fun timer member _ => all timer member)
    · exact Or.inr (Or.inr (same.trans minimized))
  · exact Or.inl ready

/--
From every reachable state, once all timers have woken up in whatever order, enough rounds of the two
loops leave every process RUNNING or MINIMIZED.
-/
theorem comes_to_rest (ramMb hddMb cores : Int) (ops : List TimedOp) (numbers : List Nat)
    (before after : List Round)
    (all : ∀ timer ∈ (Machine.run step (boot ramMb hddMb cores) ops).timers, timer.number ∈ numbers)
    (positive : ∀ p ∈ ((Machine.run step (boot ramMb hddMb cores) ops).woken numbers).pcbs.entries,
      p.queueLevel = .interactive → 0 ≤ p.priority)
    (ages : ∀ p ∈ ((Machine.run step (boot ramMb hddMb cores) ops).woken numbers).pcbs.entries,
      p.patience ≤ before.count .aging)
    (serves : ((Machine.run step (boot ramMb hddMb cores) ops).woken numbers).readyCount ≤
      after.count .scheduler) :
    ∀ p ∈ (((Machine.run step (boot ramMb hddMb cores) ops).woken numbers).rounds
      (before ++ after)).pcbs.entries, p.state = stateRunning ∨ p.state = stateMinimized := by
  have counted := (counted_boot ramMb hddMb cores).run ops
  obtain ⟨kernelOps, reached⟩ := run_reaches (boot ramMb hddMb cores) ops
  have known : (Machine.run step (boot ramMb hddMb cores) ops).kernel.KnownStates := by
    rw [reached]
    exact (Kernel.settled_run ramMb hddMb cores kernelOps).known
  have states := fun slot live => @woken_state _ counted known _ all slot live
  generalize Machine.run step (boot ramMb hddMb cores) ops = t at *
  obtain ⟨wakeOps, wakes⟩ := run_reaches t (numbers.map .fire)
  -- The kernel is one that a run from the start reaches.
  have whole : t.woken numbers = Machine.run Kernel.step (Kernel.boot ramMb hddMb cores) (kernelOps ++ wakeOps) := by
    rw [Machine.run_append]
    exact wakes.trans (congrArg (fun k => Machine.run Kernel.step k wakeOps) reached)
  have filed : (t.woken numbers).Filed := by
    rw [whole]
    exact Kernel.filed_run ramMb hddMb cores _
  have ordered : (t.woken numbers).InTableOrder := by
    have chronicle := (Chronicle.ordered_run ramMb hddMb cores (kernelOps ++ wakeOps)).2
    rw [Chronicle.run_kernel] at chronicle
    rw [whole]
    exact chronicle
  generalize t.woken numbers = k at *
  intro p member
  obtain ⟨slot, live, rfl⟩ := SlotArray.mem_entries.mp member
  rw [Kernel.rounds_count filed] at live
  have entry := SlotArray.mem_entries.mpr ⟨slot, live, rfl⟩
  -- Who is READY runs in the end, and the others stay as they are or run.
  rcases states slot live with ready | running | minimized
  · exact Or.inl (Kernel.runs_after_rounds filed ordered live ready (positive _ entry) (ages _ entry) serves)
  · rcases (Kernel.rounds_pcb filed live (before ++ after)).2 with same | running'
    · exact Or.inl (same.trans running)
    · exact Or.inl running'
  · rcases (Kernel.rounds_pcb filed live (before ++ after)).2 with same | running
    · exact Or.inr (same.trans minimized)
    · exact Or.inl running

/-- Two processes, one of them interrupted and the other one minimised. -/
theorem comes_to_rest_two_processes :
    ((((Machine.run step (boot 1024 1024 1)
      [.createPcb 101 (ascii "Notepad") 3 20 2, .createPcb 102 (ascii "Calculator") 3 30 2, .schedulerTick,
        .sendInterrupt 101, .sendMinimize 102]).woken [0]).rounds
      (List.replicate 15 .aging ++ [.scheduler])).pcbs.entries.all fun p =>
        p.state = stateRunning ∨ p.state = stateMinimized) = true := by
  rw [List.all_eq_true]
  intro p member
  exact decide_eq_true (comes_to_rest 1024 1024 1 _ [0] (List.replicate 15 .aging) [.scheduler] (by decide +kernel)
    (by decide +kernel) (by decide +kernel) (by decide +kernel) p member)

end TimedKernel

end Nebula
