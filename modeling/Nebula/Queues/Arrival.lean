import Nebula.Library.Line
import Nebula.Queues.Chronicle

/-! The queues that are never rotated stay in the order in which their processes were created. -/

namespace Nebula

namespace Kernel

/-- The queues but queue_Q1 list the slots of their level in table order. -/
def InTableOrder (k : Kernel) : Prop :=
  ∀ level, level ≠ .interactive → (k.queue level).toList = k.slotsAt level

theorem InTableOrder.step {k : Kernel} (filed : Filed k) (ordered : InTableOrder k) (op : KernelOp) :
    InTableOrder (k.step op) := by
  intro level other
  rcases step_refiles filed op with ⟨moved, -⟩ | ⟨slot, -, -, -, moved⟩
  · cases moved with
    | same slots levels queues refused =>
      rw [queues, slotsAt_congr slots levels]
      exact ordered level other
    | added new fresh slots levels queues refused =>
      -- The queue of the new slot and the table grow at the same end.
      rw [queues level, slotsAt_snoc slots levels, ordered level other]
    | rebuilt queues refused => exact queues level
  · -- A rotation is none of their business.
    rw [moved.others level other, slotsAt_congr moved.slots moved.levels]
    exact ordered level other

theorem inTableOrder_boot (ramMb hddMb cores : Int) : InTableOrder (boot ramMb hddMb cores) := by
  intro level _
  simp [boot, initResources, zeroed, slotsAt]

end Kernel

namespace Chronicle

/-- What the order of arrival decides in the queues that are never rotated. -/
structure ArrivalOrder (c : Chronicle) : Prop where
  /-- A process further down the table was created later. -/
  numbered : ∀ older newer : Slot, older < newer → newer.val < c.kernel.pcbCount →
    c.number older < c.number newer
  /-- Each of these queues holds the processes of its level. -/
  listed : ∀ level, level ≠ .interactive → ∀ slot : Slot,
    slot ∈ (c.kernel.queue level).toList ↔
      slot.val < c.kernel.pcbCount ∧ (c.kernel.pcb slot).queueLevel = level
  /-- From front to rear they are in the order of their creation, each once. -/
  ordered : ∀ level, level ≠ .interactive → (c.line level).Pairwise (· < ·)
  /-- A tick that serves queue_Q2 serves the READY process created first. -/
  served : ∀ slot, Kernel.Dispatches c.kernel c.kernel.schedulerTick slot →
    (c.kernel.pcb slot).queueLevel = .background → ∀ other : Slot,
    other.val < c.kernel.pcbCount → (c.kernel.pcb other).queueLevel = .background →
    (c.kernel.pcb other).state = stateReady → c.number slot ≤ c.number other

/-- A process dispatched from a queue that is never rotated was created before the READY others. -/
theorem Numbered.number_least {c : Chronicle} (numbered : Numbered c)
    (ordered : c.kernel.InTableOrder) {level : QueueLevel} (fixed : level ≠ .interactive)
    {slot other : Slot} (target : c.kernel.firstReady level = some slot)
    (live : other.val < c.kernel.pcbs.count) (own : (c.kernel.pcb other).queueLevel = level)
    (ready : (c.kernel.pcb other).state = stateReady) : c.number slot ≤ c.number other := by
  -- The queue runs along the table, so its first READY slot is its lowest.
  have queued := (Kernel.firstReady_some target).1
  rw [Kernel.firstReady_eq, ordered level fixed] at target
  have least := Line.find?_least (c.kernel.sorted_slotsAt level) target
    (Kernel.mem_slotsAt.mpr ⟨live, own⟩) ((numbered.settled.ready_iff live).mpr ready)
  exact (numbered.number_le_iff (numbered.settled.filed.live level slot queued).1 live).mpr least

/-- The target of a tick was found by searching the queue of its own level. -/
theorem Numbered.firstReady_of_dispatches {c : Chronicle} (numbered : Numbered c) {slot : Slot}
    (dispatched : Kernel.Dispatches c.kernel c.kernel.schedulerTick slot) :
    c.kernel.firstReady (c.kernel.pcb slot).queueLevel = some slot := by
  have target := numbered.settled.dispatches_iff.mp dispatched
  have levelOf : ∀ level, c.kernel.firstReady level = some slot →
      c.kernel.firstReady (c.kernel.pcb slot).queueLevel = some slot := by
    intro level found
    rw [(numbered.settled.filed.live level slot (Kernel.firstReady_some found).1).2]
    exact found
  -- Whichever queue the target was found in, that is the queue of its level.
  simp only [Kernel.dispatchTarget, Option.or_eq_some_iff] at target
  rcases target with found | ⟨-, found | ⟨-, found⟩⟩
  · exact levelOf _ found
  · exact levelOf _ found
  · exact levelOf _ found

theorem Numbered.arrivalOrder {c : Chronicle} (numbered : Numbered c)
    (ordered : c.kernel.InTableOrder) : ArrivalOrder c := by
  -- Rows are numbered in the order in which they come, and the queues follow the table.
  refine ⟨fun older newer before live => numbered.number_lt before live,
    fun level fixed slot => ?_, fun level fixed => ?_, fun slot dispatched background other live own
      ready => ?_⟩
  · rw [ordered level fixed]
    exact Kernel.mem_slotsAt
  · rw [line, ordered level fixed, ← numbered.roll_eq]
    exact numbered.sorted_roll level
  · have found := numbered.firstReady_of_dispatches dispatched
    rw [background] at found
    exact numbered.number_least ordered (by decide) found live own ready

theorem ordered_step {c : Chronicle} (numbered : Numbered c) (ordered : c.kernel.InTableOrder)
    (op : KernelOp) : (c.step op).kernel.InTableOrder := by
  rw [step_kernel]
  exact ordered.step numbered.settled.filed op

/-- A chronicle and the order of its queues are preserved together. -/
theorem ordered_run (ramMb hddMb cores : Int) (ops : List KernelOp) :
    Numbered (Machine.run step (boot ramMb hddMb cores) ops) ∧
      (Machine.run step (boot ramMb hddMb cores) ops).kernel.InTableOrder := by
  have preserved : ∀ c op, Numbered c ∧ c.kernel.InTableOrder →
      Numbered (step c op) ∧ (step c op).kernel.InTableOrder :=
    fun _ op both => ⟨both.1.step op, ordered_step both.1 both.2 op⟩
  exact Machine.invariant_run preserved
    ⟨numbered_boot ramMb hddMb cores, Kernel.inTableOrder_boot ramMb hddMb cores⟩ ops

/-- In every reachable state queue_Q0 and queue_Q2 are in the order of arrival. -/
theorem arrivalOrder_run (ramMb hddMb cores : Int) (ops : List KernelOp) :
    ArrivalOrder (Machine.run step (boot ramMb hddMb cores) ops) :=
  let ⟨numbered, ordered⟩ := ordered_run ramMb hddMb cores ops
  numbered.arrivalOrder ordered

end Chronicle

end Nebula
