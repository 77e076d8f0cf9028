import Nebula.Kernel.ProcessManager

/-! One tick of the multi-level scheduler and one tick of the aging loop. -/

namespace Nebula

/-- The core number dispatch_process derives from the counters, clamped into the machine. -/
def assignedCore (resources : Resources) : Int :=
  let core := resources.totalCores - resources.freeCores
  let core := if core < 0 then 0 else core
  if core ≥ resources.totalCores then resources.totalCores - 1 else core

/-- What one aging tick does to a process, and whether it changed the level. -/
def ageProcess (p : Process) : Process × Bool :=
  if looksAging p.state ∧ p.queueLevel ≠ .system then
    let p := { p with waitTime := p.waitTime + 1 }
    if p.waitTime % agingInterval = 0 then
      let p := if p.priority > 0 then { p with priority := p.priority - 1 } else p
      if p.priority ≤ q0PromoteThresh ∧ p.queueLevel = .background then
        ({ p with queueLevel := .interactive }, true)
      else if p.priority = 0 ∧ p.queueLevel = .interactive then
        ({ p with queueLevel := .system }, true)
      else (p, false)
    else (p, false)
  else (p, false)

namespace Kernel

/-- dispatch_process: the core is only computed, never taken from the free ones. -/
def dispatchProcess (k : Kernel) (slot : Slot) : Kernel :=
  k.setPcb slot { (k.pcb slot).setState stateRunning with coreId := assignedCore k.resources }

/-- The first entry of a queue whose process the scheduler takes for READY. -/
def firstReady (k : Kernel) (level : QueueLevel) : Option Slot :=
  (k.queue level).findFirst fun slot => looksReady (k.pcb slot).state

/-- The rotation of queue_Q1: whatever is at the front is popped, the dispatched slot is pushed. -/
def rotateInteractive (k : Kernel) (slot : Slot) : Kernel :=
  { k with queue := Function.update k.queue .interactive (k.queue .interactive).pop.2 }.push
    .interactive slot

/--
The part of one scheduler_loop round under pcb_lock.

The pass over queue_Q0 that compares neighbouring priorities has an empty body, so nothing of it
is left here.
-/
def schedulerTick (k : Kernel) : Kernel :=
  match k.firstReady .system with
  | some slot => k.dispatchProcess slot
  | none =>
    match k.firstReady .interactive with
    | some slot => (k.dispatchProcess slot).rotateInteractive slot
    | none =>
      match k.firstReady .background with
      | some slot => k.dispatchProcess slot
      | none => k

/-- The slot a tick dispatches, if any. -/
def dispatchTarget (k : Kernel) : Option Slot :=
  (k.firstReady .system).or ((k.firstReady .interactive).or (k.firstReady .background))

/-- KernelQueue::remove of one pid on each of the three queues. -/
def removeFromQueues (k : Kernel) (pid : Int) : Kernel :=
  let removed := fun level => (k.queue level).removeWhere fun slot => (k.pcb slot).pid == pid
  { k with
    queue := fun level => (removed level).2
    pushRefused := k.pushRefused ||
      !((removed .system).1 && (removed .interactive).1 && (removed .background).1) }

/-- The part of one aging_loop round under pcb_lock. -/
def agingTick (k : Kernel) : Kernel :=
  let (pcbs, changed) := k.pcbs.sweep ageProcess
  let k := { k with pcbs := pcbs }
  if changed then (k.removeFromQueues (-1)).rebuildQueues else k

theorem firstReady_eq (k : Kernel) (level : QueueLevel) :
    k.firstReady level = (k.queue level).toList.find? fun slot => looksReady (k.pcb slot).state :=
  RingQueue.findFirst_eq _ _

/-- A slot the search returns is queued, and its process passes the test for READY. -/
theorem firstReady_some {k : Kernel} {level : QueueLevel} {slot : Slot}
    (found : k.firstReady level = some slot) :
    slot ∈ (k.queue level).toList ∧ looksReady (k.pcb slot).state = true := by
  rw [firstReady_eq] at found
  exact ⟨List.mem_of_find?_eq_some found, by simpa using List.find?_some found⟩

theorem firstReady_none {k : Kernel} {level : QueueLevel} :
    k.firstReady level = none ↔
      ∀ slot ∈ (k.queue level).toList, looksReady (k.pcb slot).state = false := by
  simp [firstReady_eq]

/-- A tick does nothing, or dispatches one slot and leaves the queues, or also rotates queue_Q1. -/
theorem schedulerTick_cases (k : Kernel) :
    (k.dispatchTarget = none ∧ (∀ level, k.firstReady level = none) ∧ k.schedulerTick = k) ∨
    (∃ slot level, k.dispatchTarget = some slot ∧ k.firstReady level = some slot ∧
      (k.firstReady .system = none → k.firstReady .interactive = none) ∧
      k.schedulerTick = k.dispatchProcess slot) ∨
    (∃ slot, k.dispatchTarget = some slot ∧ k.firstReady .system = none ∧
      k.firstReady .interactive = some slot ∧
      k.schedulerTick = (k.dispatchProcess slot).rotateInteractive slot) := by
  -- The three searches run in order, and the first that finds a slot decides the tick.
  unfold dispatchTarget schedulerTick
  cases system : k.firstReady .system with
  | some slot => exact Or.inr (Or.inl ⟨slot, .system, by simp [system]⟩)
  | none =>
    cases interactive : k.firstReady .interactive with
    | some slot => exact Or.inr (Or.inr ⟨slot, by simp⟩)
    | none =>
      cases background : k.firstReady .background with
      | some slot => exact Or.inr (Or.inl ⟨slot, .background, by simp [background]⟩)
      | none =>
        refine Or.inl ⟨by simp, fun level => ?_, by simp⟩
        cases level <;> assumption

/-- The dispatched slot is an entry of some queue and its process passes the test for READY. -/
theorem dispatchTarget_some {k : Kernel} {slot : Slot} (target : k.dispatchTarget = some slot) :
    ∃ level, slot ∈ (k.queue level).toList ∧ looksReady (k.pcb slot).state = true := by
  simp only [dispatchTarget, Option.or_eq_some_iff] at target
  rcases target with found | ⟨_, found | ⟨_, found⟩⟩
  · exact ⟨_, firstReady_some found⟩
  · exact ⟨_, firstReady_some found⟩
  · exact ⟨_, firstReady_some found⟩

/-- Nothing is dispatched exactly when no queued process passes the test for READY. -/
theorem dispatchTarget_none {k : Kernel} :
    k.dispatchTarget = none ↔
      ∀ level, ∀ slot ∈ (k.queue level).toList, looksReady (k.pcb slot).state = false := by
  simp only [dispatchTarget, Option.or_eq_none_iff, firstReady_none]
  constructor
  · rintro ⟨system, interactive, background⟩ level
    cases level <;> assumption
  · intro all
    exact ⟨all _, all _, all _⟩

/-- The table after a tick: unchanged, or with the one dispatched process running. -/
theorem schedulerTick_pcbs (k : Kernel) :
    k.schedulerTick.pcbs =
      match k.dispatchTarget with
      | none => k.pcbs
      | some slot => (k.dispatchProcess slot).pcbs := by
  rcases k.schedulerTick_cases with ⟨target, -, tick⟩ | ⟨slot, level, target, -, -, tick⟩ |
    ⟨slot, target, -, -, tick⟩
  all_goals rw [target, tick]
  rfl

/-- A tick changes no counter: dispatching takes no core. -/
@[simp] theorem schedulerTick_resources (k : Kernel) : k.schedulerTick.resources = k.resources := by
  rcases k.schedulerTick_cases with ⟨-, -, tick⟩ | ⟨slot, level, -, -, -, tick⟩ | ⟨slot, -, -, -, tick⟩
  · rw [tick]
  · rw [tick]
    rfl
  · rw [tick]
    rfl

/-- Aging keeps everything but the waiting time, the priority and the level. -/
theorem ageProcess_keeps (p : Process) :
    (ageProcess p).1 = { p with
      waitTime := (ageProcess p).1.waitTime
      priority := (ageProcess p).1.priority
      queueLevel := (ageProcess p).1.queueLevel } := by
  unfold ageProcess
  dsimp only
  repeat' split
  all_goals rfl

/-- The flag that has the queues rebuilt tells whether the level has changed. -/
theorem ageProcess_flag (p : Process) : (ageProcess p).2 = true ↔ (ageProcess p).1.queueLevel ≠ p.queueLevel := by
  unfold ageProcess
  dsimp only
  -- The two promotions set the flag, and write a level that the process was not at.
  repeat' split
  all_goals simp_all

/-- A level changes only with the flag. -/
theorem ageProcess_level {p : Process} (kept : (ageProcess p).2 = false) :
    (ageProcess p).1.queueLevel = p.queueLevel := by
  by_contra moved
  rw [(ageProcess_flag p).mpr moved] at kept
  cases kept

@[simp] theorem removeFromQueues_pcbs (k : Kernel) (pid : Int) :
    (k.removeFromQueues pid).pcbs = k.pcbs := rfl

@[simp] theorem removeFromQueues_resources (k : Kernel) (pid : Int) :
    (k.removeFromQueues pid).resources = k.resources := rfl

/-- None of the pushes that removal makes is refused. -/
@[simp] theorem removeFromQueues_pushRefused (k : Kernel) (pid : Int) :
    (k.removeFromQueues pid).pushRefused = k.pushRefused := by
  simp [removeFromQueues, RingQueue.removeWhere_spec]

theorem agingTick_pcbs (k : Kernel) : k.agingTick.pcbs = (k.pcbs.sweep ageProcess).1 := by
  unfold agingTick
  dsimp only
  split
  · simp
  · rfl

@[simp] theorem agingTick_resources (k : Kernel) : k.agingTick.resources = k.resources := by
  unfold agingTick
  dsimp only
  split
  · simp
  · rfl

end Kernel

end Nebula
