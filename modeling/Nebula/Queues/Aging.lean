import Nebula.Queues.Arrival

/-! Aging as a function of the waiting time and of the level a process was created with. -/

namespace Nebula

/-- The steps of the kernel when children request every process and nobody changes a priority. -/
inductive AgingOp where
  | handleIpcRequest (childPid : Int) (stack message : CText.Bytes)
  | removePcb (pid : Int)
  | sendInterrupt (pid : Int)
  | unblockAfterDelay (pid : Int)
  | sendMinimize (pid : Int)
  | sendResume (pid : Int)
  | schedulerTick
  | agingTick

def AgingOp.toKernelOp : AgingOp → KernelOp
  | .handleIpcRequest childPid stack message => .handleIpcRequest childPid stack message
  | .removePcb pid => .removePcb pid
  | .sendInterrupt pid => .sendInterrupt pid
  | .unblockAfterDelay pid => .unblockAfterDelay pid
  | .sendMinimize pid => .sendMinimize pid
  | .sendResume pid => .sendResume pid
  | .schedulerTick => .schedulerTick
  | .agingTick => .agingTick

def AgingOp.isAgingTick : AgingOp → Bool
  | .agingTick => true
  | _ => false

/-- The longest time a process of a level waits before it stops aging. -/
def longestWait : QueueLevel → Nat
  | .system => 0
  | .interactive => 15
  | .background => 30

/-- The priority of a process of a level once it has waited for some time. -/
def agedPriority (level : QueueLevel) (wait : Nat) : Int :=
  defaultPriority level - (wait / 5 : Nat)

/-- The level to which a process of a level has risen once it has waited for some time. -/
def agedLevel : QueueLevel → Nat → QueueLevel
  | .system, _ => .system
  | .interactive, wait => if wait < 15 then .interactive else .system
  | .background, wait =>
    if wait < 25 then .background else if wait < 30 then .interactive else .system

/-- Waiting time, priority and level of a process agree with the level it was created with. -/
structure AgedFrom (level : QueueLevel) (p : Process) : Prop where
  wait : p.waitTime ≤ longestWait level
  priority : p.priority = agedPriority level p.waitTime
  risen : p.queueLevel = agedLevel level p.waitTime

theorem longestWait_le (level : QueueLevel) : longestWait level ≤ 30 := by
  cases level <;> decide

/-- A process is at the system level once it has waited for the longest time. -/
theorem agedLevel_system_iff {level : QueueLevel} {wait : Nat} (bounded : wait ≤ longestWait level) :
    agedLevel level wait = .system ↔ wait = longestWait level := by
  -- The levels differ in the thresholds that are still to be passed.
  cases level with
  | system => simp_all [agedLevel, longestWait]
  | interactive =>
    simp only [agedLevel, longestWait] at bounded ⊢
    split <;> simp <;> omega
  | background =>
    simp only [agedLevel, longestWait] at bounded ⊢
    split
    · simp
      omega
    · split <;> simp <;> omega

/-- Until then its priority number is positive. -/
theorem agedPriority_pos {level : QueueLevel} {wait : Nat} (young : wait < longestWait level) :
    0 < agedPriority level wait := by
  cases level <;> simp only [longestWait, agedPriority, defaultPriority, defaultPriorityQ0,
    defaultPriorityQ1, defaultPriorityQ2] at young ⊢ <;> omega

/-- Every fifth second of waiting takes one from the priority. -/
theorem agedPriority_succ (level : QueueLevel) (wait : Nat) :
    agedPriority level (wait + 1) =
      if (wait + 1) % 5 = 0 then agedPriority level wait - 1 else agedPriority level wait := by
  unfold agedPriority
  split <;> omega

/-- A level is left in the fifth second that brings the priority down to one, or to zero. -/
theorem agedLevel_succ {level : QueueLevel} {wait : Nat} (young : wait < longestWait level) :
    agedLevel level (wait + 1) =
      if (wait + 1) % 5 = 0 then
        if agedPriority level (wait + 1) ≤ 1 ∧ agedLevel level wait = .background then .interactive
        else if agedPriority level (wait + 1) = 0 ∧ agedLevel level wait = .interactive then .system
        else agedLevel level wait
      else agedLevel level wait := by
  cases level with
  | system => exact absurd young (Nat.not_lt_zero _)
  | interactive =>
    simp only [longestWait, agedPriority, agedLevel, defaultPriority, defaultPriorityQ1] at young ⊢
    split_ifs <;> simp_all <;> omega
  | background =>
    simp only [longestWait, agedPriority, agedLevel, defaultPriority, defaultPriorityQ2] at young ⊢
    split_ifs <;> simp_all <;> omega

/-- The scheduler takes a process for one that ages. -/
def Ages (p : Process) : Prop := looksAging p.state = true ∧ p.queueLevel ≠ .system

theorem ageProcess_of_not_ages {p : Process} (idle : ¬ Ages p) : (ageProcess p).1 = p := by
  unfold Ages at idle
  unfold ageProcess
  rw [if_neg idle]

theorem ageProcess_wait {p : Process} (ages : Ages p) :
    (ageProcess p).1.waitTime = p.waitTime + 1 := by
  unfold Ages at ages
  unfold ageProcess
  rw [if_pos ages]
  -- The branches write the priority and the level only.
  dsimp only
  repeat' split
  all_goals rfl

theorem ageProcess_priority {p : Process} (ages : Ages p) :
    (ageProcess p).1.priority =
      if (p.waitTime + 1) % 5 = 0 ∧ 0 < p.priority then p.priority - 1 else p.priority := by
  unfold Ages at ages
  unfold ageProcess
  rw [if_pos ages]
  simp only [agingInterval]
  repeat' split
  all_goals simp_all

theorem ageProcess_queueLevel {p : Process} (ages : Ages p) :
    (ageProcess p).1.queueLevel =
      if (p.waitTime + 1) % 5 = 0 then
        if (ageProcess p).1.priority ≤ 1 ∧ p.queueLevel = .background then .interactive
        else if (ageProcess p).1.priority = 0 ∧ p.queueLevel = .interactive then .system
        else p.queueLevel
      else p.queueLevel := by
  unfold Ages at ages
  unfold ageProcess
  rw [if_pos ages]
  simp only [agingInterval, q0PromoteThresh]
  repeat' split
  all_goals simp_all

/-- Nothing that happens to a process takes waiting time back. -/
theorem RowEdit.wait_le {op : KernelOp} {p after : Process} (edited : RowEdit op p after) :
    p.waitTime ≤ after.waitTime := by
  cases edited with
  | aged ticked =>
    by_cases ages : Ages p
    · rw [ageProcess_wait ages]
      exact Nat.le_succ _
    · rw [ageProcess_of_not_ages ages]
  | _ => exact Nat.le_refl _

/-- A process starts on its closed form. -/
theorem agedFrom_new {p : Process} (unaged : p.waitTime = 0)
    (ranked : p.priority = defaultPriority p.queueLevel) : AgedFrom p.queueLevel p := by
  refine ⟨?_, ?_, ?_⟩
  · rw [unaged]
    exact Nat.zero_le _
  · rw [unaged, ranked]
    simp [agedPriority]
  · rw [unaged]
    cases p.queueLevel <;> rfl

/-- An aging tick keeps a process on its closed form. -/
theorem AgedFrom.aged {level : QueueLevel} {p : Process} (form : AgedFrom level p) :
    AgedFrom level (ageProcess p).1 := by
  by_cases ages : Ages p
  -- A process that ages is below the system level, so it has not waited for the longest time.
  · have young : p.waitTime < longestWait level := by
      refine Nat.lt_of_le_of_ne form.wait fun longest => ages.2 ?_
      rw [form.risen]
      exact (agedLevel_system_iff form.wait).mpr longest
    have wait := ageProcess_wait ages
    have priority : (ageProcess p).1.priority = agedPriority level (p.waitTime + 1) := by
      have positive := agedPriority_pos young
      rw [ageProcess_priority ages, form.priority, agedPriority_succ]
      simp only [positive, and_true]
    refine ⟨?_, ?_, ?_⟩
    · rw [wait]
      exact young
    · rw [wait]
      exact priority
    · rw [wait, ageProcess_queueLevel ages, priority, form.risen, agedLevel_succ young]
  · rw [ageProcess_of_not_ages ages]
    exact form

/-- Whatever else a step does to a process, it keeps it on its closed form. -/
theorem AgedFrom.edited {level : QueueLevel} {op : AgingOp} {p after : Process}
    (form : AgedFrom level p) (edited : RowEdit op.toKernelOp p after) : AgedFrom level after := by
  cases edited with
  | kept still => exact form
  | moved still text core known => exact ⟨form.wait, form.priority, form.risen⟩
  | ranked pid priority asked =>
    -- None of these steps changes a priority on request.
    cases op <;> cases asked
  | aged ticked => exact form.aged

namespace Chronicle

def agingStep (c : Chronicle) (op : AgingOp) : Chronicle := c.step op.toKernelOp

/-- The process of a number is in the table and READY. -/
def IsReady (c : Chronicle) (number : Nat) : Prop :=
  ∃ record ∈ c.records, record.1.number = number ∧ record.2.state = stateReady

/-- What aging guarantees in a state and over a segment of the run from there. -/
structure AgingLaw (c : Chronicle) (segment : List AgingOp) : Prop where
  /-- Every process is on the closed form of the level it was created with. -/
  closed : ∀ record ∈ c.records, AgedFrom record.1.level record.2
  /-- No waiting time comes near the end of its range. -/
  bounded : ∀ record ∈ c.records, record.2.waitTime ≤ 30
  /-- No level goes down. -/
  rising : ∀ before ∈ c.records, ∀ after ∈ (Machine.run agingStep c segment).records,
    after.1.number = before.1.number → after.2.queueLevel.rank ≤ before.2.queueLevel.rank
  /-- Who stays READY through thirty aging ticks is in the system queue. -/
  served : ∀ number, Machine.Throughout agingStep (fun c => c.IsReady number) c segment →
    30 ≤ segment.countP AgingOp.isAgingTick →
    number ∈ (Machine.run agingStep c segment).line .system

theorem aged_step {c : Chronicle} (numbered : Numbered c)
    (closed : ∀ record ∈ c.records, AgedFrom record.1.level record.2) (op : AgingOp) :
    ∀ record ∈ (c.agingStep op).records, AgedFrom record.1.level record.2 := by
  intro record member
  unfold agingStep at member
  cases step_records numbered op.toKernelOp with
  | keeps edit births created records =>
    obtain ⟨before, listed, birth, edited⟩ := Tagged.exists_before records member
    rw [birth]
    exact (closed before listed).edited edited
  | adds p edit ready unaged ranked births created records =>
    rw [records, List.mem_append, List.mem_singleton] at member
    rcases member with old | rfl
    · exact closed record old
    · -- Only a request adds a process, with the default priority of its level.
      refine agedFrom_new unaged ?_
      cases op with
      | handleIpcRequest childPid stack message => exact ranked childPid stack message rfl
      | removePcb pid =>
        simp only [AgingOp.toKernelOp, Kernel.tableEdit, Kernel.dropped] at edit
        split at edit <;> cases edit
      | _ => cases edit
  | drops slot edit live births created records =>
    rw [records] at member
    exact closed record (List.mem_of_mem_eraseIdx member)

/-- A READY process that is below the system level after a step was so before, and has waited on. -/
theorem waited_step {c : Chronicle} (numbered : Numbered c) {op : AgingOp}
    {before after : Birth × Process} (listed : before ∈ c.records)
    (listed' : after ∈ (c.agingStep op).records) (same : after.1.number = before.1.number)
    (ready : before.2.state = stateReady) (below : after.2.queueLevel ≠ .system) :
    before.2.queueLevel ≠ .system ∧
      before.2.waitTime + (if op.isAgingTick then 1 else 0) ≤ after.2.waitTime := by
  obtain ⟨origin, member, birth, edited⟩ := numbered.came_from op.toKernelOp listed' (by
    rw [same]
    exact numbered.record_lt_created listed)
  obtain rfl : origin = before := numbered.record_eq member listed (by rw [birth, same])
  -- A system process would have stayed one.
  have above : origin.2.queueLevel ≠ .system := by
    intro system
    have rank := edited.rank_le
    rw [system] at rank
    exact below (QueueLevel.eq_system rank)
  refine ⟨above, ?_⟩
  cases op with
  | agingTick =>
    rw [edited.aged_eq, ageProcess_wait ⟨by rw [ready]; decide, above⟩]
    exact Nat.le_refl _
  | _ => simpa [AgingOp.isAgingTick] using edited.wait_le

/-- A process that is READY throughout a segment waits through its aging ticks, or is a system one. -/
theorem waited_run (segment : List AgingOp) {c : Chronicle} (numbered : Numbered c)
    {before : Birth × Process} (listed : before ∈ c.records)
    (ready : Machine.Throughout agingStep (fun c => c.IsReady before.1.number) c segment) :
    ∃ after ∈ (Machine.run agingStep c segment).records, after.1.number = before.1.number ∧
      (after.2.queueLevel ≠ .system → before.2.queueLevel ≠ .system ∧
        before.2.waitTime + segment.countP AgingOp.isAgingTick ≤ after.2.waitTime) := by
  induction segment generalizing c before with
  | nil => exact ⟨before, listed, rfl, fun below => ⟨below, Nat.le_refl _⟩⟩
  | cons op rest ih =>
    obtain ⟨⟨first, member, same, isReady⟩, later⟩ := ready
    obtain rfl : first = before := numbered.record_eq member listed same
    -- The process is still there after the first step, and from there on the rest counts.
    obtain ⟨next, nextListed, nextSame, -⟩ := Machine.throughout_iff_reached.mp later [] List.nil_prefix
    rw [← nextSame] at later
    obtain ⟨after, listed', same', waited⟩ := ih (numbered.step op.toKernelOp) nextListed later
    refine ⟨after, listed', same'.trans nextSame, fun below => ?_⟩
    obtain ⟨nextBelow, longer⟩ := waited below
    obtain ⟨firstBelow, waitedHere⟩ :=
      waited_step numbered listed nextListed nextSame isReady nextBelow
    rw [List.countP_cons]
    exact ⟨firstBelow, by omega⟩

/-- A process that is in the table after a segment and was created before it came from a lower level. -/
theorem risen_run (segment : List AgingOp) {c : Chronicle} (numbered : Numbered c)
    {after : Birth × Process} (listed : after ∈ (Machine.run agingStep c segment).records)
    (old : after.1.number < c.created) : ∃ before ∈ c.records,
      before.1.number = after.1.number ∧ after.2.queueLevel.rank ≤ before.2.queueLevel.rank := by
  -- The process is traced back from step to step, none of which lowers its level.
  induction segment generalizing c with
  | nil => exact ⟨after, listed, rfl, Nat.le_refl _⟩
  | cons op rest ih =>
    have numbered' : Numbered (c.agingStep op) := numbered.step op.toKernelOp
    have older := Nat.lt_of_lt_of_le old (c.created_le op.toKernelOp)
    obtain ⟨next, member, same, rank⟩ := ih numbered' listed older
    obtain ⟨before, member', birth, edited⟩ :=
      numbered.came_from op.toKernelOp member (by rw [same]; exact old)
    exact ⟨before, member', by rw [birth, same], Nat.le_trans rank edited.rank_le⟩

/-- Along a run of requests, aging keeps its closed form, and with it what it promises. -/
theorem agingLaw_run (ramMb hddMb cores : Int) (ops segment : List AgingOp) :
    AgingLaw (Machine.run agingStep (boot ramMb hddMb cores) ops) segment := by
  -- The closed form rests on the births, and who is in queue_Q0 on the order of the table.
  have preserved : ∀ c op, (Numbered c ∧ c.kernel.InTableOrder ∧
      ∀ record ∈ c.records, AgedFrom record.1.level record.2) → Numbered (agingStep c op) ∧
        (agingStep c op).kernel.InTableOrder ∧
        ∀ record ∈ (agingStep c op).records, AgedFrom record.1.level record.2 := by
    intro c op ⟨numbered, ordered, closed⟩
    exact ⟨numbered.step op.toKernelOp, ordered_step numbered ordered op.toKernelOp,
      aged_step numbered closed op⟩
  have initial : Numbered (boot ramMb hddMb cores) ∧
      (boot ramMb hddMb cores).kernel.InTableOrder ∧
      ∀ record ∈ (boot ramMb hddMb cores).records, AgedFrom record.1.level record.2 :=
    ⟨numbered_boot ramMb hddMb cores, Kernel.inTableOrder_boot ramMb hddMb cores,
      fun _ member => absurd member List.not_mem_nil⟩
  have here := Machine.invariant_run preserved initial ops
  have there := Machine.invariant_run preserved here segment
  generalize Machine.run agingStep (boot ramMb hddMb cores) ops = c at here there
  obtain ⟨numbered, -, closed⟩ := here
  obtain ⟨numbered', ordered, closed'⟩ := there
  refine ⟨closed, fun record member => ?_, fun before listed after listed' same => ?_,
    fun number ready enough => ?_⟩
  · exact Nat.le_trans (closed record member).wait (longestWait_le _)
  -- A process of both states is traced back to its record in the first.
  · obtain ⟨origin, member, same', rank⟩ := risen_run segment numbered listed' (by
      rw [same]
      exact numbered.record_lt_created listed)
    obtain rfl : origin = before := numbered.record_eq member listed (same'.trans same)
    exact rank
  · obtain ⟨before, listed, rfl, -⟩ := Machine.throughout_iff_reached.mp ready [] List.nil_prefix
    obtain ⟨after, member, same, waited⟩ := waited_run segment numbered listed ready
    -- Below the system level it would have waited for longer than the longest time.
    have form := closed' after member
    have system : after.2.queueLevel = .system := by
      by_contra below
      have longest := longestWait_le after.1.level
      have reached : after.2.waitTime = longestWait after.1.level := by
        have := (waited below).2
        have := form.wait
        omega
      rw [form.risen] at below
      exact below ((agedLevel_system_iff form.wait).mpr reached)
    rw [line, ordered .system (by decide), ← numbered'.roll_eq, roll]
    exact List.mem_map.mpr ⟨after, List.mem_filter.mpr ⟨member, by simp [system]⟩, same⟩

end Chronicle

namespace Kernel

/-- The process of a slot is in the table and RUNNING. -/
def IsRunning (k : Kernel) (slot : Slot) : Prop :=
  slot.val < k.pcbCount ∧ (k.pcb slot).state = stateRunning

instance (k : Kernel) (slot : Slot) : Decidable (k.IsRunning slot) :=
  inferInstanceAs (Decidable (_ ∧ _))

/-- A process that is RUNNING throughout some aging ticks keeps its waiting time, priority and level. -/
def KeepsAge (k : Kernel) (slot : Slot) (ticks : List KernelOp) : Prop :=
  Machine.Throughout step (fun k => k.IsRunning slot) k ticks →
    ((Machine.run step k ticks).pcb slot).waitTime = (k.pcb slot).waitTime ∧
      ((Machine.run step k ticks).pcb slot).priority = (k.pcb slot).priority ∧
      ((Machine.run step k ticks).pcb slot).queueLevel = (k.pcb slot).queueLevel

/-- An aging tick ages every live slot in its place. -/
theorem agingTick_pcb (k : Kernel) {slot : Slot} (live : slot.val < k.pcbCount) :
    k.agingTick.pcb slot = (ageProcess (k.pcb slot)).1 := by
  rw [pcb, agingTick_pcbs, SlotArray.get_sweep]
  exact if_pos live

@[simp] theorem agingTick_pcbCount (k : Kernel) : k.agingTick.pcbCount = k.pcbCount := by
  rw [pcbCount, agingTick_pcbs, SlotArray.count_sweep]
  rfl

/-- A RUNNING process stays so through an aging tick. -/
theorem IsRunning.agingTick {k : Kernel} {slot : Slot} (running : k.IsRunning slot) :
    k.agingTick.IsRunning slot := by
  obtain ⟨live, state⟩ := running
  refine ⟨by simpa using live, ?_⟩
  rw [agingTick_pcb k live, ageProcess_keeps]
  exact state

/-- The test that decides who ages reads the R that RUNNING shares with READY. -/
theorem IsRunning.ages_iff {k : Kernel} {slot : Slot} (running : k.IsRunning slot) :
    Ages (k.pcb slot) ↔ (k.pcb slot).queueLevel ≠ .system := by
  unfold Ages
  rw [running.2]
  exact and_iff_right (by decide)

/-- At the system level aging ticks do nothing to a RUNNING process. -/
theorem IsRunning.still {k : Kernel} {slot : Slot} (running : k.IsRunning slot)
    (system : (k.pcb slot).queueLevel = .system) (ticks : Nat) :
    (Machine.run step k (List.replicate ticks .agingTick)).pcb slot = k.pcb slot := by
  induction ticks generalizing k with
  | zero => rfl
  | succ ticks ih =>
    have same : k.agingTick.pcb slot = k.pcb slot := by
      rw [agingTick_pcb k running.1, ageProcess_of_not_ages]
      rw [running.ages_iff]
      exact not_not.mpr system
    rw [List.replicate_succ, Machine.run_cons, step, ih running.agingTick (by rw [same, system]), same]

/-- Below the system level the first of some aging ticks adds to the waiting time for good. -/
theorem IsRunning.drifts {k : Kernel} {slot : Slot} (running : k.IsRunning slot)
    (below : (k.pcb slot).queueLevel ≠ .system) (ticks : Nat) :
    (k.pcb slot).waitTime <
      ((Machine.run step k (List.replicate (ticks + 1) .agingTick)).pcb slot).waitTime := by
  -- The ticks after the first one take nothing back.
  have later : ∀ ticks (k : Kernel), slot.val < k.pcbCount → (k.pcb slot).waitTime ≤
      ((Machine.run step k (List.replicate ticks .agingTick)).pcb slot).waitTime := by
    intro ticks
    induction ticks with
    | zero => exact fun _ _ => Nat.le_refl _
    | succ ticks ih =>
      intro k live
      have aged := RowEdit.wait_le (.aged rfl : RowEdit .agingTick (k.pcb slot) _)
      rw [← agingTick_pcb k live] at aged
      rw [List.replicate_succ, Machine.run_cons]
      exact Nat.le_trans aged (ih k.agingTick (by simpa using live))
  have first : (k.agingTick.pcb slot).waitTime = (k.pcb slot).waitTime + 1 := by
    rw [agingTick_pcb k running.1, ageProcess_wait (running.ages_iff.mpr below)]
  have rest := later ticks k.agingTick (by simpa using running.1)
  rw [List.replicate_succ, Machine.run_cons, step]
  omega

/--
Aging ticks leave a process that runs throughout them as it was exactly when there are none, or it is
at the system level already.
-/
theorem keepsAge_iff (k : Kernel) (slot : Slot) (ticks : Nat) :
    k.KeepsAge slot (List.replicate ticks .agingTick) ↔
      (k.IsRunning slot → ticks = 0 ∨ (k.pcb slot).queueLevel = .system) := by
  constructor
  · intro keeps running
    by_contra drifting
    obtain ⟨some, below⟩ := not_or.mp drifting
    obtain ⟨left, rfl⟩ := Nat.exists_eq_add_one_of_ne_zero some
    -- Nothing stops the process, so it runs throughout.
    have throughout : ∀ ticks (k : Kernel), k.IsRunning slot → Machine.Throughout step
        (fun k => k.IsRunning slot) k (List.replicate ticks .agingTick) := by
      intro ticks
      induction ticks with
      | zero => exact fun _ running => running
      | succ ticks ih => exact fun k running => ⟨running, ih k.agingTick running.agingTick⟩
    have same := (keeps (throughout _ k running)).1
    have grown := running.drifts below left
    omega
  · intro condition runs
    have running : k.IsRunning slot := Machine.throughout_iff_reached.mp runs [] List.nil_prefix
    rcases condition running with rfl | system
    · exact ⟨rfl, rfl, rfl⟩
    · rw [running.still system]
      exact ⟨rfl, rfl, rfl⟩

/-- A background process that is dispatched once is promoted by the ticks it runs through. -/
theorem running_process_ages :
    ¬ (Machine.run step (boot 1024 1024 1)
      [.createPcb 101 (CText.ascii "Music Player") 6 20 5, .schedulerTick]).KeepsAge ⟨0, by decide⟩
        (List.replicate 25 .agingTick) := by
  intro keeps
  have same := keeps (by decide +kernel)
  revert same
  decide +kernel

end Kernel

end Nebula
