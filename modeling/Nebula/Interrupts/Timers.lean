import Nebula.Kernel.Rows
import Nebula.Library.Machine

/-! The kernel with its sleeping unblock timers: every blocked process has one that will wake it. -/

namespace Nebula

open CText

/-- A thread of unblock_after_delay that is still asleep. -/
structure Timer where
  /-- How many timers had been started before it. -/
  number : Nat
  pid : Int
  deriving DecidableEq, Repr

/--
The kernel with its sleeping timers.

No step reads the blockers, which only remember who blocked each process.
-/
structure TimedKernel where
  kernel : Kernel
  timers : List Timer
  /-- How many timers have been started so far. -/
  started : Nat
  /-- For each live slot, the timer of the interrupt that last put its process into BLOCKED. -/
  blockers : List (Option Nat)

/-- What creates, removes, schedules, blocks and wakes processes. -/
inductive TimedOp where
  | createPcb (pid : Int) (name : Bytes) (priority ram hdd : Int)
  | removePcb (pid : Int)
  | schedulerTick
  | agingTick
  | sendInterrupt (pid : Int)
  | sendMinimize (pid : Int)
  | sendResume (pid : Int)
  /-- The timer with a number wakes up. -/
  | fire (number : Nat)

namespace TimedKernel

/-- A step of the kernel that starts no timer, with the blockers moved as the rows of the table are. -/
def follow (t : TimedKernel) (op : KernelOp) : TimedKernel :=
  { t with
    kernel := t.kernel.step op
    blockers :=
      match t.kernel.tableEdit op with
      | .keeps => t.blockers
      | .adds _ => t.blockers ++ [none]
      | .drops slot => t.blockers.eraseIdx slot.val }

/-- send_interrupt, which starts a timer for the pid if it finds a RUNNING process. -/
def interrupt (t : TimedKernel) (pid : Int) : TimedKernel :=
  match t.kernel.findPcb fun p => p.pid == pid && looksRunning p.state with
  | none => t
  | some slot =>
    { kernel := t.kernel.step (.sendInterrupt pid)
      timers := t.timers ++ [⟨t.started, pid⟩]
      started := t.started + 1
      blockers := t.blockers.set slot.val (some t.started) }

/-- The rest of unblock_after_delay when the sleep of a timer is over. -/
def fire (t : TimedKernel) (number : Nat) : TimedKernel :=
  match t.timers.find? fun timer => timer.number == number with
  | none => t
  | some timer =>
    { t with
      kernel := t.kernel.step (.unblockAfterDelay timer.pid)
      timers := t.timers.filter fun other => other.number != number }

def step (t : TimedKernel) : TimedOp → TimedKernel
  | .createPcb pid name priority ram hdd => t.follow (.createPcb pid name priority ram hdd)
  | .removePcb pid => t.follow (.removePcb pid)
  | .schedulerTick => t.follow .schedulerTick
  | .agingTick => t.follow .agingTick
  | .sendInterrupt pid => t.interrupt pid
  | .sendMinimize pid => t.follow (.sendMinimize pid)
  | .sendResume pid => t.follow (.sendResume pid)
  | .fire number => t.fire number

/-- The configured machine, on which no timer was started yet. -/
def boot (ramMb hddMb cores : Int) : TimedKernel := ⟨Kernel.boot ramMb hddMb cores, [], 0, []⟩

/-- The number of BLOCKED processes with a pid. -/
def blockedCount (t : TimedKernel) (pid : Int) : Nat :=
  t.kernel.pcbs.entries.countP fun p => p.pid == pid && looksBlocked p.state

/-- The number of sleeping timers for a pid. -/
def pendingCount (t : TimedKernel) (pid : Int) : Nat := t.timers.countP fun timer => timer.pid == pid

/-- The live processes with their blockers. -/
def rows (t : TimedKernel) : List (Option Nat × Process) := t.blockers.zip t.kernel.pcbs.entries

end TimedKernel

/-- A process keeps its pid and does not become BLOCKED. -/
def Calm (p after : Process) : Prop :=
  after.pid = p.pid ∧ (looksBlocked after.state = true → looksBlocked p.state = true)

theorem Calm.refl (p : Process) : Calm p p := ⟨rfl, id⟩

/-- Getting a state text that is not BLOCKED is calm, whatever the core number. -/
theorem calm_setState (p : Process) (text : Bytes) (other : looksBlocked (copyInto maxState text) = false)
    (core : Int) : Calm p { p.setState text with coreId := core } := by
  refine ⟨rfl, fun blocked => ?_⟩
  -- The state after the write is the text that was copied.
  have state : looksBlocked (copyInto maxState text) = true := blocked
  rw [other] at state
  cases state

theorem calm_age (p : Process) : Calm p (ageProcess p).1 := by
  -- Aging writes neither the pid nor the state.
  rw [Kernel.ageProcess_keeps]
  exact Calm.refl p

namespace Kernel

/-- A table that differs in one slot, calmly, is calm as a whole. -/
private theorem calm_set {k k' : Kernel} {slot : Slot} {p : Process}
    (written : k'.pcbs = k.pcbs.set slot p) (calm : Calm (k.pcb slot) p) :
    List.Forall₂ Calm k.pcbs.entries k'.pcbs.entries := by
  rw [written]
  exact SlotArray.forall₂_entries_set Calm.refl _ _ fun _ => calm

private theorem calm_same {k k' : Kernel} (same : k'.pcbs = k.pcbs) :
    List.Forall₂ Calm k.pcbs.entries k'.pcbs.entries := by
  rw [same]
  exact List.forall₂_same.mpr fun p _ => Calm.refl p

/-- A search loop that writes a state text other than BLOCKED is calm. -/
private theorem calm_minimize (k : Kernel) (pid : Int) :
    List.Forall₂ Calm k.pcbs.entries (k.sendMinimize pid).pcbs.entries := by
  unfold sendMinimize
  split
  · exact calm_same rfl
  · rw [stopped_eq]
    exact calm_set rfl (calm_setState _ _ (by simp) _)

private theorem calm_resume (k : Kernel) (pid : Int) :
    List.Forall₂ Calm k.pcbs.entries (k.sendResume pid).pcbs.entries := by
  unfold sendResume
  split
  · exact calm_same rfl
  · exact calm_set rfl (calm_setState _ stateRunning (by simp) _)

theorem calm_unblock (k : Kernel) (pid : Int) :
    List.Forall₂ Calm k.pcbs.entries (k.unblockAfterDelay pid).pcbs.entries := by
  unfold unblockAfterDelay
  split
  · exact calm_same rfl
  · exact calm_set rfl (calm_setState _ stateReady (by simp) _)

private theorem calm_schedulerTick (k : Kernel) :
    List.Forall₂ Calm k.pcbs.entries k.schedulerTick.pcbs.entries := by
  have table := k.schedulerTick_pcbs
  cases target : k.dispatchTarget with
  | none =>
    rw [target] at table
    exact calm_same table
  | some slot =>
    rw [target] at table
    exact calm_set table (calm_setState _ _ (by simp) _)

private theorem calm_agingTick (k : Kernel) :
    List.Forall₂ Calm k.pcbs.entries k.agingTick.pcbs.entries := by
  rw [agingTick_pcbs]
  refine (SlotArray.forall₂_entries_sweep ageProcess k.pcbs).imp fun before after aged => ?_
  rw [aged]
  exact calm_age before

end Kernel

namespace TimedKernel

/-- What a step can do to the timers and to the processes they are for. -/
inductive Turn (op : TimedOp) (t t' : TimedKernel) : Prop where
  | keeps (timers : t'.timers = t.timers) (started : t'.started = t.started)
      (blockers : t'.blockers = t.blockers)
      (rows : List.Forall₂ Calm t.kernel.pcbs.entries t'.kernel.pcbs.entries)
  | adds (p : Process) (ready : p.state = stateReady) (timers : t'.timers = t.timers)
      (started : t'.started = t.started) (blockers : t'.blockers = t.blockers ++ [none])
      (rows : t'.kernel.pcbs.entries = t.kernel.pcbs.entries ++ [p])
  | drops (index : Nat) (timers : t'.timers = t.timers) (started : t'.started = t.started)
      (blockers : t'.blockers = t.blockers.eraseIdx index)
      (rows : t'.kernel.pcbs.entries = t.kernel.pcbs.entries.eraseIdx index)
  /-- A RUNNING process is blocked, and a timer for it is started. -/
  | blocks (slot : Slot) (live : slot.val < t.kernel.pcbs.count) (p : Process)
      (asked : op = .sendInterrupt p.pid)
      (found : t.kernel.findPcb (fun q => q.pid == p.pid && looksRunning q.state) = some slot)
      (blocked : p.state = stateBlocked)
      (timers : t'.timers = t.timers ++ [⟨t.started, p.pid⟩]) (started : t'.started = t.started + 1)
      (blockers : t'.blockers = t.blockers.set slot.val (some t.started))
      (rows : t'.kernel.pcbs.entries = t.kernel.pcbs.entries.set slot.val p)
  /-- A timer wakes up, and the kernel looks for a process that it can unblock. -/
  | wakes (timer : Timer) (pending : timer ∈ t.timers)
      (timers : t'.timers = t.timers.filter fun other => other.number != timer.number)
      (started : t'.started = t.started) (blockers : t'.blockers = t.blockers)
      (kernel : t'.kernel = t.kernel.unblockAfterDelay timer.pid)

/-- A step that only writes calmly, or that adds or removes a process, turns as its edit says. -/
private theorem follow_turn (t : TimedKernel) {asked : TimedOp} {op : KernelOp}
    (calm : t.kernel.tableEdit op = .keeps →
      List.Forall₂ Calm t.kernel.pcbs.entries (t.kernel.step op).pcbs.entries) :
    Turn asked t (t.follow op) := by
  have table := t.kernel.step_table op
  unfold follow
  generalize t.kernel.tableEdit op = edit at table calm
  cases table with
  | keeps rows => exact .keeps rfl rfl rfl (calm rfl)
  | adds p ready unaged room ranked rows => exact .adds p ready rfl rfl rfl rows
  | drops slot live rows => exact .drops slot.val rfl rfl rfl rows

private theorem interrupt_turn (t : TimedKernel) (pid : Int) : Turn (.sendInterrupt pid) t (t.interrupt pid) := by
  unfold interrupt
  split
  · exact .keeps rfl rfl rfl (List.forall₂_same.mpr fun p _ => Calm.refl p)
  · rename_i slot found
    obtain ⟨live, passes⟩ := Kernel.findPcb_some found
    simp only [Bool.and_eq_true, beq_iff_eq] at passes
    obtain ⟨rfl, -⟩ := passes
    -- The two writes of the loop come to one, of a process that is BLOCKED and has no core.
    let blocked : Process := { (t.kernel.pcb slot).setState stateBlocked with
      coreId := if (t.kernel.pcb slot).coreId ≥ 0 then -1 else (t.kernel.pcb slot).coreId }
    have table : (t.kernel.step (.sendInterrupt (t.kernel.pcb slot).pid)).pcbs =
        t.kernel.pcbs.set slot blocked := by
      simp only [Kernel.step, Kernel.sendInterrupt, found, Kernel.stopped_eq, blocked]
    refine .blocks slot live blocked rfl found copyInto_states.2.2.1 rfl rfl rfl ?_
    show (t.kernel.step (.sendInterrupt (t.kernel.pcb slot).pid)).pcbs.entries = _
    rw [table, SlotArray.entries_set]

private theorem fire_turn (t : TimedKernel) (number : Nat) : Turn (.fire number) t (t.fire number) := by
  unfold fire
  split
  · exact .keeps rfl rfl rfl (List.forall₂_same.mpr fun p _ => Calm.refl p)
  · rename_i timer found
    have numbered : timer.number = number := by simpa using List.find?_some found
    refine .wakes timer (List.mem_of_find?_eq_some found) ?_ rfl rfl rfl
    rw [numbered]

/-- Every step turns in one of the listed ways. -/
theorem step_turn (t : TimedKernel) (op : TimedOp) : Turn op t (t.step op) := by
  have same : List.Forall₂ Calm t.kernel.pcbs.entries t.kernel.pcbs.entries :=
    List.forall₂_same.mpr fun p _ => Calm.refl p
  cases op with
  | createPcb pid name priority ram hdd =>
    refine t.follow_turn fun keeps => ?_
    -- Only a full table keeps its rows.
    by_cases room : t.kernel.pcbs.count < maxProcesses
    · simp [Kernel.tableEdit, Kernel.added, room] at keeps
    · rw [Kernel.step, Kernel.createPcb_full room]
      exact same
  | removePcb pid =>
    refine t.follow_turn fun keeps => ?_
    cases found : t.kernel.findPcb fun p => p.pid == pid with
    | none =>
      rw [Kernel.step, Kernel.removePcb_none (Kernel.deletePcb_none found)]
      exact same
    | some slot => simp [Kernel.tableEdit, Kernel.dropped, found] at keeps
  | schedulerTick => exact t.follow_turn fun _ => t.kernel.calm_schedulerTick
  | agingTick => exact t.follow_turn fun _ => t.kernel.calm_agingTick
  | sendInterrupt pid => exact t.interrupt_turn pid
  | sendMinimize pid => exact t.follow_turn fun _ => t.kernel.calm_minimize pid
  | sendResume pid => exact t.follow_turn fun _ => t.kernel.calm_resume pid
  | fire number => exact t.fire_turn number

/-- No pid has more BLOCKED processes than sleeping timers, whose numbers are all different. -/
structure Counted (t : TimedKernel) : Prop where
  enough : ∀ pid, t.blockedCount pid ≤ t.pendingCount pid
  older : ∀ timer ∈ t.timers, timer.number < t.started
  distinct : (t.timers.map Timer.number).Nodup

theorem counted_boot (ramMb hddMb cores : Int) : Counted (boot ramMb hddMb cores) :=
  ⟨fun _ => Nat.le_refl _, fun _ member => absurd member List.not_mem_nil, List.nodup_nil⟩

/-- Calm rows have no more BLOCKED processes of a pid than before. -/
theorem blockedCount_calm {t t' : TimedKernel}
    (rows : List.Forall₂ Calm t.kernel.pcbs.entries t'.kernel.pcbs.entries) (pid : Int) :
    t'.blockedCount pid ≤ t.blockedCount pid := by
  -- A process that counts afterwards has counted before.
  refine Tagged.countP_le (rows.imp fun p after calm passes => ?_)
  simp only [Bool.and_eq_true, beq_iff_eq] at passes ⊢
  exact ⟨calm.1 ▸ passes.1, calm.2 passes.2⟩

/-- The timer that wakes up is one of the sleeping ones, and the others go on sleeping. -/
theorem Counted.wake {t : TimedKernel} (counted : Counted t) {timer : Timer} (pending : timer ∈ t.timers) :
    t.timers.Perm (timer :: t.timers.filter fun other => other.number != timer.number) := by
  -- Numbers tell the timers apart, so the filter drops this one only.
  have alone : (t.timers.filter fun other => other.number != timer.number) = t.timers.erase timer := by
    rw [List.Nodup.erase_eq_filter (List.Nodup.of_map _ counted.distinct)]
    apply List.filter_congr
    intro other member
    have apart := List.inj_on_of_nodup_map counted.distinct member pending
    rw [Bool.eq_iff_iff, bne_iff_ne, bne_iff_ne]
    exact not_congr ⟨fun same => apart same, congrArg Timer.number⟩
  rw [alone]
  exact List.perm_cons_erase pending

/-- A wake-up that finds no process leaves the table as it is. -/
theorem unblock_none {k : Kernel} {pid : Int}
    (absent : k.findPcb (fun p => p.pid == pid && looksBlocked p.state) = none) :
    k.unblockAfterDelay pid = k := by
  simp [Kernel.unblockAfterDelay, absent]

/-- A wake-up makes the process it finds READY. -/
theorem unblock_some {k : Kernel} {pid : Int} {slot : Slot}
    (found : k.findPcb (fun p => p.pid == pid && looksBlocked p.state) = some slot) :
    (k.unblockAfterDelay pid).pcbs = k.pcbs.set slot ((k.pcb slot).setState stateReady) := by
  simp [Kernel.unblockAfterDelay, found, Kernel.setState, Kernel.setPcb]

/-- A wake-up takes one off the BLOCKED processes of its pid, if there are any. -/
theorem blockedCount_wake {t t' : TimedKernel} {pid : Int}
    (kernel : t'.kernel = t.kernel.unblockAfterDelay pid) :
    t'.blockedCount pid = t.blockedCount pid - 1 := by
  unfold blockedCount
  rw [kernel]
  cases found : t.kernel.findPcb fun p => p.pid == pid && looksBlocked p.state with
  | none =>
    -- Where the search finds no process, none counts.
    have none : (t.kernel.pcbs.entries.countP fun p => p.pid == pid && looksBlocked p.state) = 0 := by
      rw [List.countP_eq_zero]
      intro p member
      obtain ⟨slot, live, rfl⟩ := SlotArray.mem_entries.mp member
      simpa [Kernel.pcb] using Kernel.findPcb_none.mp found slot live
    rw [unblock_none found, none]
  | some slot =>
    obtain ⟨live, passes⟩ := Kernel.findPcb_some found
    -- The process that was found counts no more, and the others count as they did.
    have inside : slot.val < t.kernel.pcbs.entries.length := by simpa using live
    have here : t.kernel.pcbs.entries[slot.val] = t.kernel.pcb slot :=
      (List.getElem_eq_iff inside).mpr (t.kernel.pcbs.getElem?_entries slot live)
    have woken : looksBlocked ((t.kernel.pcb slot).setState stateReady).state = false := by
      rw [Process.setState, copyInto_states.1]
      exact looksBlocked_states.1
    rw [unblock_some found, SlotArray.entries_set, List.countP_set inside, here, passes, woken]
    simp

theorem Counted.step {t : TimedKernel} (counted : Counted t) (op : TimedOp) : Counted (t.step op) := by
  obtain ⟨enough, older, distinct⟩ := counted
  cases t.step_turn op with
  | keeps timers started blockers rows =>
    refine ⟨fun pid => ?_, by rw [timers, started]; exact older, by rw [timers]; exact distinct⟩
    rw [pendingCount, timers]
    exact Nat.le_trans (blockedCount_calm rows pid) (enough pid)
  | adds p ready timers started blockers rows =>
    refine ⟨fun pid => ?_, by rw [timers, started]; exact older, by rw [timers]; exact distinct⟩
    -- The new process is READY.
    have same : (t.step op).blockedCount pid = t.blockedCount pid := by
      simp [blockedCount, rows, ready]
    rw [same, pendingCount, timers]
    exact enough pid
  | drops index timers started blockers rows =>
    refine ⟨fun pid => ?_, by rw [timers, started]; exact older, by rw [timers]; exact distinct⟩
    have fewer : (t.step op).blockedCount pid ≤ t.blockedCount pid := by
      rw [blockedCount, rows]
      exact (List.eraseIdx_sublist _ _).countP_le
    rw [pendingCount, timers]
    exact Nat.le_trans fewer (enough pid)
  | blocks slot live p asked found blocked timers started blockers rows =>
    have inside : slot.val < t.kernel.pcbs.entries.length := by simpa using live
    refine ⟨fun pid => ?_, ?_, ?_⟩
    -- One process more may be BLOCKED, and it is one of the pid that gets a timer.
    · have more : (t.step op).blockedCount pid ≤ t.blockedCount pid + if p.pid = pid then 1 else 0 := by
        rw [blockedCount, rows, List.countP_set inside, blocked, looksBlocked_states.2.2.1]
        simp only [Bool.and_true, beq_iff_eq]
        have := t.blockedCount pid
        exact Nat.add_le_add_right (Nat.sub_le _ _) _
      have timed : (t.step op).pendingCount pid = t.pendingCount pid + if p.pid = pid then 1 else 0 := by
        simp [pendingCount, timers, List.countP_append, List.countP_cons]
      have := enough pid
      omega
    · intro timer member
      rw [timers, List.mem_append, List.mem_singleton] at member
      rw [started]
      rcases member with old | rfl
      · exact Nat.lt_succ_of_lt (older timer old)
      · exact Nat.lt_succ_self _
    · -- The new number is above all the others.
      rw [timers]
      exact Tagged.nodup_map_snoc distinct fun timer old => Nat.ne_of_lt (older timer old)
  | wakes timer pending timers started blockers kernel =>
    have slept := Counted.wake ⟨enough, older, distinct⟩ pending
    refine ⟨fun pid => ?_, ?_, ?_⟩
    -- The pid of the timer has one process less to wake, if it had any, and one timer less.
    · have left : t.pendingCount pid =
          (t.step op).pendingCount pid + if timer.pid = pid then 1 else 0 := by
        rw [pendingCount, slept.countP_eq, List.countP_cons, pendingCount, timers]
        simp
      have here := enough pid
      by_cases same : timer.pid = pid
      · subst same
        rw [if_pos rfl] at left
        rw [blockedCount_wake kernel]
        omega
      · rw [if_neg same] at left
        have calm := t.kernel.calm_unblock timer.pid
        rw [← kernel] at calm
        have := blockedCount_calm calm pid
        omega
    · intro other member
      rw [timers] at member
      rw [started]
      exact older other (List.mem_of_mem_filter member)
    · rw [timers]
      exact distinct.sublist (List.filter_sublist.map _)

/-- There are timers enough in every state of a run. -/
theorem Counted.run {t : TimedKernel} (counted : Counted t) (ops : List TimedOp) :
    Counted (Machine.run TimedKernel.step t ops) := by
  have kept : ∀ t op, Counted t → Counted (TimedKernel.step t op) := fun _ op here => here.step op
  exact Machine.invariant_run kept counted ops

/-- What is BLOCKED passes the one-letter test, so it counts. -/
theorem blockedCount_pos {t : TimedKernel} {slot : Slot} (live : slot.val < t.kernel.pcbs.count)
    (blocked : (t.kernel.pcb slot).state = stateBlocked) :
    0 < t.blockedCount (t.kernel.pcb slot).pid := by
  refine List.countP_pos_iff.mpr ⟨t.kernel.pcb slot, SlotArray.mem_entries.mpr ⟨slot, live, rfl⟩, ?_⟩
  rw [blocked, looksBlocked_states.2.2.1]
  simp

/-- A BLOCKED process has a sleeping timer for its pid. -/
theorem Counted.timed {t : TimedKernel} (counted : Counted t) {slot : Slot}
    (live : slot.val < t.kernel.pcbs.count) (blocked : (t.kernel.pcb slot).state = stateBlocked) :
    ∃ timer ∈ t.timers, timer.pid = (t.kernel.pcb slot).pid := by
  have pending := Nat.lt_of_lt_of_le (blockedCount_pos live blocked) (counted.enough _)
  simpa using List.countP_pos_iff.mp pending

/-- After a wake-up the timers with other numbers are asleep. -/
theorem fire_timers (t : TimedKernel) (number : Nat) :
    (t.fire number).timers = t.timers.filter fun timer => timer.number != number := by
  unfold fire
  split
  · rename_i absent
    -- No timer has the number, so the filter drops none.
    rw [List.find?_eq_none] at absent
    exact (List.filter_eq_self.mpr fun timer member => by simpa using absent timer member).symm
  · rfl

/-- A wake-up moves no process, and at most makes one READY. -/
theorem fire_slot (t : TimedKernel) (number : Nat) (slot : Slot) :
    (t.fire number).kernel.pcbs.count = t.kernel.pcbs.count ∧
      ((t.fire number).kernel.pcb slot).pid = (t.kernel.pcb slot).pid ∧
      (((t.fire number).kernel.pcb slot).state = (t.kernel.pcb slot).state ∨
        ((t.fire number).kernel.pcb slot).state = stateReady) := by
  unfold fire
  split
  · exact ⟨rfl, rfl, Or.inl rfl⟩
  · rename_i timer _
    show (t.kernel.unblockAfterDelay timer.pid).pcbs.count = _ ∧
      ((t.kernel.unblockAfterDelay timer.pid).pcb slot).pid = _ ∧
      (((t.kernel.unblockAfterDelay timer.pid).pcb slot).state = _ ∨
        ((t.kernel.unblockAfterDelay timer.pid).pcb slot).state = _)
    -- The thread takes the first process of its pid that looks BLOCKED, and only that one's state.
    cases found : t.kernel.findPcb fun p => p.pid == timer.pid && looksBlocked p.state with
    | none =>
      rw [unblock_none found]
      exact ⟨rfl, rfl, Or.inl rfl⟩
    | some other =>
      have written : (t.kernel.unblockAfterDelay timer.pid).pcb slot =
          if other = slot then (t.kernel.pcb other).setState stateReady else t.kernel.pcb slot := by
        rw [Kernel.pcb, unblock_some found, SlotArray.get_set]
        rfl
      refine ⟨by rw [unblock_some found, SlotArray.count_set], ?_⟩
      rw [written]
      split
      · rename_i here
        subst here
        exact ⟨rfl, Or.inr copyInto_states.1⟩
      · exact ⟨rfl, Or.inl rfl⟩

/-- The timers left after some wake-ups, and what those have done to the process of a slot. -/
theorem fires_slot (numbers : List Nat) (t : TimedKernel) (slot : Slot) :
    let t' := Machine.run step t (numbers.map .fire)
    (∀ timer ∈ t'.timers, timer ∈ t.timers ∧ timer.number ∉ numbers) ∧
      t'.kernel.pcbs.count = t.kernel.pcbs.count ∧
      (t'.kernel.pcb slot).pid = (t.kernel.pcb slot).pid ∧
      ((t'.kernel.pcb slot).state = (t.kernel.pcb slot).state ∨
        (t'.kernel.pcb slot).state = stateReady) := by
  -- Each wake-up leaves what the ones after it start from.
  induction numbers generalizing t with
  | nil => exact ⟨fun timer member => ⟨member, List.not_mem_nil⟩, rfl, rfl, Or.inl rfl⟩
  | cons number rest ih =>
    obtain ⟨left, count, pid, state⟩ := ih (t.fire number)
    obtain ⟨countHere, pidHere, stateHere⟩ := t.fire_slot number slot
    refine ⟨fun timer member => ?_, count.trans countHere, pid.trans pidHere, ?_⟩
    · obtain ⟨slept, unlisted⟩ := left timer member
      rw [fire_timers, List.mem_filter, bne_iff_ne] at slept
      refine ⟨slept.1, fun listed => ?_⟩
      rcases List.mem_cons.mp listed with here | later
      · exact slept.2 here
      · exact unlisted later
    · rcases state with same | ready
      · rcases stateHere with sameHere | readyHere
        · exact Or.inl (same.trans sameHere)
        · exact Or.inr (same.trans readyHere)
      · exact Or.inr ready

/-- No process is left in BLOCKED: there are timers enough, and they make it READY. -/
structure NoneStranded (t : TimedKernel) : Prop where
  /-- The BLOCKED processes with a pid are at most as many as its sleeping timers. -/
  counted : ∀ pid, (t.kernel.pcbs.entries.countP fun p => p.pid == pid && p.state == stateBlocked) ≤
    t.pendingCount pid
  timed : ∀ slot : Slot, slot.val < t.kernel.pcbs.count → (t.kernel.pcb slot).state = stateBlocked →
    ∃ timer ∈ t.timers, timer.pid = (t.kernel.pcb slot).pid
  /-- Once the timers for its pid have woken up, in whatever order, a BLOCKED process is READY. -/
  woken : ∀ slot : Slot, slot.val < t.kernel.pcbs.count → (t.kernel.pcb slot).state = stateBlocked →
    ∀ numbers : List Nat,
      (∀ timer ∈ t.timers, timer.pid = (t.kernel.pcb slot).pid → timer.number ∈ numbers) →
      ((Machine.run step t (numbers.map .fire)).kernel.pcb slot).state = stateReady

/-- Enough timers leave no process stranded. -/
theorem Counted.noneStranded {t : TimedKernel} (counted : Counted t) : NoneStranded t := by
  refine ⟨fun pid => ?_, fun slot live blocked => counted.timed live blocked,
    fun slot live blocked numbers all => ?_⟩
  · -- What has the text BLOCKED passes the one-letter test.
    refine Nat.le_trans (List.countP_mono_left fun p _ passes => ?_) (counted.enough pid)
    simp only [Bool.and_eq_true, beq_iff_eq] at passes ⊢
    rw [passes.2]
    exact ⟨passes.1, looksBlocked_states.2.2.1⟩
  · obtain ⟨left, count, pid, state⟩ := fires_slot numbers t slot
    refine state.resolve_left fun same => ?_
    -- No timer for the pid is left, so no process with it is BLOCKED any more.
    have after := counted.run (numbers.map .fire)
    obtain ⟨timer, slept, named⟩ := after.timed (by rw [count]; exact live) (same.trans blocked)
    obtain ⟨old, unlisted⟩ := left timer slept
    exact unlisted (all timer old (named.trans pid))

/-- In every reachable state no process is left in BLOCKED. -/
theorem noneStranded_run (ramMb hddMb cores : Int) (ops : List TimedOp) :
    NoneStranded (Machine.run step (boot ramMb hddMb cores) ops) := by
  exact ((counted_boot ramMb hddMb cores).run ops).noneStranded

end TimedKernel

end Nebula
