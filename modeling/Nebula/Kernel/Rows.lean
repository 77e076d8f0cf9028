import Nebula.Kernel.Effects
import Nebula.Library.Tagged

/-! What a step does to the rows of the process table, one surviving process at a time. -/

namespace Nebula

open CText

/-- The four state texts that the kernel writes. -/
def knownStates : List Bytes := [stateReady, stateRunning, stateBlocked, stateMinimized]

/-- The number of a level, the smaller ones being served first. -/
def QueueLevel.rank : QueueLevel → Nat
  | .system => 0
  | .interactive => 1
  | .background => 2

/-- What a step does to the rows of the table. -/
inductive TableEdit where
  | keeps
  /-- A process of a level is added behind the others. -/
  | adds (level : QueueLevel)
  /-- The process of a slot is removed and the later ones move up. -/
  | drops (slot : Slot)
  deriving DecidableEq, Repr

/-- What a step can do to a process that stays in the table. -/
inductive RowEdit (op : KernelOp) (p : Process) : Process → Prop where
  | kept (still : op ≠ .agingTick) : RowEdit op p p
  /-- Its state text changes to one of the four, perhaps with its core number. -/
  | moved (still : op ≠ .agingTick) (text : Bytes) (core : Int) (known : text ∈ knownStates) :
      RowEdit op p { p with state := text, coreId := core }
  | ranked (pid priority : Int) (asked : op = .setProcessPriority pid priority) :
      RowEdit op p { p with priority := min (max priority 0) 10 }
  | aged (ticked : op = .agingTick) : RowEdit op p (ageProcess p).1

/-- The rows before and after a step with a given edit. -/
inductive TableStep (op : KernelOp) (k k' : Kernel) : TableEdit → Prop where
  | keeps (rows : List.Forall₂ (RowEdit op) k.pcbs.entries k'.pcbs.entries) :
      TableStep op k k' .keeps
  | adds (p : Process) (ready : p.state = stateReady) (unaged : p.waitTime = 0)
      (room : k.pcbs.count < maxProcesses)
      (ranked : ∀ childPid stack message, op = .handleIpcRequest childPid stack message →
        p.priority = defaultPriority p.queueLevel)
      (rows : k'.pcbs.entries = k.pcbs.entries ++ [p]) : TableStep op k k' (.adds p.queueLevel)
  | drops (slot : Slot) (live : slot.val < k.pcbs.count)
      (rows : k'.pcbs.entries = k.pcbs.entries.eraseIdx slot.val) : TableStep op k k' (.drops slot)

/-- On the texts the kernel writes, the two-letter test for READY is exact. -/
theorem looksReady_iff {text : Bytes} (known : text ∈ knownStates) :
    looksReady text = true ↔ text = stateReady := by
  simp only [knownStates, List.mem_cons, List.not_mem_nil, or_false] at known
  rcases known with rfl | rfl | rfl | rfl <;> decide

/-- Aging moves a process to a level that is served earlier, or leaves it at its own. -/
theorem ageProcess_rank_le (p : Process) : (ageProcess p).1.queueLevel.rank ≤ p.queueLevel.rank := by
  unfold ageProcess
  dsimp only
  -- The promotions are the two branches that write the level.
  repeat' split
  all_goals simp_all [QueueLevel.rank]

/-- Whatever happens to a process that stays in the table, its level never goes down. -/
theorem RowEdit.rank_le {op : KernelOp} {p after : Process} (edited : RowEdit op p after) :
    after.queueLevel.rank ≤ p.queueLevel.rank := by
  cases edited with
  | aged ticked => exact ageProcess_rank_le p
  | _ => exact Nat.le_refl _

/-- No level is below that of background processes. -/
theorem QueueLevel.eq_background {level : QueueLevel}
    (rank : QueueLevel.background.rank ≤ level.rank) : level = .background := by
  cases level with
  | background => rfl
  | _ => exact absurd rank (by decide)

/-- No level is above that of system processes. -/
theorem QueueLevel.eq_system {level : QueueLevel} (rank : level.rank ≤ QueueLevel.system.rank) :
    level = .system := by
  cases level with
  | system => rfl
  | _ => exact absurd rank (by decide)

/-- An aging tick ages every process that is in the table. -/
theorem RowEdit.aged_eq {p after : Process} (edited : RowEdit .agingTick p after) :
    after = (ageProcess p).1 := by
  cases edited with
  | kept still => exact absurd rfl still
  | moved still => exact absurd rfl still
  | ranked pid priority asked => cases asked
  | aged ticked => rfl

namespace Kernel

/-- create_pcb adds a row unless the table is full. -/
def added (k : Kernel) (level : QueueLevel) : TableEdit :=
  if k.pcbs.count < maxProcesses then .adds level else .keeps

/-- remove_pcb removes the first row with the pid. -/
def dropped (k : Kernel) (pid : Int) : TableEdit :=
  match k.findPcb fun p => p.pid == pid with
  | none => .keeps
  | some slot => .drops slot

/-- The edit that a step makes to the rows of the table. -/
def tableEdit (k : Kernel) : KernelOp → TableEdit
  | .createPcb _ name _ _ _ => k.added (getQueueLevel name)
  | .removePcb pid => k.dropped pid
  | .handleIpcRequest _ stack message =>
    match requestOf stack message with
    | some request =>
      if (k.allocateResources request.ram request.hdd).1 then k.added (getQueueLevel request.name)
      else .keeps
    | none =>
      match terminationOf message with
      | some pid => k.dropped pid
      | none => .keeps
  | _ => .keeps

/-- A step that leaves the table alone keeps every row. -/
private theorem tableStep_same {op : KernelOp} (still : op ≠ .agingTick) {k k' : Kernel}
    (same : k'.pcbs = k.pcbs) : TableStep op k k' .keeps := by
  refine .keeps ?_
  rw [same]
  exact List.forall₂_same.mpr fun _ _ => .kept still

/-- Writing one of the four state texts into a process, perhaps with a core number, is an edit. -/
private theorem setState_edit {op : KernelOp} (still : op ≠ .agingTick) (p : Process) (text : Bytes)
    (known : text ∈ knownStates) (core : Int) :
    RowEdit op p { p.setState text with coreId := core } := by
  -- The state buffer is long enough for each of them.
  have copied : copyInto maxState text = text := by
    simp only [knownStates, List.mem_cons, List.not_mem_nil, or_false] at known
    rcases known with rfl | rfl | rfl | rfl <;> simp
  rw [Process.setState, copied]
  exact .moved still text core known

/-- A step that writes one slot keeps every row if it may do so to the process there. -/
private theorem tableStep_set {op : KernelOp} (still : op ≠ .agingTick) {k k' : Kernel} {slot : Slot}
    {p : Process} (written : k'.pcbs = k.pcbs.set slot p) (edited : RowEdit op (k.pcb slot) p) :
    TableStep op k k' .keeps := by
  refine .keeps ?_
  rw [written]
  exact SlotArray.forall₂_entries_set (fun _ => .kept still) _ _ fun _ => edited

private theorem createPcb_table {op : KernelOp} (still : op ≠ .agingTick) (k : Kernel)
    (resources : Resources) (pid : Int) (name : Bytes) {priority : Int} {level : QueueLevel}
    (ram hdd : Int)
    (ranked : ∀ childPid stack message, op = .handleIpcRequest childPid stack message →
      priority = defaultPriority level) :
    TableStep op k ({ k with resources := resources }.createPcb pid name priority level ram hdd)
      (k.added level) := by
  by_cases room : k.pcbs.count < maxProcesses
  · rw [added, if_pos room]
    refine .adds (newProcess pid name priority level ram hdd) (by simp [newProcess]) rfl room
      ranked ?_
    rw [createPcb_entries, if_pos room]
  · -- A full table drops the new process.
    rw [added, if_neg room, createPcb_full (k := { k with resources := resources }) room]
    exact tableStep_same still rfl

private theorem removePcb_table {op : KernelOp} (still : op ≠ .agingTick) (k : Kernel) (pid : Int) :
    TableStep op k (k.removePcb pid) (k.dropped pid) := by
  unfold dropped
  rw [removePcb_eq]
  cases found : k.findPcb fun p => p.pid == pid with
  | none =>
    rw [deletePcb_none found]
    exact tableStep_same still rfl
  | some slot =>
    rw [deletePcb_some found]
    -- The rebuild of the queues reads the table only.
    refine .drops slot (findPcb_some found).1 ?_
    show ({ k with pcbs := k.pcbs.removeAt slot } : Kernel).rebuildQueues.pcbs.entries = _
    rw [rebuildQueues_pcbs]
    exact SlotArray.entries_removeAt _ slot (findPcb_some found).1

private theorem handleIpcRequest_table (k : Kernel) (childPid : Int) (stack message : Bytes) :
    TableStep (.handleIpcRequest childPid stack message) k
      (k.step (.handleIpcRequest childPid stack message))
      (k.tableEdit (.handleIpcRequest childPid stack message)) := by
  unfold step tableEdit handleIpcRequest
  dsimp only
  -- A message is a request, granted or denied, or a notice of the end, or neither.
  cases requestOf stack message with
  | some request =>
    rcases k.allocateResources_cases request.ram request.hdd with ⟨-, -, granted⟩ | ⟨-, denied⟩
    · simp only [handleRequest, granted, ↓reduceIte, createRequested]
      exact createPcb_table (by simp) k _ childPid request.name _ _ fun _ _ _ _ => rfl
    · simp only [handleRequest, denied, Bool.false_eq_true, ↓reduceIte]
      exact tableStep_same (by simp) rfl
  | none =>
    cases terminationOf message with
    | some pid => exact removePcb_table (by simp) k pid
    | none => exact tableStep_same (by simp) rfl

/-- Every step edits the rows as its edit says. -/
theorem step_table (k : Kernel) (op : KernelOp) : TableStep op k (k.step op) (k.tableEdit op) := by
  cases op with
  | createPcb pid name priority ram hdd =>
    exact createPcb_table (by simp) k k.resources pid name ram hdd (by simp)
  | removePcb pid => exact removePcb_table (by simp) k pid
  | handleIpcRequest childPid stack message => exact handleIpcRequest_table k childPid stack message
  -- The loops below write at most one slot, the one they find.
  | setProcessPriority pid priority =>
    simp only [step, setProcessPriority, tableEdit]
    split
    · exact tableStep_same (by simp) rfl
    · exact tableStep_set (by simp) rfl (.ranked pid priority rfl)
  | sendInterrupt pid =>
    simp only [step, sendInterrupt, tableEdit]
    split
    · exact tableStep_same (by simp) rfl
    · rw [stopped_eq]
      exact tableStep_set (by simp) rfl (setState_edit (by simp) _ _ (by simp [knownStates]) _)
  | unblockAfterDelay pid =>
    simp only [step, unblockAfterDelay, tableEdit]
    split
    · exact tableStep_same (by simp) rfl
    · exact tableStep_set (by simp) rfl (setState_edit (by simp) _ stateReady (by simp [knownStates]) _)
  | sendMinimize pid =>
    simp only [step, sendMinimize, tableEdit]
    split
    · exact tableStep_same (by simp) rfl
    · rw [stopped_eq]
      exact tableStep_set (by simp) rfl (setState_edit (by simp) _ _ (by simp [knownStates]) _)
  | sendResume pid =>
    simp only [step, sendResume, tableEdit]
    split
    · exact tableStep_same (by simp) rfl
    · exact tableStep_set (by simp) rfl (setState_edit (by simp) _ stateRunning (by simp [knownStates]) _)
  | schedulerTick =>
    have table := k.schedulerTick_pcbs
    cases target : k.dispatchTarget with
    | none =>
      rw [target] at table
      exact tableStep_same (by simp) table
    | some slot =>
      rw [target] at table
      exact tableStep_set (by simp) table (setState_edit (by simp) _ _ (by simp [knownStates]) _)
  | agingTick =>
    refine .keeps ?_
    simp only [step, agingTick_pcbs]
    exact (SlotArray.forall₂_entries_sweep ageProcess k.pcbs).imp fun before after aged =>
      aged ▸ .aged rfl

/-- Every live process is in one of the four states. -/
def KnownStates (k : Kernel) : Prop := ∀ p ∈ k.pcbs.entries, p.state ∈ knownStates

theorem KnownStates.step {k : Kernel} (known : KnownStates k) (op : KernelOp) :
    KnownStates (k.step op) := by
  intro after member
  have table := k.step_table op
  generalize k.tableEdit op = edit at table
  cases table with
  | keeps rows =>
    -- A surviving process keeps its state, or gets one of the four.
    obtain ⟨before, listed, edited⟩ := Tagged.exists_before rows member
    have knownBefore := known before listed
    cases edited with
    | kept still => exact knownBefore
    | moved still text core isKnown => exact isKnown
    | ranked pid priority asked => exact knownBefore
    | aged ticked =>
      rw [ageProcess_keeps]
      exact knownBefore
  | adds p ready unaged room ranked rows =>
    rw [rows, List.mem_append, List.mem_singleton] at member
    rcases member with old | rfl
    · exact known after old
    · rw [ready]
      exact List.mem_cons_self
  | drops slot live rows =>
    rw [rows] at member
    exact known after (List.mem_of_mem_eraseIdx member)

theorem knownStates_boot (ramMb hddMb cores : Int) : KnownStates (boot ramMb hddMb cores) := by
  intro p member
  exact absurd member List.not_mem_nil

end Kernel

end Nebula
