import Nebula.Queues.Arrival
import Nebula.Queues.Lines
import Nebula.Queues.Removal

/-! Rebuilding the queues keeps their order only while queue_Q1 stands in table order. -/

namespace Nebula

/-- The pid of the process that a step may create. -/
def KernelOp.newPid : KernelOp → Int
  | .createPcb pid _ _ _ _ => pid
  | .handleIpcRequest childPid _ _ => childPid
  | _ => 0

namespace Kernel

/-- The pid in a slot. -/
def pidAt (k : Kernel) (slot : Slot) : Int := (k.pcb slot).pid

/-- The pids of a queue from front to rear. -/
def queuePids (k : Kernel) (level : QueueLevel) : List Int := (k.queue level).toList.map k.pidAt

/-- The pids of the processes of a level in table order. -/
def rowPids (k : Kernel) (level : QueueLevel) : List Int := (k.slotsAt level).map k.pidAt

/-- An aging tick leaves the process of a slot at its level. -/
def StaysAtLevel (k : Kernel) (slot : Slot) : Prop :=
  (k.agingTick.pcb slot).queueLevel = (k.pcb slot).queueLevel

instance (k : Kernel) : DecidablePred k.StaysAtLevel := fun _ => inferInstanceAs (Decidable (_ = _))

/-- Neither a removal nor an aging tick reorders the processes that it leaves in their queues. -/
structure KeepsOrder (k : Kernel) : Prop where
  /-- Each queue is left without the pid, in the order it had. -/
  removal : ∀ pid level, (k.removePcb pid).queuePids level = (k.queuePids level).filter (· ≠ pid)
  /-- That is what KernelQueue::remove makes of it. -/
  remove : ∀ pid level, (k.removePcb pid).queuePids level = (k.removeFromQueues pid).queuePids level
  aging : ∀ level, (k.agingTick.queue level).toList.filter (k.StaysAtLevel ·) =
    (k.queue level).toList.filter (k.StaysAtLevel ·)

/-- queue_Q1 lists its slots in table order. -/
def InOrder (k : Kernel) : Prop := (k.queue .interactive).toList = k.slotsAt .interactive

/-- The whole table is two processes, and queue_Q1 has them the other way round. -/
def Swapped (k : Kernel) : Prop :=
  k.pcbs.count = 2 ∧ (k.queue .interactive).toList = k.pcbs.slots.reverse

/--
A process is created under a fresh pid and while queue_Q1 is in table order, and a tick that
dispatches from queue_Q1 dispatches its front, which is alone there or one of two in the whole table.
-/
structure KeepsTableOrder (k : Kernel) (op : KernelOp) : Prop where
  fresh : ∀ level, k.tableEdit op = .adds level → op.newPid ∉ k.pids ∧ k.InOrder
  front : RotatesItsFront k op
  alone : op = .schedulerTick →
    (∀ slot ∈ (k.queue .system).toList, looksReady (k.pcb slot).state = false) →
    (∃ slot ∈ (k.queue .interactive).toList, looksReady (k.pcb slot).state = true) →
    (k.queue .interactive).size = 1 ∨ ((k.queue .interactive).size = 2 ∧ k.pcbCount = 2)

/-- The pids differ, and queue_Q1 is in table order or swaps the only two processes. -/
structure Ranked (k : Kernel) : Prop where
  filed : Filed k
  others : InTableOrder k
  distinct : k.pids.Nodup
  order : k.InOrder ∨ k.Swapped

theorem rowPids_eq (k : Kernel) (level : QueueLevel) :
    k.rowPids level = (k.pcbs.entries.filter fun p => p.queueLevel == level).map Process.pid := by
  -- The slots of a level hold the entries of the level.
  rw [rowPids, slotsAt, SlotArray.entries, List.filter_map, List.map_map]
  rfl

/-- The pids of a level are some of those in the table. -/
theorem rowPids_sublist (k : Kernel) (level : QueueLevel) : List.Sublist (k.rowPids level) k.pids := by
  rw [rowPids_eq]
  exact List.filter_sublist.map _

theorem mem_pids {k : Kernel} {pid : Int} :
    pid ∈ k.pids ↔ ∃ slot : Slot, slot.val < k.pcbs.count ∧ k.pidAt slot = pid := by
  rw [pids, List.mem_map]
  constructor
  · rintro ⟨p, listed, rfl⟩
    obtain ⟨slot, live, rfl⟩ := SlotArray.mem_entries.mp listed
    exact ⟨slot, live, rfl⟩
  · rintro ⟨slot, live, rfl⟩
    exact ⟨_, SlotArray.mem_entries.mpr ⟨slot, live, rfl⟩, rfl⟩

/-- A removal that finds its pid leaves the queues in table order. -/
theorem removePcb_found {k : Kernel} {pid : Int} (present : pid ∈ k.pids) (level : QueueLevel) :
    (k.removePcb pid).queuePids level = (k.removePcb pid).rowPids level := by
  -- The row is found, and its removal rebuilds the queues from the table.
  cases found : k.findPcb fun p => p.pid == pid with
  | none =>
    obtain ⟨slot, live, same⟩ := mem_pids.mp present
    have missing := findPcb_none.mp found slot live
    rw [beq_eq_false_iff_ne] at missing
    exact absurd same missing
  | some slot =>
    have queues : ((k.removePcb pid).queue level).toList = (k.removePcb pid).slotsAt level := by
      rw [removePcb_eq, deletePcb_some found]
      exact rebuildQueues_slotsAt _ level
    rw [queuePids, queues, rowPids]

theorem removePcb_absent {k : Kernel} {pid : Int} (absent : pid ∉ k.pids) : k.removePcb pid = k := by
  refine removePcb_none (deletePcb_none (findPcb_none.mpr fun slot live => ?_))
  rw [beq_eq_false_iff_ne]
  exact fun same => absent (mem_pids.mpr ⟨slot, live, same⟩)

/-- A removal that finds its pid leaves the others of each level in table order. -/
theorem queuePids_removePcb {k : Kernel} (distinct : k.pids.Nodup) {pid : Int} (present : pid ∈ k.pids)
    (level : QueueLevel) : (k.removePcb pid).queuePids level = (k.rowPids level).filter (· ≠ pid) := by
  have table := (removed_removePcb distinct pid).table
  rw [removePcb_found present, rowPids_eq, rowPids_eq, table, List.filter_filter, List.filter_map,
    List.filter_filter]
  congr 1
  refine List.filter_congr fun p _ => ?_
  simp [Bool.and_comm]

/-- KernelQueue::remove filters the pid out of each queue. -/
theorem queuePids_removeFromQueues (k : Kernel) (pid : Int) (level : QueueLevel) :
    (k.removeFromQueues pid).queuePids level = (k.queuePids level).filter (· ≠ pid) := by
  have queue : ((k.removeFromQueues pid).queue level).toList =
      (k.queue level).toList.filter fun slot => !((k.pcb slot).pid == pid) :=
    (RingQueue.removeWhere_spec _ _).2
  rw [queuePids, queue, queuePids, List.filter_map]
  congr 1
  refine List.filter_congr fun slot _ => ?_
  rw [Function.comp_apply, decide_not, beq_eq_decide]
  rfl

/-- Queue entries are live, so their pids are those of the table. -/
theorem queuePids_subset {k : Kernel} (filed : Filed k) (level : QueueLevel) :
    ∀ pid ∈ k.queuePids level, pid ∈ k.pids := by
  intro pid member
  obtain ⟨slot, queued, rfl⟩ := List.mem_map.mp member
  exact mem_pids.mpr ⟨slot, (filed.live level slot queued).1, rfl⟩

/-- With one process to a pid, removals keep the order if it is that of the table but for one pid. -/
theorem removal_iff {k : Kernel} (filed : Filed k) (distinct : k.pids.Nodup) :
    (∀ pid level, (k.removePcb pid).queuePids level = (k.queuePids level).filter (· ≠ pid)) ↔
      ∀ pid ∈ k.pids, ∀ level, (k.rowPids level).filter (· ≠ pid) = (k.queuePids level).filter (· ≠ pid) := by
  constructor
  · intro kept pid present level
    rw [← queuePids_removePcb distinct present]
    exact kept pid level
  · intro alike pid level
    by_cases present : pid ∈ k.pids
    · rw [queuePids_removePcb distinct present]
      exact alike pid present level
    · -- Nothing is removed, and the pid is in no queue.
      rw [removePcb_absent present, List.filter_eq_self.mpr]
      intro other member
      rw [decide_eq_true_eq]
      rintro rfl
      exact present (queuePids_subset filed level other member)

/-- Two slots in the table have different pids. -/
theorem pidAt_inj {k : Kernel} (distinct : k.pids.Nodup) {slot other : Slot} (live : slot.val < k.pcbs.count)
    (live' : other.val < k.pcbs.count) (same : k.pidAt slot = k.pidAt other) : slot = other := by
  rw [pids, SlotArray.entries, List.map_map] at distinct
  exact List.inj_on_of_nodup_map distinct (SlotArray.mem_slots.mpr live) (SlotArray.mem_slots.mpr live') same

/-- In a table of two that queue_Q1 swaps, all processes are interactive. -/
theorem Swapped.slots {k : Kernel} (filed : Filed k) (swapped : k.Swapped) :
    k.slotsAt .interactive = k.pcbs.slots ∧ ∃ first second, first ≠ second ∧ k.pcbs.slots = [first, second] := by
  obtain ⟨two, queued⟩ := swapped
  -- Every row is in queue_Q1, and there are two of them.
  constructor
  · refine List.filter_eq_self.mpr fun slot member => ?_
    have inQueue : slot ∈ (k.queue .interactive).toList := by
      rw [queued]
      exact List.mem_reverse.mpr member
    simpa using (filed.live .interactive slot inQueue).2
  · obtain ⟨first, second, listed⟩ := List.length_eq_two.mp (k.pcbs.length_slots.trans two)
    refine ⟨first, second, ?_, listed⟩
    have distinct := k.pcbs.nodup_slots
    rw [listed] at distinct
    simpa using distinct

/-- A tick that changes no level leaves the queues, and any other files the levels it has made. -/
theorem agingTick_queues (k : Kernel) :
    ((∀ slot, k.StaysAtLevel slot) ∧ k.agingTick.queue = k.queue) ∨
    ((∃ slot : Slot, slot.val < k.pcbs.count ∧ ¬ k.StaysAtLevel slot) ∧
      ∀ level, (k.agingTick.queue level).toList = k.agingTick.slotsAt level) := by
  have aged : ∀ slot : Slot, k.agingTick.pcb slot =
      if slot.val < k.pcbs.count then (ageProcess (k.pcb slot)).1 else k.pcb slot := by
    intro slot
    rw [pcb, agingTick_pcbs]
    exact SlotArray.get_sweep ageProcess k.pcbs slot
  by_cases raised : (k.pcbs.sweep ageProcess).2 = true
  · refine Or.inr ⟨?_, fun level => ?_⟩
    · -- The flag comes from a process that has been promoted.
      rw [SlotArray.sweep_flag, List.any_eq_true] at raised
      obtain ⟨slot, member, flag⟩ := raised
      have live := SlotArray.mem_slots.mp member
      refine ⟨slot, live, ?_⟩
      rw [StaysAtLevel, aged, if_pos live]
      exact (ageProcess_flag _).mp flag
    · unfold agingTick
      dsimp only
      rw [if_pos raised]
      exact rebuildQueues_slotsAt _ level
  · refine Or.inl ⟨fun slot => ?_, ?_⟩
    · -- Without it, no process of the table has been.
      rw [StaysAtLevel, aged]
      split
      · rename_i live
        rw [SlotArray.sweep_flag, Bool.not_eq_true, List.any_eq_false] at raised
        have kept := raised slot (SlotArray.mem_slots.mpr live)
        exact ageProcess_level (Bool.not_eq_true _ ▸ kept)
      · rfl
    · unfold agingTick
      dsimp only
      rw [if_neg raised]

/-- Among the processes that stay at their level, the table has the same ones at each level. -/
theorem slotsAt_agingTick (k : Kernel) (level : QueueLevel) :
    (k.agingTick.slotsAt level).filter (k.StaysAtLevel ·) = (k.slotsAt level).filter (k.StaysAtLevel ·) := by
  have slots : k.agingTick.pcbs.slots = k.pcbs.slots := by
    rw [agingTick_pcbs]
    exact k.pcbs.slots_sweep ageProcess
  rw [slotsAt, slots, slotsAt, List.filter_filter, List.filter_filter]
  refine List.filter_congr fun slot _ => ?_
  by_cases stays : k.StaysAtLevel slot
  · rw [show (k.agingTick.pcb slot).queueLevel = _ from stays]
  · simp [stays]

/-- Kernels with their pids apart and queue_Q1 in order, or the only two processes swapped, keep the order. -/
theorem Ranked.keepsOrder {k : Kernel} (ranked : Ranked k) : KeepsOrder k := by
  obtain ⟨filed, others, distinct, order⟩ := ranked
  have removal : ∀ pid level, (k.removePcb pid).queuePids level = (k.queuePids level).filter (· ≠ pid) := by
    rw [removal_iff filed distinct]
    intro pid present level
    by_cases fixed : level = .interactive
    · subst fixed
      rcases order with inOrder | swapped
      · rw [queuePids, inOrder, rowPids]
      · -- One of the two goes, and the other one is left.
        obtain ⟨all, first, second, apart, listed⟩ := swapped.slots filed
        rw [queuePids, swapped.2, rowPids, all, listed]
        obtain ⟨slot, live, rfl⟩ := mem_pids.mp present
        have one := SlotArray.mem_slots.mpr live
        rw [listed] at one
        refine Line.filter_pair ?_
        rcases List.mem_cons.mp one with rfl | one
        · exact Or.inl (by simp)
        · rw [List.mem_singleton.mp one]
          exact Or.inr (by simp)
    · rw [queuePids, others level fixed, rowPids]
  refine ⟨removal, fun pid level => ?_, fun level => ?_⟩
  · rw [removal, queuePids_removeFromQueues]
  · -- The tick leaves the queues alone, or files the levels anew.
    rcases k.agingTick_queues with ⟨-, same⟩ | ⟨⟨slot, live, moves⟩, rebuilt⟩
    · rw [same]
    · rw [rebuilt level, slotsAt_agingTick]
      by_cases fixed : level = .interactive
      · subst fixed
        rcases order with inOrder | swapped
        · rw [inOrder]
        · -- One of the two is promoted, and the other one is left.
          obtain ⟨all, first, second, apart, listed⟩ := swapped.slots filed
          rw [all, swapped.2, listed]
          have one := SlotArray.mem_slots.mpr live
          rw [listed] at one
          refine Line.filter_pair ?_
          rcases List.mem_cons.mp one with rfl | one
          · exact Or.inl (by simp [moves])
          · rw [List.mem_singleton.mp one] at moves
            exact Or.inr (by simp [moves])
      · rw [others level fixed]

/-- A process that a step adds has the pid that the step creates it under. -/
theorem adds_newPid {k : Kernel} {op : KernelOp} {level : QueueLevel} (edit : k.tableEdit op = .adds level)
    {p : Process} (rows : (k.step op).pcbs.entries = k.pcbs.entries ++ [p]) : p.pid = op.newPid := by
  -- Both ways to create a process end in create_pcb, which appends the process or finds no room.
  have created : ∀ resources pid name priority level ram hdd,
      ({ k with resources := resources } : Kernel).createPcb pid name priority level ram hdd = k.step op →
      p.pid = pid := by
    intro resources pid name priority level ram hdd same
    rw [← same, createPcb_entries] at rows
    split at rows
    · rw [(List.cons.inj (List.append_cancel_left rows)).1.symm]
      rfl
    · have length := congrArg List.length rows
      rw [List.length_append, List.length_singleton] at length
      exact absurd length (Nat.ne_of_lt (Nat.lt_succ_self _))
  cases op with
  | createPcb pid name priority ram hdd => exact created k.resources pid name priority _ ram hdd rfl
  | handleIpcRequest childPid stack message =>
    simp only [tableEdit] at edit
    cases asked : requestOf stack message with
    | some request =>
      rcases k.allocateResources_cases request.ram request.hdd with ⟨-, -, granted⟩ | ⟨-, denied⟩
      · refine created (k.allocateResources request.ram request.hdd).2.resources childPid request.name
          (defaultPriority (getQueueLevel request.name)) (getQueueLevel request.name) request.ram request.hdd ?_
        simp only [step, handleIpcRequest, asked, handleRequest, granted]
        rfl
      · simp [asked, denied] at edit
    | none =>
      rw [asked] at edit
      dsimp only at edit
      unfold dropped at edit
      split at edit
      · split at edit <;> cases edit
      · cases edit
  | removePcb pid =>
    simp only [tableEdit, dropped] at edit
    split at edit <;> cases edit
  | _ => cases edit

/-- How a step moves the pids of the table. -/
theorem step_pids (k : Kernel) (op : KernelOp) :
    (k.step op).pids =
      match k.tableEdit op with
      | .keeps => k.pids
      | .adds _ => k.pids ++ [op.newPid]
      | .drops slot => k.pids.eraseIdx slot.val := by
  have table := k.step_table op
  generalize edited : k.tableEdit op = edit at table
  cases table with
  | keeps rows =>
    dsimp only
    refine (List.forall₂_eq_eq_eq ▸ List.forall₂_map_left_iff.mpr (List.forall₂_map_right_iff.mpr
      (rows.imp fun p after edited => ?_)) : k.pids = (k.step op).pids).symm
    -- No edit of a row touches the pid.
    cases edited with
    | aged ticked => rw [ageProcess_keeps]
    | _ => rfl
  | adds p ready unaged room ranked rows =>
    dsimp only
    rw [pids, rows, List.map_append, List.map_singleton, adds_newPid edited rows, pids]
  | drops slot live rows =>
    dsimp only
    rw [pids, rows, pids, List.eraseIdx_map]

/-- The table grows only by what a step adds. -/
theorem adds_of_grown {k : Kernel} {op : KernelOp} {new : Slot}
    (slots : (k.step op).pcbs.slots = k.pcbs.slots ++ [new]) : ∃ level, k.tableEdit op = .adds level := by
  -- Of the edits of the table only an addition makes it longer.
  have grown : (k.step op).pcbs.entries.length = k.pcbs.entries.length + 1 := by
    rw [SlotArray.length_entries, ← SlotArray.length_slots, slots, List.length_append, SlotArray.length_slots,
      SlotArray.length_entries]
    rfl
  have table := k.step_table op
  generalize k.tableEdit op = edit at table
  cases table with
  | keeps rows =>
    have same := rows.length_eq
    omega
  | adds p ready unaged room ranked rows => exact ⟨p.queueLevel, rfl⟩
  | drops slot live rows =>
    have fewer := List.length_eraseIdx_le k.pcbs.entries slot.val
    rw [← rows] at fewer
    omega

/-- A tick that rotates a queue_Q1 in table order, or one that swaps the only two processes. -/
theorem Ranked.rotates {k k' : Kernel} {slot : Slot} (ranked : Ranked k) (moved : Rotates k k' slot)
    {rest : List Slot} (queued : (k.queue .interactive).toList = slot :: rest)
    (alone : (k.queue .interactive).size = 1 ∨ ((k.queue .interactive).size = 2 ∧ k.pcbCount = 2)) :
    k'.InOrder ∨ k'.Swapped := by
  have listed := slotsAt_congr moved.slots moved.levels .interactive
  have rotated : (k'.queue .interactive).toList = rest ++ [slot] := by
    rw [moved.interactive, queued, List.tail_cons]
  have count : k'.pcbs.count = k.pcbs.count := by
    rw [← SlotArray.length_slots, moved.slots, SlotArray.length_slots]
  rw [RingQueue.size_eq, queued, List.length_cons] at alone
  rcases alone with single | ⟨pair, two⟩
  · -- The only entry is popped and pushed.
    have none : rest = [] := List.length_eq_zero_iff.mp (by omega)
    subst none
    rcases ranked.order with inOrder | swapped
    · refine Or.inl ?_
      rw [InOrder, rotated, listed, ← show (k.queue .interactive).toList = _ from inOrder, queued]
      rfl
    · have length := congrArg List.length swapped.2
      rw [queued, List.length_reverse, SlotArray.length_slots, swapped.1] at length
      cases length
  · obtain ⟨other, rfl⟩ := List.length_eq_one_iff.mp (by omega : rest.length = 1)
    rcases ranked.order with inOrder | swapped
    · -- Both processes of the table are in the queue, and now they are swapped.
      refine Or.inr ⟨count.trans two, ?_⟩
      have all : k.slotsAt .interactive = k.pcbs.slots := by
        have length := congrArg List.length inOrder
        rw [queued] at length
        exact List.filter_sublist.eq_of_length (length.symm.trans (two.symm.trans k.pcbs.length_slots.symm))
      rw [rotated, moved.slots, ← all, ← show (k.queue .interactive).toList = _ from inOrder, queued]
      rfl
    · refine Or.inl ?_
      have back : k.pcbs.slots = [other, slot] := by
        rw [← List.reverse_reverse k.pcbs.slots, ← swapped.2, queued]
        rfl
      rw [InOrder, rotated, listed, (swapped.slots ranked.filed).1, back]
      rfl

/-- A step that meets the condition leaves the kernel as it should be. -/
theorem Ranked.step {k : Kernel} (ranked : Ranked k) {op : KernelOp} (keeps : KeepsTableOrder k op) :
    Ranked (k.step op) := by
  refine ⟨ranked.filed.step op, ranked.others.step ranked.filed op, ?_, ?_⟩
  · rw [step_pids]
    split
    · exact ranked.distinct
    · rename_i level edit
      exact List.nodup_append_comm.mp (List.nodup_cons.mpr ⟨(keeps.fresh level edit).1, ranked.distinct⟩)
    · exact ranked.distinct.sublist (List.eraseIdx_sublist _ _)
  · rcases step_refiles ranked.filed op with ⟨moved, -⟩ | ⟨slot, rfl, nothingAbove, found, moved⟩
    · cases moved with
      | same slots levels queues refused =>
        -- Neither the table's order nor a queue has changed.
        rcases ranked.order with inOrder | swapped
        · refine Or.inl ?_
          rw [InOrder, queues, slotsAt_congr slots levels]
          exact inOrder
        · refine Or.inr ⟨?_, ?_⟩
          · rw [← SlotArray.length_slots, slots, SlotArray.length_slots]
            exact swapped.1
          · rw [queues, slots]
            exact swapped.2
      | added new fresh slots levels queues refused =>
        -- The new slot is last in the table and in its queue.
        obtain ⟨level, edit⟩ := adds_of_grown slots
        refine Or.inl ?_
        rw [InOrder, queues, slotsAt_snoc slots levels, (keeps.fresh level edit).2]
      | rebuilt queues refused => exact Or.inl (queues .interactive)
    · have noneAbove := firstReady_none.mp nothingAbove
      have some := firstReady_some found
      obtain ⟨rest, queued⟩ := keeps.front.front nothingAbove found
      exact ranked.rotates moved queued (keeps.alone rfl noneAbove ⟨slot, some⟩)

/-- A process that a step adds goes to the end of the table. -/
theorem adds_rows {k : Kernel} {op : KernelOp} {level : QueueLevel} (edit : k.tableEdit op = .adds level) :
    ∃ p, p.pid = op.newPid ∧ p.queueLevel = level ∧ (k.step op).pcbs.entries = k.pcbs.entries ++ [p] := by
  have table := k.step_table op
  rw [edit] at table
  cases table with
  | adds p ready unaged room ranked rows => exact ⟨p, adds_newPid edit rows, rfl, rows⟩

/-- It also goes to the end of the queue of its level. -/
theorem adds_queuePids {k : Kernel} (filed : Filed k) {op : KernelOp} {level : QueueLevel}
    (edit : k.tableEdit op = .adds level) (other : QueueLevel) :
    (k.step op).queuePids other = k.queuePids other ++ if level = other then [op.newPid] else [] := by
  obtain ⟨p, pid, -, rows⟩ := adds_rows edit
  have count : (k.step op).pcbs.count = k.pcbs.count + 1 := by
    rw [← SlotArray.length_entries, rows, List.length_append, SlotArray.length_entries]
    rfl
  have held : ∀ slot : Slot, slot.val < k.pcbs.count + 1 →
      some ((k.step op).pcb slot) = (k.pcbs.entries ++ [p])[slot.val]? := fun slot live => by
    rw [← rows, (k.step op).pcbs.getElem?_entries slot (count ▸ live)]
    rfl
  cases k.step_queue op with
  | pushed added edited room queue =>
    rw [edit] at edited
    cases edited
    -- The entries of the queue are live slots, which keep their processes; the new slot is behind them.
    have old : ∀ slot ∈ (k.queue other).toList, (k.step op).pidAt slot = k.pidAt slot := by
      intro slot member
      have live := (filed.live other slot member).1
      have here := held slot (Nat.lt_succ_of_lt live)
      rw [List.getElem?_append_left (k.pcbs.length_entries.symm ▸ live), k.pcbs.getElem?_entries slot live,
        Option.some.injEq] at here
      exact congrArg Process.pid here
    have new : (k.step op).pidAt (k.pcbs.nextSlot room) = op.newPid := by
      have last : (k.pcbs.entries ++ [p])[k.pcbs.count]? = some p := by
        rw [← k.pcbs.length_entries]
        exact List.getElem?_concat_length
      have here := (held (k.pcbs.nextSlot room) (Nat.lt_succ_self _)).trans last
      exact (congrArg Process.pid (Option.some.inj here)).trans pid
    have pushed := (push_room (filed.room room level) (k.pcbs.nextSlot room)).2 other
    rw [queuePids, queue, pushed, List.map_append, List.map_congr_left old, queuePids]
    congr 1
    split
    · rw [List.map_singleton, new]
    · rfl
  | kept edited =>
    rw [edit] at edited
    cases edited
  | rebuilt rebuilds =>
    rcases rebuilds with ⟨slot, dropped⟩ | ⟨rfl, -⟩
    · rw [edit] at dropped
      cases dropped
    · cases edit
  | ticked tick =>
    subst tick
    cases edit

/-- Had a new process the pid of another one, removing that pid would leave the new one in its queue. -/
theorem KeepsOrder.fresh {k : Kernel} {op : KernelOp} (keeps : KeepsOrder (k.step op)) {level : QueueLevel}
    (edit : k.tableEdit op = .adds level) : op.newPid ∉ k.pids := by
  intro present
  obtain ⟨p, pid, own, rows⟩ := adds_rows edit
  -- The removal finds the older one first.
  obtain ⟨before, listed, same⟩ := List.mem_map.mp present
  have there : op.newPid ∈ (k.step op).pids := by
    rw [step_pids, edit]
    exact List.mem_append_left _ present
  have stays : p ∈ ((k.step op).removePcb op.newPid).pcbs.entries := by
    have first : (k.pcbs.entries ++ [p]).eraseP (fun p => p.pid == op.newPid) =
        k.pcbs.entries.eraseP (fun p => p.pid == op.newPid) ++ [p] :=
      List.eraseP_append_left (p := fun p => p.pid == op.newPid) (beq_iff_eq.mpr same) _ listed
    rw [removePcb_eq, deletePcb_entries, rows, first]
    exact List.mem_append_right _ (List.mem_singleton_self p)
  have left := keeps.removal op.newPid level
  rw [removePcb_found there, rowPids_eq] at left
  have queued : op.newPid ∈ ((k.step op).queuePids level).filter (· ≠ op.newPid) := by
    rw [← left]
    exact List.mem_map.mpr ⟨p, List.mem_filter.mpr ⟨stays, beq_iff_eq.mpr own⟩, pid⟩
  exact of_decide_eq_true (List.mem_filter.mp queued).2 rfl

/-- A third process behind the swapped two could be removed, and the two would be swapped back. -/
theorem KeepsOrder.unswapped {k : Kernel} (ranked : Ranked k) {op : KernelOp} (keeps : KeepsOrder (k.step op))
    {level : QueueLevel} (edit : k.tableEdit op = .adds level) : k.InOrder := by
  rcases ranked.order with inOrder | swapped
  · exact inOrder
  · have fresh := keeps.fresh edit
    have distinct : (k.step op).pids.Nodup := by
      rw [step_pids, edit]
      exact List.nodup_append_comm.mp (List.nodup_cons.mpr ⟨fresh, ranked.distinct⟩)
    have there : op.newPid ∈ (k.step op).pids := by
      rw [step_pids, edit]
      exact List.mem_append_right _ (List.mem_singleton_self _)
    obtain ⟨p, pid, own, rows⟩ := adds_rows edit
    have alike := (removal_iff (ranked.filed.step op) distinct).mp keeps.removal op.newPid there .interactive
    -- What is pushed under the new pid goes again, and the two behind it are compared.
    have rest : ∀ pids : List Int, (∀ pid ∈ pids, pid ∈ k.pids) →
        (pids ++ if level = .interactive then [op.newPid] else []).filter (· ≠ op.newPid) = pids := by
      intro pids inside
      rw [List.filter_append, List.filter_eq_self.mpr, List.filter_eq_nil_iff.mpr, List.append_nil]
      · intro other member
        split at member
        · simp [List.mem_singleton.mp member]
        · cases member
      · intro other member
        rw [decide_eq_true_eq]
        rintro rfl
        exact fresh (inside _ member)
    have listed : (k.step op).rowPids .interactive =
        k.rowPids .interactive ++ if level = .interactive then [op.newPid] else [] := by
      rw [rowPids_eq, rows, List.filter_append, List.map_append, ← rowPids_eq]
      congr 1
      subst own
      split <;> simp [*]
    rw [listed, adds_queuePids ranked.filed edit, rest _ fun pid member => (k.rowPids_sublist _).subset member,
      rest _ (queuePids_subset ranked.filed _)] at alike
    obtain ⟨all, first, second, apart, slots⟩ := swapped.slots ranked.filed
    rw [rowPids, all, queuePids, swapped.2, slots] at alike
    have live : ∀ slot ∈ k.pcbs.slots, slot.val < k.pcbs.count := fun slot member => SlotArray.mem_slots.mp member
    rw [slots] at live
    exact absurd (pidAt_inj ranked.distinct (live first (by simp)) (live second (by simp))
      (List.cons.inj alike).1) apart

/-- A slot that a rotation pushes while another one is popped is queued twice. -/
theorem KeepsOrder.rotates_front {k k' : Kernel} {slot front : Slot} {rest : List Slot} (keeps : KeepsOrder k')
    (filed : Filed k) (distinct : k'.pids.Nodup) (moved : Rotates k k' slot)
    (queued : (k.queue .interactive).toList = front :: rest) : slot = front := by
  by_contra apart
  have rotated : (k'.queue .interactive).toList = rest ++ [slot] := by
    rw [moved.interactive, queued, List.tail_cons]
  have behind : slot ∈ rest := by
    have member := moved.queued
    rw [queued] at member
    exact (List.mem_cons.mp member).resolve_left apart
  have lives : ∀ slot ∈ (k.queue .interactive).toList, slot.val < k'.pcbs.count := by
    intro slot member
    have live := (filed.live .interactive slot member).1
    exact SlotArray.mem_slots.mp (moved.slots ▸ SlotArray.mem_slots.mpr live)
  rw [queued] at lives
  have present : k'.pidAt front ∈ k'.pids := mem_pids.mpr ⟨front, lives front List.mem_cons_self, rfl⟩
  have differs : k'.pidAt slot ≠ k'.pidAt front := fun same =>
    apart (pidAt_inj distinct (lives slot (List.mem_cons_of_mem _ behind)) (lives front List.mem_cons_self) same)
  -- Without the popped process the queue is filed anew, and nobody is in it twice.
  have once : ((k'.queuePids .interactive).filter (· ≠ k'.pidAt front)).Nodup := by
    rw [← keeps.removal, queuePids_removePcb distinct present]
    exact (distinct.sublist (k'.rowPids_sublist _)).filter _
  rw [queuePids, rotated, List.map_append, List.filter_append, List.map_singleton] at once
  have here : k'.pidAt slot ∈ (rest.map k'.pidAt).filter (· ≠ k'.pidAt front) :=
    List.mem_filter.mpr ⟨List.mem_map_of_mem behind, decide_eq_true differs⟩
  have there : k'.pidAt slot ∈ [k'.pidAt slot].filter (· ≠ k'.pidAt front) :=
    List.mem_filter.mpr ⟨List.mem_singleton_self _, decide_eq_true differs⟩
  exact (List.nodup_append.mp once).2.2 _ here _ there rfl

/-- A third process could be removed behind a rotation, and the rotated one would move back. -/
theorem KeepsOrder.no_third {k : Kernel} (keeps : KeepsOrder k) (filed : Filed k) (distinct : k.pids.Nodup)
    {front next : Slot} {rest : List Slot} (listed : k.slotsAt .interactive = front :: next :: rest)
    (rotated : (k.queue .interactive).toList = next :: rest ++ [front]) :
    ∀ third ∈ k.pcbs.slots, third ∈ [front, next] := by
  have inside : ∀ slot ∈ front :: next :: rest, slot.val < k.pcbs.count := by
    intro slot member
    rw [← listed] at member
    exact (mem_slotsAt.mp member).1
  have fresh : front ∉ next :: rest := (List.nodup_cons.mp (listed ▸ k.nodup_slotsAt .interactive)).1
  intro third live
  by_contra apart
  rw [List.mem_cons, List.mem_singleton, not_or] at apart
  rw [SlotArray.mem_slots] at live
  -- Without the third one, the queue would have to begin with the front as the table does.
  have alike := (removal_iff filed distinct).mp keeps.removal _ (mem_pids.mpr ⟨third, live, rfl⟩) .interactive
  rw [rowPids, listed, queuePids, rotated, List.map_append, List.filter_append, List.map_cons, List.map_singleton,
    List.filter_cons_of_pos, List.filter_cons_of_pos, List.filter_nil] at alike
  · refine Line.rotated_ne ?_ ?_ alike
    · refine List.ne_nil_of_mem (List.mem_filter.mpr ⟨List.mem_map_of_mem List.mem_cons_self, ?_⟩)
      exact decide_eq_true fun same => apart.2
        (pidAt_inj distinct live (inside next (List.mem_cons_of_mem _ List.mem_cons_self)) same.symm)
    · intro member
      obtain ⟨other, behind, same⟩ := List.mem_map.mp (List.mem_filter.mp member).1
      have again := pidAt_inj distinct (inside other (List.mem_cons_of_mem _ behind))
        (inside front List.mem_cons_self) same
      exact fresh (again ▸ behind)
  all_goals
    refine decide_eq_true fun same => apart.1 ?_
    exact pidAt_inj distinct live (inside front List.mem_cons_self) same.symm

/-- So the front of a rotation was alone in the queue, or one of the only two processes. -/
theorem KeepsOrder.rotates_alone {k k' : Kernel} {front : Slot} {rest : List Slot} (ranked : Ranked k)
    (keeps : KeepsOrder k') (filed : Filed k') (distinct : k'.pids.Nodup) (moved : Rotates k k' front)
    (queued : (k.queue .interactive).toList = front :: rest) :
    (k.queue .interactive).size = 1 ∨ ((k.queue .interactive).size = 2 ∧ k.pcbCount = 2) := by
  rw [RingQueue.size_eq, queued, List.length_cons]
  rcases ranked.order with inOrder | swapped
  · cases rest with
    | nil => exact Or.inl rfl
    | cons next rest =>
      refine Or.inr ?_
      have listed : k'.slotsAt .interactive = front :: next :: rest := by
        rw [slotsAt_congr moved.slots moved.levels, ← show (k.queue .interactive).toList = _ from inOrder, queued]
      have rotated : (k'.queue .interactive).toList = next :: rest ++ [front] := by
        rw [moved.interactive, queued, List.tail_cons]
      -- The table has at most the two, and at least what is queued.
      have few := (List.subperm_of_subset k'.pcbs.nodup_slots (keeps.no_third filed distinct listed rotated)).length_le
      have many := k'.length_slotsAt_le .interactive
      rw [listed] at many
      rw [moved.slots, SlotArray.length_slots] at few
      rw [← SlotArray.length_slots, moved.slots, SlotArray.length_slots] at many
      simp only [List.length_cons, List.length_nil, pcbCount] at few many ⊢
      omega
  · have length := congrArg List.length swapped.2
    rw [queued, List.length_reverse, SlotArray.length_slots, swapped.1, List.length_cons] at length
    exact Or.inr ⟨length, swapped.1⟩

/-- Where the order is to be kept, every step meets the condition. -/
theorem Ranked.needed {k : Kernel} (ranked : Ranked k) {op : KernelOp} (keeps : KeepsOrder (k.step op)) :
    KeepsTableOrder k op := by
  have fresh : ∀ level, k.tableEdit op = .adds level → op.newPid ∉ k.pids ∧ k.InOrder := fun level edit =>
    ⟨keeps.fresh edit, keeps.unswapped ranked edit⟩
  rcases step_refiles ranked.filed op with ⟨-, idle⟩ | ⟨slot, rfl, nothingAbove, found, moved⟩
  · -- A tick that does not rotate finds nothing in queue_Q1.
    have still : op = .schedulerTick →
        (∀ slot ∈ (k.queue .system).toList, looksReady (k.pcb slot).state = false) →
        ¬ ∃ slot ∈ (k.queue .interactive).toList, looksReady (k.pcb slot).state = true := by
      rintro ticked noneAbove ⟨slot, queued, ready⟩
      have noneHere := firstReady_none.mp (idle ticked (firstReady_none.mpr noneAbove)) slot queued
      rw [ready] at noneHere
      cases noneHere
    refine ⟨fresh, ?_, fun ticked noneAbove some => absurd some (still ticked noneAbove)⟩
    cases op with
    | schedulerTick => exact fun noneAbove some => absurd some (still rfl noneAbove)
    | _ => trivial
  · have distinct : (k.step .schedulerTick).pids.Nodup := by
      rw [step_pids]
      exact ranked.distinct
    obtain ⟨queued, ready⟩ := firstReady_some found
    cases listed : (k.queue .interactive).toList with
    | nil => simp [listed] at queued
    | cons front rest =>
      have atFront := keeps.rotates_front ranked.filed distinct moved listed
      subst atFront
      refine ⟨fresh, fun _ _ => ⟨slot, by rw [listed]; rfl, ready⟩, fun _ _ _ => ?_⟩
      exact keeps.rotates_alone ranked (ranked.filed.step _) distinct moved listed

theorem ranked_boot (ramMb hddMb cores : Int) : Ranked (boot ramMb hddMb cores) :=
  ⟨filed_boot ramMb hddMb cores, inTableOrder_boot ramMb hddMb cores, List.nodup_nil, Or.inl rfl⟩

/--
In every state of a run removals and aging ticks keep the order of the queues, exactly when each
process of the run is created under a fresh pid and while queue_Q1 is in table order, and each tick
that dispatches from queue_Q1 dispatches its front, alone there or one of two in the whole table.
-/
theorem keepsOrder_throughout_iff (ramMb hddMb cores : Int) (ops : List KernelOp) :
    Machine.Throughout Kernel.step KeepsOrder (boot ramMb hddMb cores) ops ↔
      Machine.EachStep Kernel.step KeepsTableOrder (boot ramMb hddMb cores) ops := by
  have enough : ∀ k, Ranked k → KeepsOrder k := fun _ ranked => ranked.keepsOrder
  have kept : ∀ k op, Ranked k → KeepsTableOrder k op → Ranked (Kernel.step k op) :=
    fun _ _ ranked keeps => ranked.step keeps
  have needed : ∀ k op, Ranked k → KeepsOrder (Kernel.step k op) → KeepsTableOrder k op :=
    fun _ _ ranked keeps => ranked.needed keeps
  exact Machine.throughout_iff_met enough kept needed (ranked_boot ramMb hddMb cores) ops

/--
After one rotation queue_Q1 is not in table order, and removing a process of queue_Q2 turns its two
round.
-/
theorem removal_reorders_rotated_queue :
    ¬ KeepsOrder (Machine.run Kernel.step (boot 1024 1024 1)
      [.createPcb 101 (CText.ascii "Notepad") 3 20 2, .createPcb 102 (CText.ascii "Calculator") 3 30 2,
        .createPcb 103 (CText.ascii "Alarm") 3 30 2, .schedulerTick]) := by
  intro keeps
  have kept := keeps.removal 103 .interactive
  revert kept
  decide +kernel

end Kernel

end Nebula
