import Mathlib.Data.List.Find
import Nebula.Queues.Filing

/-! The kernel is a list of processes and three lines of places in it. -/

namespace Nebula

open CText

/--
What the kernel keeps, without its arrays and pointers.

A process is named by its place in the list, and a line holds places.
-/
structure Roster where
  rows : List Process
  line : QueueLevel → List Nat
  resources : Resources

/-- What a step shows outside: the reply of the request handler, or the place a tick dispatches. -/
inductive KernelEvent where
  | reply (text : Bytes)
  | dispatched (place : Nat)
  deriving DecidableEq

namespace Roster

/-- The machine as configured, with nobody in it. -/
def vacant (ramMb hddMb cores : Int) : Roster where
  rows := []
  line := fun _ => []
  resources := ⟨ramMb, ramMb, hddMb, hddMb, cores, cores⟩

/-- Every process takes its place in the line of its level, in the order of the list. -/
def lineUp (r : Roster) : Roster :=
  { r with line := fun level =>
      (List.range r.rows.length).filter fun place => r.rows[place]?.any fun p => p.queueLevel == level }

/-- The first process that passes a test is changed, and nobody if none does. -/
def change (r : Roster) (test : Process → Bool) (edit : Process → Process) : Roster :=
  match r.rows.findIdx? test with
  | none => r
  | some place => { r with rows := r.rows.modify place edit }

/-- A new process goes behind the others, in the list and in its line, if there is room for it. -/
def enrol (r : Roster) (p : Process) : Roster :=
  if r.rows.length < maxProcesses then
    { r with
      rows := r.rows ++ [p]
      line := Function.update r.line p.queueLevel (r.line p.queueLevel ++ [r.rows.length]) }
  else r

/-- The first process with a pid goes, gives its memory and disk back, and all lines form anew. -/
def dismiss (r : Roster) (pid : Int) : Roster :=
  match r.rows.find? fun p => p.pid == pid with
  | none => r
  | some p =>
    lineUp { r with
      rows := r.rows.eraseP fun p => p.pid == pid
      resources := { r.resources with
        freeRam := r.resources.freeRam + p.ramAlloc, freeHdd := r.resources.freeHdd + p.hddAlloc } }

/-- The first process that passes a test is stopped, and a core comes free if it had one. -/
def halt (r : Roster) (test : Process → Bool) (text : Bytes) : Roster :=
  match r.rows.find? test with
  | none => r
  | some p =>
    { r.change test fun p => { p.setState text with coreId := if p.coreId ≥ 0 then -1 else p.coreId } with
      resources := { r.resources with
        freeCores := r.resources.freeCores + if p.coreId ≥ 0 then 1 else 0 } }

/-- The process at a place passes the scheduler's test for READY. -/
def ready (r : Roster) (place : Nat) : Bool := r.rows[place]?.any fun p => looksReady p.state

/-- Everyone in line, in the order of service. -/
def queued (r : Roster) : List Nat := r.line .system ++ r.line .interactive ++ r.line .background

/-- The first in line who is READY. -/
def next (r : Roster) : Option Nat := r.queued.find? r.ready

/-- A process gets a core number, which is counted from the resources and not taken from them. -/
def dispatch (r : Roster) (place : Nat) : Roster :=
  { r with rows := r.rows.modify place fun p =>
      { p.setState stateRunning with coreId := assignedCore r.resources } }

/-- The service of a tick: the next is dispatched, and the interactive line moves up if it is in it. -/
def serve (r : Roster) : Roster :=
  match r.next with
  | none => r
  | some place =>
    if (r.line .system).any r.ready ∨ (r.line .interactive).any r.ready = false then r.dispatch place
    else
      { r.dispatch place with
        line := Function.update r.line .interactive ((r.line .interactive).tail ++ [place]) }

/-- Everyone ages, and the lines form anew if someone has changed his level. -/
def age (r : Roster) : Roster :=
  let aged := { r with rows := r.rows.map fun p => (ageProcess p).1 }
  if r.rows.any fun p => (ageProcess p).2 then aged.lineUp else aged

/-- A request for both amounts is granted if both are free. -/
def affords (r : Roster) (request : ResourceRequest) : Bool :=
  request.ram ≤ r.resources.freeRam ∧ request.hdd ≤ r.resources.freeHdd

/-- The amounts of a request are taken from the free ones. -/
def charge (r : Roster) (request : ResourceRequest) : Roster :=
  { r with resources := { r.resources with
      freeRam := r.resources.freeRam - request.ram, freeHdd := r.resources.freeHdd - request.hdd } }

/-- A message of a child is a request, which is granted or denied, or says whom to dismiss, or nothing. -/
def hear (r : Roster) (childPid : Int) (stack message : Bytes) : Option Bytes × Roster :=
  match requestOf stack message, terminationOf message with
  | some request, _ =>
    if r.affords request then
      (some (grantReply childPid), (r.charge request).enrol
        (newProcess childPid request.name (defaultPriority (getQueueLevel request.name))
          (getQueueLevel request.name) request.ram request.hdd))
    else (some denyReply, r)
  | none, some pid => (none, r.dismiss pid)
  | none, none => (none, r)

/-- What a step of the kernel is meant to do. -/
def step (r : Roster) : KernelOp → Roster
  | .createPcb pid name priority ram hdd =>
    r.enrol (newProcess pid name priority (getQueueLevel name) ram hdd)
  | .removePcb pid => r.dismiss pid
  | .setProcessPriority pid priority =>
    r.change (fun p => p.pid == pid) fun p => { p with priority := min (max priority 0) 10 }
  | .sendInterrupt pid => r.halt (fun p => p.pid == pid && looksRunning p.state) stateBlocked
  | .unblockAfterDelay pid =>
    r.change (fun p => p.pid == pid && looksBlocked p.state) fun p => p.setState stateReady
  | .sendMinimize pid => r.halt (fun p => p.pid == pid) stateMinimized
  | .sendResume pid => r.change (fun p => p.pid == pid) fun p => p.setState stateRunning
  | .schedulerTick => r.serve
  | .agingTick => r.age
  | .handleIpcRequest childPid stack message => (r.hear childPid stack message).2

/-- The roster with its counters brought back into ints. -/
def ints (r : Roster) : Roster := { r with resources := r.resources.ints }

/-- What a step is meant to show. -/
def shown (r : Roster) : KernelOp → Option KernelEvent
  | .schedulerTick => r.next.map .dispatched
  | .handleIpcRequest childPid stack message => (r.hear childPid stack message).1.map .reply
  | _ => none

end Roster

namespace Kernel

/-- What a step of the kernel shows: the reply it writes, or the slot it dispatches. -/
def shown (k : Kernel) : KernelOp → Option KernelEvent
  | .schedulerTick => k.dispatchTarget.map fun slot => .dispatched slot.val
  | .handleIpcRequest childPid stack message => (k.handleIpcRequest childPid stack message).1.map .reply
  | _ => none

/-- The kernel without its arrays. -/
def roster (k : Kernel) : Roster where
  rows := k.pcbs.entries
  line := fun level => (k.queue level).toList.map Fin.val
  resources := k.resources

@[simp] theorem roster_rows (k : Kernel) : k.roster.rows = k.pcbs.entries := rfl

@[simp] theorem roster_resources (k : Kernel) : k.roster.resources = k.resources := rfl

/-- A roster is the kernel's if its three parts are. -/
theorem roster_eq {k : Kernel} {r : Roster} (rows : k.pcbs.entries = r.rows)
    (line : ∀ level, (k.queue level).toList.map Fin.val = r.line level)
    (resources : k.resources = r.resources) : k.roster = r := by
  obtain ⟨rows', line', resources'⟩ := r
  obtain rfl : (fun level => (k.queue level).toList.map Fin.val) = line' := funext line
  obtain rfl : k.pcbs.entries = rows' := rows
  obtain rfl : k.resources = resources' := resources
  rfl

/-- A loop over the table finds the slot with the place where the list is searched. -/
theorem findPcb_val (k : Kernel) (test : Process → Bool) :
    (k.findPcb test).map Fin.val = k.roster.rows.findIdx? test :=
  SlotArray.findFirst_val test k.pcbs

/-- A rebuild files the slots as everyone lines up. -/
theorem roster_rebuildQueues (k : Kernel) : k.rebuildQueues.roster = k.roster.lineUp := by
  refine roster_eq (by rw [rebuildQueues_pcbs]; rfl) (fun level => ?_) (by rw [rebuildQueues_resources]; rfl)
  rw [rebuildQueues_queue]
  exact SlotArray.map_val_filter_slots (fun p => p.queueLevel == level) k.pcbs

/-- A loop over the table that ends at a process ends at the one the list is searched for. -/
theorem findPcb_pcb (k : Kernel) (test : Process → Bool) :
    (k.findPcb test).map k.pcb = k.roster.rows.find? test := by
  rw [roster_rows, SlotArray.entries, List.find?_map]
  rfl

/-- Writing the process of a live slot changes the list at its place. -/
theorem roster_setPcb {k : Kernel} {slot : Slot} (live : slot.val < k.pcbs.count) (edit : Process → Process) :
    (k.setPcb slot (edit (k.pcb slot))).roster =
      { k.roster with rows := k.roster.rows.modify slot.val edit } :=
  roster_eq (SlotArray.entries_modify k.pcbs slot live edit) (fun _ => rfl) rfl

/-- A loop that writes the process it finds changes the first that passes its test. -/
theorem roster_change {k k' : Kernel} {test : Process → Bool} {edit : Process → Process}
    (absent : k.findPcb test = none → k' = k)
    (found : ∀ slot, k.findPcb test = some slot → k' = k.setPcb slot (edit (k.pcb slot))) :
    k'.roster = k.roster.change test edit := by
  have place := k.findPcb_val test
  unfold Roster.change
  cases search : k.findPcb test with
  | none =>
    rw [search] at place
    rw [← place, absent search]
    rfl
  | some slot =>
    rw [search] at place
    rw [← place, found slot search]
    exact roster_setPcb (findPcb_some search).1 edit

/-- A loop that stops the process it finds halts the first that passes its test. -/
theorem roster_halt {k k' : Kernel} {test : Process → Bool} {text : Bytes}
    (absent : k.findPcb test = none → k' = k)
    (found : ∀ slot, k.findPcb test = some slot → k' = (k.setState slot text).dropCore slot) :
    k'.roster = k.roster.halt test text := by
  have place := k.findPcb_val test
  have process := k.findPcb_pcb test
  unfold Roster.halt Roster.change
  cases search : k.findPcb test with
  | none =>
    rw [search] at process
    rw [← process, absent search]
    rfl
  | some slot =>
    rw [search] at process place
    rw [← process, ← place, found slot search, stopped_eq]
    exact roster_eq (SlotArray.entries_modify k.pcbs slot (findPcb_some search).1 fun p =>
      { p.setState text with coreId := if p.coreId ≥ 0 then -1 else p.coreId }) (fun _ => rfl) rfl

/-- A new process is enrolled, the queue of its level having room whenever the table has. -/
theorem roster_createPcb {k : Kernel} (filed : Filed k) (pid : Int) (name : Bytes) (priority : Int)
    (level : QueueLevel) (ram hdd : Int) :
    (k.createPcb pid name priority level ram hdd).roster =
      k.roster.enrol (newProcess pid name priority level ram hdd) := by
  unfold Roster.enrol
  rw [roster_rows, SlotArray.length_entries]
  by_cases room : k.pcbs.count < maxProcesses
  · rw [if_pos room, createPcb, dif_pos room]
    refine roster_eq (SlotArray.entries_append _ room _) (fun other => ?_) rfl
    -- The slot is pushed behind the entries of one queue.
    have pushed := (push_room (k := { k with pcbs := k.pcbs.append room (newProcess pid name priority level ram hdd) })
      (filed.room room level) (k.pcbs.nextSlot room)).2 other
    rw [pushed, List.map_append]
    by_cases own : level = other
    · subst own
      simp [newProcess, SlotArray.nextSlot, roster]
    · simp [newProcess, own, Ne.symm own, roster]
  · rw [if_neg room, createPcb_full room]

/-- A removal dismisses the first process with the pid. -/
theorem roster_removePcb (k : Kernel) (pid : Int) : (k.removePcb pid).roster = k.roster.dismiss pid := by
  have process := k.findPcb_pcb fun p => p.pid == pid
  unfold Roster.dismiss
  cases search : k.findPcb fun p => p.pid == pid with
  | none =>
    rw [search] at process
    rw [← process, removePcb_none (deletePcb_none search)]
    rfl
  | some slot =>
    rw [search] at process
    rw [← process, removePcb_some (deletePcb_some search)]
    -- The rest of the table lines up, and the counters have no part in that.
    have lines := congrArg Roster.line (roster_rebuildQueues { k with pcbs := k.pcbs.removeAt slot })
    have rows := SlotArray.entries_removeAt_first search
    refine roster_eq ?_ (fun level => ?_) ?_
    · show ({ k with pcbs := k.pcbs.removeAt slot } : Kernel).rebuildQueues.pcbs.entries = _
      rw [rebuildQueues_pcbs]
      exact rows
    · refine (congrFun lines level).trans ?_
      simp only [Roster.lineUp, roster_rows, rows]
      rfl
    · simp only [reclaimResources, rebuildQueues_resources]
      rfl

/-- The test of the scheduler on a live slot is that of the list at its place. -/
theorem roster_ready {k : Kernel} {slot : Slot} (live : slot.val < k.pcbs.count) :
    k.roster.ready slot.val = looksReady (k.pcb slot).state := by
  rw [Roster.ready, roster_rows, SlotArray.getElem?_entries _ slot live]
  rfl

/-- The scan of a queue finds the first in line who is READY. -/
theorem firstReady_val {k : Kernel} (filed : Filed k) (level : QueueLevel) :
    (k.firstReady level).map Fin.val = (k.roster.line level).find? k.roster.ready := by
  show _ = ((k.queue level).toList.map Fin.val).find? k.roster.ready
  rw [firstReady_eq, List.find?_map]
  refine congrArg _ (List.find?_congr fun slot member => ?_)
  exact (roster_ready (filed.live level slot member).1).symm

/-- The target of a tick is the next one in line. -/
theorem dispatchTarget_val {k : Kernel} (filed : Filed k) :
    k.dispatchTarget.map Fin.val = k.roster.next := by
  simp only [dispatchTarget, Roster.next, Roster.queued, List.find?_append, Option.map_or,
    firstReady_val filed, Option.or_assoc]

/-- Someone in a line is READY exactly when the scan of the queue finds a slot. -/
theorem roster_any_ready {k : Kernel} (filed : Filed k) (level : QueueLevel) :
    (k.roster.line level).any k.roster.ready = (k.firstReady level).isSome := by
  rw [← Option.isSome_map, firstReady_val filed, List.isSome_find?]

/-- A tick serves the next one in line. -/
theorem roster_schedulerTick {k : Kernel} (filed : Filed k) : k.schedulerTick.roster = k.roster.serve := by
  have next := dispatchTarget_val filed
  unfold Roster.serve
  rcases k.schedulerTick_cases with ⟨target, -, tick⟩ | ⟨slot, level, target, found, skipped, tick⟩ |
    ⟨slot, target, system, interactive, tick⟩
  · rw [target] at next
    rw [← next, tick]
    rfl
  · rw [target] at next
    rw [← next, tick, roster_any_ready filed, roster_any_ready filed]
    -- Without a READY process in queue_Q0 there is none in queue_Q1 either.
    have unmoved : (k.firstReady .system).isSome = true ∨ (k.firstReady .interactive).isSome = false := by
      cases above : k.firstReady .system with
      | some other => exact Or.inl rfl
      | none => exact Or.inr (by rw [skipped above]; rfl)
    dsimp only [Option.map_some]
    rw [if_pos unmoved]
    exact roster_setPcb (filed.live level slot (firstReady_some found).1).1 fun p =>
      { p.setState stateRunning with coreId := assignedCore k.resources }
  · rw [target] at next
    rw [← next, tick, roster_any_ready filed, roster_any_ready filed, system, interactive]
    obtain ⟨queued, -⟩ := firstReady_some interactive
    have dispatched := roster_setPcb (filed.live .interactive slot queued).1 fun p =>
      { p.setState stateRunning with coreId := assignedCore k.resources }
    -- The front goes and the dispatched slot comes, so the push is taken.
    have turn := rotateInteractive_rotates queued
    refine roster_eq (congrArg Roster.rows dispatched) (fun level => ?_) rfl
    by_cases own : level = .interactive
    · subst own
      rw [turn.interactive, List.map_append, List.map_tail]
      rfl
    · rw [turn.others level own]
      simp [own, roster, Roster.dispatch]

/-- An aging tick ages everyone. -/
theorem roster_agingTick (k : Kernel) : k.agingTick.roster = k.roster.age := by
  have rows := SlotArray.entries_sweep ageProcess k.pcbs
  have flag : (k.pcbs.sweep ageProcess).2 = k.pcbs.entries.any fun p => (ageProcess p).2 := by
    rw [SlotArray.sweep_flag, SlotArray.entries, List.any_map]
    rfl
  unfold agingTick Roster.age
  dsimp only
  rw [flag, roster_rows]
  split
  · rw [roster_rebuildQueues]
    simp only [Roster.lineUp, roster, removeFromQueues_pcbs, rows]
    rfl
  · exact roster_eq rows (fun _ => rfl) rfl

/-- A message is heard as the handler treats it, and the reply is the same. -/
theorem roster_handleIpcRequest {k : Kernel} (filed : Filed k) (childPid : Int) (stack message : Bytes) :
    (k.handleIpcRequest childPid stack message).1 = (k.roster.hear childPid stack message).1 ∧
      (k.handleIpcRequest childPid stack message).2.roster = (k.roster.hear childPid stack message).2 := by
  unfold handleIpcRequest Roster.hear
  cases requestOf stack message with
  | some request =>
    rcases k.allocateResources_cases request.ram request.hdd with ⟨ram, hdd, granted⟩ | ⟨short, denied⟩
    · have affords : k.roster.affords request = true := by
        simp [Roster.affords, ram, hdd]
      simp only [handleRequest, granted, affords, ↓reduceIte, createRequested, true_and]
      -- The table and the queues are those before the charge.
      have charged : Filed { k with resources := { k.resources with
          freeRam := k.resources.freeRam - request.ram, freeHdd := k.resources.freeHdd - request.hdd } } :=
        ⟨filed.live, filed.sized, filed.taken⟩
      exact roster_createPcb charged ..
    · have affords : k.roster.affords request = false := decide_eq_false short
      simp only [handleRequest, denied, affords]
      exact ⟨rfl, rfl⟩
  | none =>
    cases terminationOf message with
    | some pid => exact ⟨rfl, k.roster_removePcb pid⟩
    | none => exact ⟨rfl, rfl⟩

/-- Every step of the kernel is the step it is meant to be. -/
theorem roster_step {k : Kernel} (filed : Filed k) (op : KernelOp) :
    (k.step op).roster = k.roster.step op := by
  cases op with
  | createPcb pid name priority ram hdd => exact roster_createPcb filed ..
  | removePcb pid => exact k.roster_removePcb pid
  | setProcessPriority pid priority =>
    exact roster_change (fun absent => by simp [step, setProcessPriority, absent])
      fun slot found => by simp [step, setProcessPriority, found]
  | sendInterrupt pid =>
    exact roster_halt (fun absent => by simp [step, sendInterrupt, absent])
      fun slot found => by simp [step, sendInterrupt, found]
  | unblockAfterDelay pid =>
    exact roster_change (fun absent => by simp [step, unblockAfterDelay, absent])
      fun slot found => by simp [step, unblockAfterDelay, found, setState]
  | sendMinimize pid =>
    exact roster_halt (fun absent => by simp [step, sendMinimize, absent])
      fun slot found => by simp [step, sendMinimize, found]
  | sendResume pid =>
    exact roster_change (fun absent => by simp [step, sendResume, absent])
      fun slot found => by simp [step, sendResume, found, setState]
  | schedulerTick => exact roster_schedulerTick filed
  | agingTick => exact k.roster_agingTick
  | handleIpcRequest childPid stack message => exact (roster_handleIpcRequest filed ..).2

/-- Every step of the kernel shows what it is meant to show. -/
theorem roster_shown {k : Kernel} (filed : Filed k) (op : KernelOp) : k.shown op = k.roster.shown op := by
  cases op with
  | schedulerTick =>
    rw [shown, Roster.shown, ← dispatchTarget_val filed, Option.map_map]
    rfl
  | handleIpcRequest childPid stack message =>
    rw [shown, Roster.shown, (roster_handleIpcRequest filed ..).1]
  | _ => rfl

/-- From a state in which the queues are filed, a run of the kernel is one of the list. -/
theorem roster_run {k : Kernel} (filed : Filed k) (ops : List KernelOp) :
    (Machine.run step k ops).roster = Machine.run Roster.step k.roster ops ∧
      Machine.outputs step shown k ops = Machine.outputs Roster.step Roster.shown k.roster ops := by
  -- The queues are filed in every state on the way, which makes each step the one that is meant.
  have kept := fun (k : Kernel) (op : KernelOp) (filed : Filed k) => filed.step op
  have simulates := fun (k : Kernel) (op : KernelOp) (filed : Filed k) => roster_step filed op
  exact ⟨Machine.run_abstract_of_invariant kept simulates filed ops,
    Machine.outputs_abstract_of_invariant kept simulates (fun k op filed => roster_shown filed op) filed ops⟩

end Kernel

end Nebula
