import Mathlib.Algebra.Order.BigOperators.Group.List
import Mathlib.Algebra.Order.Group.Int
import Mathlib.Algebra.Order.Monoid.Prod
import Nebula.Resources.Books
import Nebula.Resources.Sections

/-! The kernel's threads, interleaved section by section, do what its calls do one after the other. -/

namespace Nebula

open CText

deriving instance DecidableEq for KernelOp

deriving instance DecidableEq for Worker

/-- The amounts a thread has taken from the free ones or has still to give back. -/
def Worker.owes : Worker → Amounts
  | .granted _ request => request.amounts
  | .removed amounts => amounts
  | _ => 0

/-- The threads between their sections, each with the call it was started for. -/
structure Interleaving where
  sections : Sections
  calls : List KernelOp

/-- What can happen next. -/
inductive ThreadStep where
  /-- A call begins; it is over at once if it has one section only. -/
  | call (op : KernelOp)
  /-- A thread goes on to its next section. -/
  | turn (index : Nat)

namespace Kernel

/-- The kernel with some of its free memory and disk taken away. -/
def indebted (k : Kernel) (amounts : Amounts) : Kernel :=
  { k with resources := { k.resources with
      freeRam := k.resources.freeRam - amounts.1, freeHdd := k.resources.freeHdd - amounts.2 } }

theorem indebted_zero (k : Kernel) : k.indebted 0 = k := by
  obtain ⟨pcbs, queue, resources, refused⟩ := k
  simp [indebted]

theorem indebted_indebted (k : Kernel) (first second : Amounts) :
    (k.indebted first).indebted second = k.indebted (first + second) := by
  simp [indebted, Int.sub_sub]

theorem indebted_refile (k : Kernel) (amounts : Amounts) :
    (k.indebted amounts).refile = k.refile.indebted amounts := by
  unfold refile
  show List.foldl fileSlot (k.indebted amounts) k.pcbs.slots = _
  generalize k.pcbs.slots = slots
  -- Filing a slot looks at no counter.
  induction slots generalizing k with
  | nil => rfl
  | cons slot rest ih => exact ih (k.fileSlot slot)

theorem indebted_rebuildQueues (k : Kernel) (amounts : Amounts) :
    (k.indebted amounts).rebuildQueues = k.rebuildQueues.indebted amounts :=
  indebted_refile { k with queue := fun level => (k.queue level).drain } amounts

theorem indebted_createRequested (k : Kernel) (amounts : Amounts) (childPid : Int) (request : ResourceRequest) :
    (k.indebted amounts).createRequested childPid request = (k.createRequested childPid request).indebted amounts := by
  unfold createRequested createPcb
  split <;> rename_i room
  · exact (dif_pos room).symm ▸ rfl
  · exact (dif_neg room).symm ▸ rfl

theorem indebted_deletePcb (k : Kernel) (amounts : Amounts) (pid : Int) :
    (k.indebted amounts).deletePcb pid = ((k.deletePcb pid).1, (k.deletePcb pid).2.indebted amounts) := by
  cases found : k.findPcb fun p => p.pid == pid with
  | none =>
    have absent : (k.indebted amounts).findPcb (fun p => p.pid == pid) = none := found
    rw [deletePcb_none found, deletePcb_none absent]
  | some slot =>
    have present : (k.indebted amounts).findPcb (fun p => p.pid == pid) = some slot := found
    rw [deletePcb_some found, deletePcb_some present]
    exact congrArg (Prod.mk _) (indebted_rebuildQueues { k with pcbs := k.pcbs.removeAt slot } amounts)

/-- The search of the table does not look at them either. -/
theorem indebted_find (k : Kernel) (amounts : Amounts) (test : Process → Bool) :
    (k.indebted amounts).findPcb test = k.findPcb test := rfl

theorem indebted_setState_dropCore (k : Kernel) (amounts : Amounts) (slot : Slot) (text : Bytes) :
    ((k.indebted amounts).setState slot text).dropCore slot =
      ((k.setState slot text).dropCore slot).indebted amounts := by
  rw [stopped_eq, stopped_eq]
  rfl

theorem indebted_schedulerTick (k : Kernel) (amounts : Amounts) :
    (k.indebted amounts).schedulerTick = k.schedulerTick.indebted amounts := by
  have same := fun level => show (k.indebted amounts).firstReady level = k.firstReady level from rfl
  unfold schedulerTick
  rw [same, same, same]
  -- Every level is served alike, the interactive one with its rotation.
  cases k.firstReady .system with
  | some slot => rfl
  | none =>
    cases k.firstReady .interactive with
    | some slot => rfl
    | none => cases k.firstReady .background <;> rfl

theorem indebted_agingTick (k : Kernel) (amounts : Amounts) :
    (k.indebted amounts).agingTick = k.agingTick.indebted amounts := by
  unfold agingTick
  show (if (k.pcbs.sweep ageProcess).2 then _ else _) = _
  dsimp only
  split
  · exact indebted_rebuildQueues
      (({ k with pcbs := (k.pcbs.sweep ageProcess).1 } : Kernel).removeFromQueues (-1)) amounts
  · rfl

/-- A call of one section does not look at the free memory or disk. -/
theorem indebted_step (k : Kernel) (amounts : Amounts) {op : KernelOp} (one : op.oneSection = true) :
    (k.indebted amounts).step op = (k.step op).indebted amounts := by
  cases op with
  | createPcb => cases one
  | removePcb => cases one
  | handleIpcRequest => cases one
  | setProcessPriority pid priority =>
    simp only [step, setProcessPriority, indebted_find]
    cases k.findPcb fun p => p.pid == pid <;> rfl
  | sendInterrupt pid =>
    simp only [step, sendInterrupt, indebted_find]
    cases k.findPcb fun p => p.pid == pid && looksRunning p.state with
    | none => rfl
    | some slot => exact k.indebted_setState_dropCore amounts slot _
  | unblockAfterDelay pid =>
    simp only [step, unblockAfterDelay, indebted_find]
    cases k.findPcb fun p => p.pid == pid && looksBlocked p.state <;> rfl
  | sendMinimize pid =>
    simp only [step, sendMinimize, indebted_find]
    cases k.findPcb fun p => p.pid == pid with
    | none => rfl
    | some slot => exact k.indebted_setState_dropCore amounts slot _
  | sendResume pid =>
    simp only [step, sendResume, indebted_find]
    cases k.findPcb fun p => p.pid == pid <;> rfl
  | schedulerTick => exact k.indebted_schedulerTick amounts
  | agingTick => exact k.indebted_agingTick amounts

end Kernel

/-- A call of one section leaves the free memory and disk as they are. -/
theorem Roster.free_step (r : Roster) {op : KernelOp} (one : op.oneSection = true) :
    (r.step op).resources.freeRam = r.resources.freeRam ∧ (r.step op).resources.freeHdd = r.resources.freeHdd := by
  have change := fun test edit => show (r.change test edit).resources.freeRam = r.resources.freeRam ∧
      (r.change test edit).resources.freeHdd = r.resources.freeHdd by
    rw [resources_change]
    exact ⟨rfl, rfl⟩
  have halt := fun test text => show (r.halt test text).resources.freeRam = r.resources.freeRam ∧
      (r.halt test text).resources.freeHdd = r.resources.freeHdd by
    unfold Roster.halt
    split <;> exact ⟨rfl, rfl⟩
  cases op with
  | createPcb => cases one
  | removePcb => cases one
  | handleIpcRequest => cases one
  | setProcessPriority => exact change ..
  | sendInterrupt => exact halt ..
  | unblockAfterDelay => exact change ..
  | sendMinimize => exact halt ..
  | sendResume => exact change ..
  | schedulerTick =>
    rw [Roster.step, r.resources_serve]
    exact ⟨rfl, rfl⟩
  | agingTick =>
    rw [Roster.step, r.resources_age]
    exact ⟨rfl, rfl⟩

/-- What is free and what each process holds is the same after a call of one section. -/
theorem Kernel.Filed.keeps {k : Kernel} (filed : Kernel.Filed k) {op : KernelOp} (one : op.oneSection = true) :
    (k.step op).resources.freeRam = k.resources.freeRam ∧ (k.step op).resources.freeHdd = k.resources.freeHdd ∧
      (k.step op).pcbs.entries.map Process.holds = k.pcbs.entries.map Process.holds := by
  have meant := Kernel.roster_step filed op
  have free := k.roster.free_step one
  have held := k.roster.holds_step one
  rw [← meant] at free held
  exact ⟨free.1, free.2, held⟩

namespace Interleaving

/-- What all threads owe. -/
def owed (t : Interleaving) : Amounts := (t.sections.workers.map Worker.owes).sum

def start (ramMb hddMb cores : Int) : Interleaving := ⟨Sections.start ramMb hddMb cores, []⟩

/-- A thread is started for a call, or the call is over in its one section. -/
def call (t : Interleaving) : KernelOp → Interleaving
  | op@(.handleIpcRequest childPid stack message) =>
    ⟨t.sections.step (.handle childPid stack message), t.calls ++ [op]⟩
  | op@(.removePcb pid) => ⟨t.sections.step (.remove pid), t.calls ++ [op]⟩
  -- Nothing but the handler calls create_pcb.
  | .createPcb .. => t
  | op => { t with sections := { t.sections with kernel := t.sections.kernel.step op } }

def step (t : Interleaving) : ThreadStep → Interleaving
  | .call op => t.call op
  | .turn index => { t with sections := t.sections.turn index }

/-- The call whose section under pcb_lock a step is; a request that is denied never comes to it. -/
def locks (t : Interleaving) : ThreadStep → Option KernelOp
  | .call op => if op.oneSection then some op else none
  | .turn index =>
    match t.sections.workers[index]? with
    | some (.granted ..) | some (.removing _) => t.calls[index]?
    | _ => none

/-- The call that begins in a step. -/
def made : ThreadStep → Option KernelOp
  | .call op => some op
  | .turn _ => none

/-- The call of a thread that may still come to its section under pcb_lock. -/
def pend : Worker × KernelOp → Option KernelOp
  | (.removed _, _) | (.finished, _) => none
  | (_, op) => some op

/-- The calls that may still come to their sections under pcb_lock. -/
def pending (t : Interleaving) : Multiset KernelOp :=
  ((t.sections.workers.zip t.calls : List (Worker × KernelOp)) : Multiset (Worker × KernelOp)).filterMap pend

/-- What a step shows: the slot a tick dispatches, and the reply of a handler behind its create_pcb. -/
def shown (t : Interleaving) : ThreadStep → Option KernelEvent
  | .call op => if op.oneSection then t.sections.kernel.shown op else none
  | .turn index =>
    match t.sections.workers[index]? with
    | some (.granted childPid _) => some (.reply (grantReply childPid))
    | _ => none

/-- No request asks for a negative amount. -/
def AsksNoNegative : ThreadStep → Prop
  | .call (.handleIpcRequest _ stack message) => ∀ request, requestOf stack message = some request → 0 ≤ request.amounts
  | _ => True

/-- A thread works on its call. -/
inductive WorksOn : Worker → KernelOp → Prop
  | reading (childPid : Int) (stack message : Bytes)
      (positive : ∀ request, requestOf stack message = some request → 0 ≤ request.amounts) :
      WorksOn (.reading childPid stack message) (.handleIpcRequest childPid stack message)
  | requesting (childPid : Int) (stack message : Bytes) (request : ResourceRequest)
      (asked : requestOf stack message = some request) (positive : 0 ≤ request.amounts) :
      WorksOn (.requesting childPid request) (.handleIpcRequest childPid stack message)
  | granted (childPid : Int) (stack message : Bytes) (request : ResourceRequest)
      (asked : requestOf stack message = some request) (positive : 0 ≤ request.amounts) :
      WorksOn (.granted childPid request) (.handleIpcRequest childPid stack message)
  | removing (pid : Int) (op : KernelOp) (removes : ∀ k : Kernel, k.step op = k.removePcb pid ∧ k.shown op = none) :
      WorksOn (.removing pid) op
  | removed (amounts : Amounts) (op : KernelOp) (positive : 0 ≤ amounts) : WorksOn (.removed amounts) op
  | finished (op : KernelOp) : WorksOn .finished op

/-- The kernel between the sections is the one that has done the calls, but for what the threads owe. -/
structure Follows (t : Interleaving) (k : Kernel) : Prop where
  kernel : t.sections.kernel = k.indebted t.owed
  filed : Kernel.Filed k
  free : 0 ≤ t.sections.kernel.resources.freeRam ∧ 0 ≤ t.sections.kernel.resources.freeHdd
  held : ∀ p ∈ k.pcbs.entries, 0 ≤ p.amounts
  works : List.Forall₂ WorksOn t.sections.workers t.calls

/-- Nobody owes a negative amount. -/
theorem WorksOn.owes_nonneg {worker : Worker} {op : KernelOp} (works : WorksOn worker op) : 0 ≤ worker.owes := by
  cases works with
  | granted childPid stack message request asked positive => exact positive
  | removed amounts op positive => exact positive
  | _ => exact le_refl (0 : Amounts)

namespace Follows

variable {t : Interleaving} {k : Kernel}

theorem start {ramMb hddMb : Int} (cores : Int) (ram : 0 ≤ ramMb) (hdd : 0 ≤ hddMb) :
    Follows (start ramMb hddMb cores) (Kernel.boot ramMb hddMb cores) where
  kernel := (Kernel.indebted_zero _).symm
  filed := Kernel.filed_boot ramMb hddMb cores
  free := ⟨ram, hdd⟩
  held := fun _ member => absurd member List.not_mem_nil
  works := .nil

/-- A thread owes no more than all of them together. -/
theorem owes_le (follows : Follows t k) {index : Nat} {worker : Worker}
    (here : t.sections.workers[index]? = some worker) : worker.owes ≤ t.owed := by
  have positive : ∀ amounts ∈ t.sections.workers.map Worker.owes, 0 ≤ amounts := by
    intro amounts member
    obtain ⟨other, listed, rfl⟩ := List.mem_map.mp member
    obtain ⟨place, there⟩ := List.mem_iff_getElem?.mp listed
    obtain ⟨op, -, works⟩ := Bag.forall₂_getElem? follows.works there
    exact works.owes_nonneg
  exact List.single_le_sum positive _ (List.mem_map_of_mem (List.mem_of_getElem? here))

/-- A thread that starts owes nothing. -/
theorem started (follows : Follows t k) {worker : Worker} {op : KernelOp} (works : WorksOn worker op)
    (clear : worker.owes = 0) :
    Follows ⟨{ t.sections with workers := t.sections.workers ++ [worker] }, t.calls ++ [op]⟩ k where
  kernel := by
    rw [follows.kernel]
    refine congrArg k.indebted ?_
    simp [owed, clear]
  filed := follows.filed
  free := follows.free
  held := follows.held
  works := List.rel_append follows.works (.cons works .nil)

/-- A section of a thread, and what its call does. -/
theorem turned (follows : Follows t k) {index : Nat} {worker next : Worker} {op : KernelOp} {kernel k' : Kernel}
    {granted reclaimed : Multiset Amounts} (here : t.sections.workers[index]? = some worker)
    (called : t.calls[index]? = some op) (works : WorksOn next op)
    (same : kernel = k'.indebted (t.owed - worker.owes + next.owes)) (filed : Kernel.Filed k')
    (free : 0 ≤ kernel.resources.freeRam ∧ 0 ≤ kernel.resources.freeHdd) (held : ∀ p ∈ k'.pcbs.entries, 0 ≤ p.amounts) :
    Follows ⟨⟨kernel, t.sections.workers.set index next, granted, reclaimed⟩, t.calls⟩ k' where
  kernel := by
    rw [same]
    exact congrArg k'.indebted (Bag.sum_set Worker.owes here next).symm
  filed := filed
  free := free
  held := held
  works := Bag.forall₂_set follows.works called works

/-- A call of one section does the same before what is owed is taken away and after. -/
theorem called (follows : Follows t k) {op : KernelOp} (one : op.oneSection = true) :
    Follows ⟨{ t.sections with kernel := t.sections.kernel.step op }, t.calls⟩ (k.step op) where
  kernel := by
    rw [follows.kernel]
    exact k.indebted_step t.owed one
  filed := follows.filed.step op
  free := by
    obtain ⟨ram, hdd, -⟩ := follows.filed.keeps one
    have free := follows.free
    rw [follows.kernel] at free ⊢
    rw [k.indebted_step t.owed one]
    -- The counters are what they were before the call, with the same amounts taken away.
    simp only [Kernel.indebted, ram, hdd] at free ⊢
    exact free
  held := by
    intro p member
    have held := List.mem_map_of_mem (f := Process.holds) member
    rw [(follows.filed.keeps one).2.2] at held
    obtain ⟨q, listed, same⟩ := List.mem_map.mp held
    have positive := follows.held q listed
    have amounts : q.amounts = p.amounts := by
      simp only [Process.holds, Prod.mk.injEq] at same
      exact Prod.ext same.1 same.2.1
    rwa [amounts] at positive
  works := follows.works

/-- A handler that has read its message owes nothing and works on what the message says. -/
theorem worksOn_afterReading {childPid : Int} {stack message : Bytes}
    (positive : ∀ request, requestOf stack message = some request → 0 ≤ request.amounts) :
    WorksOn (.afterReading childPid stack message) (.handleIpcRequest childPid stack message) ∧
      (Worker.afterReading childPid stack message).owes = 0 := by
  unfold Worker.afterReading
  cases asked : requestOf stack message with
  | some request => exact ⟨.requesting childPid stack message request asked (positive request asked), rfl⟩
  | none =>
    cases removes : terminationOf message with
    | some pid =>
      refine ⟨.removing pid _ fun k => ?_, rfl⟩
      simp [Kernel.step, Kernel.shown, Kernel.handleIpcRequest, asked, removes]
    | none => exact ⟨.finished _, rfl⟩

/-- The call of a request that is charged for grants it. -/
theorem step_granted (follows : Follows t k) {index : Nat} {childPid : Int} {stack message : Bytes}
    {request : ResourceRequest} (here : t.sections.workers[index]? = some (.granted childPid request))
    (asked : requestOf stack message = some request) :
    k.step (.handleIpcRequest childPid stack message) = (k.createRequested childPid request).indebted request.amounts ∧
      k.shown (.handleIpcRequest childPid stack message) = some (.reply (grantReply childPid)) := by
  -- What is owed comes from amounts that were free, so these are still enough.
  have owes := follows.owes_le here
  obtain ⟨ram, hdd⟩ := follows.free
  rw [follows.kernel] at ram hdd
  have enough : request.ram ≤ k.resources.freeRam ∧ request.hdd ≤ k.resources.freeHdd :=
    ⟨owes.1.trans (Int.sub_nonneg.mp ram), owes.2.trans (Int.sub_nonneg.mp hdd)⟩
  have allocated : k.allocateResources request.ram request.hdd = (true, k.indebted request.amounts) := by
    rcases k.allocateResources_cases request.ram request.hdd with ⟨-, -, granted⟩ | ⟨short, -⟩
    · exact granted
    · exact absurd enough short
  simp [Kernel.step, Kernel.shown, Kernel.handleIpcRequest, asked, Kernel.handleRequest, allocated,
    k.indebted_createRequested]

/-- A process that is created for a request has the amounts of the request. -/
theorem held_createRequested (held : ∀ p ∈ k.pcbs.entries, 0 ≤ p.amounts) {request : ResourceRequest}
    (positive : 0 ≤ request.amounts) {childPid : Int} :
    ∀ p ∈ (k.createRequested childPid request).pcbs.entries, 0 ≤ p.amounts := by
  unfold Kernel.createRequested
  by_cases room : k.pcbs.count < maxProcesses
  · rw [Kernel.createPcb_pcbs room, SlotArray.entries_append]
    intro p member
    rcases List.mem_append.mp member with old | new
    · exact held p old
    · rw [List.mem_singleton.mp new]
      exact positive
  · rw [Kernel.createPcb_full room]
    exact held

/-- A deletion leaves others, and answers what one of them had. -/
theorem held_deletePcb (held : ∀ p ∈ k.pcbs.entries, 0 ≤ p.amounts) (pid : Int) :
    (∀ p ∈ (k.deletePcb pid).2.pcbs.entries, 0 ≤ p.amounts) ∧
      ∀ amounts ∈ (k.deletePcb pid).1, (0 : Amounts) ≤ amounts := by
  constructor
  · rw [Kernel.deletePcb_entries]
    exact fun p member => held p (List.mem_of_mem_eraseP member)
  · intro amounts answered
    cases found : k.findPcb fun p => p.pid == pid with
    | none =>
      rw [Kernel.deletePcb_none found] at answered
      cases answered
    | some slot =>
      rw [Kernel.deletePcb_some found] at answered
      cases answered
      exact held _ (SlotArray.mem_entries.mpr ⟨slot, (Kernel.findPcb_some found).1, rfl⟩)

/-- Each section keeps the kernel the one that has done the calls. -/
theorem turn (follows : Follows t k) (index : Nat) :
    Follows (t.step (.turn index)) (Machine.run Kernel.step k (t.locks (.turn index)).toList) := by
  unfold Interleaving.step locks Sections.turn
  dsimp only
  cases here : t.sections.workers[index]? with
  | none => exact follows
  | some worker =>
    obtain ⟨op, called, works⟩ := Bag.forall₂_getElem? follows.works here
    cases works with
    | reading childPid stack message positive =>
      obtain ⟨works, clear⟩ := @worksOn_afterReading childPid _ _ positive
      refine follows.turned here called works ?_ follows.filed follows.free follows.held
      rw [clear, follows.kernel]
      exact congrArg k.indebted (by simp [Worker.owes])
    | requesting childPid stack message request asked positive =>
      dsimp only
      rcases t.sections.kernel.allocateResources_cases request.ram request.hdd with ⟨ram, hdd, granted⟩ | ⟨-, denied⟩
      · rw [granted]
        refine follows.turned here called (.granted childPid stack message request asked positive) ?_ follows.filed
          ⟨Int.sub_nonneg.mpr ram, Int.sub_nonneg.mpr hdd⟩ follows.held
        have charged : t.sections.kernel.indebted request.amounts = k.indebted (t.owed + request.amounts) := by
          rw [follows.kernel, Kernel.indebted_indebted]
        refine charged.trans (congrArg k.indebted ?_)
        simp [Worker.owes]
      · rw [denied]
        refine follows.turned here called (.finished _) ?_ follows.filed follows.free follows.held
        rw [follows.kernel]
        exact congrArg k.indebted (by simp [Worker.owes])
    | granted childPid stack message request asked positive =>
      obtain ⟨granted, -⟩ := follows.step_granted here asked
      dsimp only
      rw [called]
      show Follows _ (k.step (.handleIpcRequest childPid stack message))
      refine follows.turned here called (.finished _) ?_ (follows.filed.step _) ?_ ?_
      · rw [granted, follows.kernel, Kernel.indebted_createRequested, Kernel.indebted_indebted]
        exact congrArg _ (by simp [Worker.owes])
      · rw [Kernel.createRequested, Kernel.createPcb_resources]
        exact follows.free
      · rw [granted]
        exact held_createRequested follows.held positive
    | removing pid op removes =>
      have done : k.step op = k.removePcb pid := (removes k).1
      dsimp only
      rw [called]
      show Follows _ (k.step op)
      have filed := follows.filed.step op
      rw [done] at filed ⊢
      have deleted := k.indebted_deletePcb t.owed pid
      rw [← follows.kernel] at deleted
      rw [deleted]
      have held := held_deletePcb follows.held pid
      have resources := k.deletePcb_resources pid
      have free := follows.free
      rw [follows.kernel] at free
      cases found : k.deletePcb pid with
      | mk amounts left =>
        rw [found] at held resources
        have unchanged : 0 ≤ (left.indebted t.owed).resources.freeRam ∧
            0 ≤ (left.indebted t.owed).resources.freeHdd := by
          rw [Kernel.indebted, resources]
          exact free
        cases amounts with
        | none =>
          rw [Kernel.removePcb_none found] at filed ⊢
          exact follows.turned here called (.finished _) (congrArg left.indebted (by simp [Worker.owes])) filed
            unchanged held.1
        | some amounts =>
          rw [Kernel.removePcb_some found] at filed ⊢
          refine follows.turned here called (.removed amounts _ (held.2 amounts rfl)) ?_ filed unchanged held.1
          -- What the call gives back the thread still owes.
          simp [Kernel.indebted, Kernel.reclaimResources, Worker.owes]
    | removed amounts op positive =>
      refine follows.turned here called (.finished _) ?_ follows.filed ?_ follows.held
      · rw [follows.kernel]
        simp [Kernel.indebted, Kernel.reclaimResources, Worker.owes]
        omega
      · exact ⟨Int.add_nonneg follows.free.1 positive.1, Int.add_nonneg follows.free.2 positive.2⟩
    | finished => exact follows

/-- Every step keeps the kernel the one that has done the calls. -/
theorem step (follows : Follows t k) {action : ThreadStep} (asks : AsksNoNegative action) :
    Follows (t.step action) (Machine.run Kernel.step k (t.locks action).toList) := by
  cases action with
  | turn index => exact follows.turn index
  | call op =>
    cases op with
    | createPcb => exact follows
    | handleIpcRequest childPid stack message => exact follows.started (.reading childPid stack message asks) rfl
    | removePcb pid => exact follows.started (.removing pid _ fun k => ⟨rfl, rfl⟩) rfl
    | _ => exact follows.called rfl

/-- A step shows what its call shows. -/
theorem shows (follows : Follows t k) (action : ThreadStep) :
    (t.shown action).toList = Machine.outputs Kernel.step Kernel.shown k (t.locks action).toList := by
  cases action with
  | call op =>
    unfold shown locks
    dsimp only
    split
    · -- The tick looks at the table and the queues only.
      rename_i one
      have same : (k.indebted t.owed).shown op = k.shown op := by cases op <;> first | rfl | cases one
      rw [follows.kernel, same]
      exact (List.append_nil _).symm
    · rfl
  | turn index =>
    unfold shown locks
    dsimp only
    cases here : t.sections.workers[index]? with
    | none => rfl
    | some worker =>
      obtain ⟨op, called, works⟩ := Bag.forall₂_getElem? follows.works here
      cases works with
      | granted childPid stack message request asked positive =>
        dsimp only
        rw [called]
        simp only [Option.toList_some, Machine.outputs, (follows.step_granted here asked).2, List.append_nil]
      | removing pid op removes =>
        dsimp only
        rw [called]
        simp [Machine.outputs, (removes k).2]
      | _ => rfl

/-- A thread that goes on changes what is pending by its own call. -/
theorem pending_turned {index : Nat} {worker : Worker} {op : KernelOp}
    (here : t.sections.workers[index]? = some worker) (called : t.calls[index]? = some op) :
    ∃ others : Multiset KernelOp, t.pending = (pend (worker, op)).toList + others ∧
      ∀ kernel next granted reclaimed,
        pending ⟨⟨kernel, t.sections.workers.set index next, granted, reclaimed⟩, t.calls⟩ =
          (pend (next, op)).toList + others := by
  have pair : (t.sections.workers.zip t.calls)[index]? = some (worker, op) :=
    List.getElem?_zip_eq_some.mpr ⟨here, called⟩
  obtain ⟨others, before, after⟩ := Bag.filterMap_set pair pend
  refine ⟨others, before, fun kernel next granted reclaimed => ?_⟩
  unfold pending
  dsimp only
  rw [Bag.zip_set here called]
  exact after (next, op)

/-- A thread that starts has its call pending. -/
theorem pending_started (follows : Follows t k) {worker : Worker} {op : KernelOp}
    (pends : pend (worker, op) = some op) :
    pending ⟨{ t.sections with workers := t.sections.workers ++ [worker] }, t.calls ++ [op]⟩ =
      t.pending + {op} := by
  unfold pending
  dsimp only
  rw [List.zip_append follows.works.length_eq, ← Multiset.coe_add, Multiset.filterMap_add]
  refine congrArg _ ?_
  show Multiset.filterMap pend ((worker, op) ::ₘ 0) = {op}
  rw [Multiset.filterMap_cons_some _ _ _ pends, Multiset.filterMap_zero]
  rfl

/-- What a step locks for was pending, or is called in the step. -/
theorem locks_le (follows : Follows t k) (action : ThreadStep) :
    ((t.locks action).toList : Multiset KernelOp) + (t.step action).pending ≤
      t.pending + ((made action).toList : Multiset KernelOp) := by
  cases action with
  | call op =>
    cases op with
    | createPcb =>
      exact (zero_add t.pending).trans_le (Multiset.le_add_right _ _)
    | handleIpcRequest childPid stack message =>
      exact (zero_add _).trans_le (follows.pending_started rfl).le
    | removePcb pid => exact (zero_add _).trans_le (follows.pending_started rfl).le
    | _ => exact (add_comm _ _).le
  | turn index =>
    rw [show ((made (.turn index)).toList : Multiset KernelOp) = 0 from rfl, add_zero]
    unfold Interleaving.step locks Sections.turn
    dsimp only
    cases here : t.sections.workers[index]? with
    | none => exact (zero_add _).le
    | some worker =>
      obtain ⟨op, called, works⟩ := Bag.forall₂_getElem? follows.works here
      obtain ⟨others, before, after⟩ := pending_turned here called
      rw [before]
      -- A thread that goes on has its own call pending, or has come to its section, or will not come to it.
      have less : ∀ worker, ((pend (worker, op)).toList : Multiset KernelOp) + others ≤ {op} + others := by
        intro worker
        refine add_le_add_left ?_ others
        cases worker <;> first | exact le_refl _ | exact Multiset.zero_le _
      cases works with
      | reading childPid stack message positive =>
        dsimp only
        rw [after]
        exact (zero_add _).trans_le (less _)
      | requesting childPid stack message request asked positive =>
        dsimp only
        cases t.sections.kernel.allocateResources request.ram request.hdd with
        | mk granted kernel =>
          cases granted with
          | false =>
            dsimp only
            rw [after]
            exact (zero_add _).trans_le (less .finished)
          | true =>
            dsimp only
            rw [after]
            exact (zero_add _).trans_le (less (.granted childPid request))
      | granted childPid stack message request asked positive =>
        dsimp only
        rw [after, called]
        exact le_of_eq (congrArg _ (zero_add others))
      | removing pid op removes =>
        dsimp only
        cases t.sections.kernel.deletePcb pid with
        | mk amounts kernel =>
          cases amounts with
          | none =>
            dsimp only
            rw [after, called]
            exact le_of_eq (congrArg _ (zero_add others))
          | some amounts =>
            dsimp only
            rw [after, called]
            exact le_of_eq (congrArg _ (zero_add others))
      | removed amounts op positive =>
        dsimp only
        rw [after]
        exact (zero_add _).le
      | finished =>
        dsimp only
        rw [before]
        exact (zero_add _).le

/-- In a run, the calls that are locked for are among those that were pending or are made. -/
theorem outputs_locks_le (follows : Follows t k) {steps : List ThreadStep}
    (asks : ∀ action ∈ steps, AsksNoNegative action) :
    (Machine.outputs Interleaving.step locks t steps : Multiset KernelOp) ≤
      t.pending + (steps.filterMap made : List KernelOp) := by
  induction steps generalizing t k with
  | nil => exact Multiset.zero_le _
  | cons action rest ih =>
    have first := follows.locks_le action
    have later := ih (follows.step (asks action List.mem_cons_self)) fun other member =>
      asks other (List.mem_cons_of_mem _ member)
    have calls : ((action :: rest).filterMap made : Multiset KernelOp) =
        ((made action).toList : Multiset KernelOp) + (rest.filterMap made : List KernelOp) := by
      rw [List.filterMap_cons, Multiset.coe_add]
      cases made action <;> rfl
    rw [Machine.outputs, ← Multiset.coe_add, calls]
    calc ((t.locks action).toList : Multiset KernelOp) + Machine.outputs Interleaving.step locks (t.step action) rest
        ≤ (t.locks action).toList + ((t.step action).pending + (rest.filterMap made : List KernelOp)) :=
          add_le_add_right later _
      _ = (t.locks action).toList + (t.step action).pending + (rest.filterMap made : List KernelOp) :=
          (add_assoc _ _ _).symm
      _ ≤ t.pending + (made action).toList + (rest.filterMap made : List KernelOp) := add_le_add_left first _
      _ = t.pending + ((made action).toList + (rest.filterMap made : List KernelOp)) := add_assoc _ _ _

end Follows

/--
Threads that interleave section by section do what their calls do one after the other.

The calls are taken in the order of their sections under pcb_lock, each at most once. At any time the kernel is the one that
has done them, but for the amounts that are between two sections; once all threads are through it is the
same kernel. The ticks dispatch the same processes, and the same requests are granted.
-/
theorem serial_run {ramMb hddMb : Int} (cores : Int) (ram : 0 ≤ ramMb) (hdd : 0 ≤ hddMb) {steps : List ThreadStep}
    (asks : ∀ action ∈ steps, AsksNoNegative action) :
    let t := Machine.run step (start ramMb hddMb cores) steps
    let calls := Machine.outputs step locks (start ramMb hddMb cores) steps
    let k := Machine.run Kernel.step (Kernel.boot ramMb hddMb cores) calls
    calls.Subperm (steps.filterMap made) ∧ t.sections.kernel = k.indebted t.owed ∧
      ((∀ worker ∈ t.sections.workers, worker = .finished) → t.sections.kernel = k) ∧
      Machine.outputs step shown (start ramMb hddMb cores) steps =
        Machine.outputs Kernel.step Kernel.shown (Kernel.boot ramMb hddMb cores) calls := by
  intro t calls k
  have simulates := fun (t : Interleaving) (k : Kernel) (action : ThreadStep) (asks : AsksNoNegative action)
    (follows : Follows t k) => follows.step asks
  have initial : Follows (start ramMb hddMb cores) (Kernel.boot ramMb hddMb cores) := .start cores ram hdd
  have follows : Follows t k := Machine.run_stutters simulates initial asks
  refine ⟨?_, follows.kernel, fun through => ?_, ?_⟩
  · exact (initial.outputs_locks_le asks).trans_eq (zero_add _)
  · -- Whoever has finished owes nothing.
    have clear : t.owed = 0 := by
      refine List.sum_eq_zero fun amounts member => ?_
      obtain ⟨worker, listed, rfl⟩ := List.mem_map.mp member
      rw [through worker listed]
      rfl
    rw [follows.kernel, clear, Kernel.indebted_zero]
  · exact Machine.outputs_stutters simulates (fun t k action _ follows => follows.shows action) initial asks

/-- One process comes and goes between the two sections of a handler that was first to allocate. -/
theorem serial_run_overtaken :
    let clock : KernelOp := .handleIpcRequest 7 [] (ascii "REQ:Clock:10:1")
    let notepad : KernelOp := .handleIpcRequest 8 [] (ascii "REQ:Notepad:20:2")
    let steps : List ThreadStep := [.call clock, .call notepad, .turn 0, .turn 0, .turn 1, .turn 1, .turn 1,
      .call (.removePcb 8), .turn 2, .turn 0, .turn 2]
    (Machine.run step (start 64 64 2) steps).sections.kernel =
      Machine.run Kernel.step (Kernel.boot 64 64 2) [notepad, .removePcb 8, clock] := by
  intro clock notepad steps
  have asks : ∀ action ∈ steps, AsksNoNegative action := by
    have first : requestOf [] (ascii "REQ:Clock:10:1") = some ⟨ascii "Clock", 10, 1⟩ := by decide
    have second : requestOf [] (ascii "REQ:Notepad:20:2") = some ⟨ascii "Notepad", 20, 2⟩ := by decide
    simp only [steps, clock, notepad, List.forall_mem_cons, AsksNoNegative, first, second]
    simp [ResourceRequest.amounts, Prod.le_def]
  have through : (Machine.run step (start 64 64 2) steps).sections.workers = [.finished, .finished, .finished] := by
    decide +kernel
  have calls : Machine.outputs step locks (start 64 64 2) steps = [notepad, .removePcb 8, clock] := by
    decide +kernel
  have same := (serial_run 2 (show (0 : Int) ≤ 64 by decide) (show (0 : Int) ≤ 64 by decide) asks).2.2.1
  rw [through, calls] at same
  exact same (by simp)

end Interleaving

end Nebula
