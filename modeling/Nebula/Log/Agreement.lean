import Mathlib.Tactic.Abel
import Nebula.Log.Journal

/-! Once every line is written, the dashboard's replay of the log agrees with the kernel's counters. -/

namespace Nebula

open CText

namespace LogEntry

/-- What the counters have lost and the replay is still to lose to an entry that is not yet appended. -/
def owed : LogEntry → Amounts
  | .allocated amounts => amounts
  | .reclaimed amounts => (-amounts.1, -amounts.2)
  | _ => (0, 0)

end LogEntry

namespace Journal

/-- What a list of entries is owed. -/
def owedRam (entries : List LogEntry) : Int := (entries.map fun entry => entry.owed.1).sum
@[inherit_doc owedRam] def owedHdd (entries : List LogEntry) : Int :=
  (entries.map fun entry => entry.owed.2).sum

/-- The amounts that the table has recorded or that a thread is about to pass on. -/
def held (s : Sections) : Multiset Amounts :=
  s.kernel.recorded + (s.workers : Multiset Worker).filterMap Worker.inFlight

/-- Nothing negative is charged, and the names in the table are those of well-formed requests. -/
structure Fair (s : Sections) : Prop where
  charged : Kernel.Charged (held s) s.kernel.resources
  workers : ∀ worker ∈ s.workers, worker.Fair
  names : ∀ p ∈ s.kernel.pcbs.entries, ch ':' ∉ p.name
  filed : s.kernel.Filed

/-- Some entries tell what happened to the counters of memory and disk. -/
structure Told (before after : Resources) (entries : List LogEntry) : Prop where
  late : ∀ entry ∈ entries, entry.Late
  totals : after.totalRam = before.totalRam ∧ after.totalHdd = before.totalHdd
  ram : after.freeRam + owedRam entries = before.freeRam
  hdd : after.freeHdd + owedHdd entries = before.freeHdd

/-- The counters have not moved, and the entries say nothing about amounts. -/
theorem Told.still {resources : Resources} {entries : List LogEntry}
    (late : ∀ entry ∈ entries, entry.Late) (quiet : ∀ entry ∈ entries, entry.owed = (0, 0)) :
    Told resources resources entries := by
  -- Memory and disk are summed up the same way.
  have nothing : ∀ field : Amounts → Int, field (0, 0) = 0 →
      (entries.map fun entry => field entry.owed).sum = 0 := by
    intro field zero
    apply List.sum_eq_zero
    intro value member
    obtain ⟨entry, listed, rfl⟩ := List.mem_map.mp member
    rw [quiet entry listed, zero]
  refine ⟨late, ⟨rfl, rfl⟩, ?_, ?_⟩
  · rw [owedRam, nothing Prod.fst rfl, Int.add_zero]
  · rw [owedHdd, nothing Prod.snd rfl, Int.add_zero]

/-- A thread that holds nothing joins. -/
theorem Fair.joined {s : Sections} (fair : Fair s) (worker : Worker) (idle : worker.inFlight = none)
    (begun : worker.Fair) : Fair { s with workers := s.workers ++ [worker] } := by
  refine ⟨?_, fun other member => ?_, fair.names, fair.filed⟩
  -- What the thread holds is nothing, so the charges are the same.
  · have same : held { s with workers := s.workers ++ [worker] } = held s := by
      rw [held, Bag.snoc, Multiset.filterMap_cons_none _ _ idle]
      rfl
    rw [same]
    exact fair.charged
  · rcases List.mem_append.mp member with old | new
    · exact fair.workers other old
    · rw [List.mem_singleton.mp new]
      exact begun

/-- Where the others stay, replacing one thread keeps them well-formed. -/
private theorem fair_set {workers : List Worker} (fair : ∀ worker ∈ workers, worker.Fair) (index : Nat)
    {next : Worker} (begun : next.Fair) : ∀ worker ∈ workers.set index next, worker.Fair := by
  intro worker member
  rcases List.mem_or_eq_of_mem_set member with old | rfl
  · exact fair worker old
  · exact begun

/-- A name that was copied into the buffer of a process has no colon that it did not have before. -/
private theorem copied_plain {name : Bytes} (plain : ch ':' ∉ name) : ch ':' ∉ copyInto maxName name :=
  fun member => plain ((List.takeWhile_sublist _).mem (List.mem_of_mem_take member))

/-- The queues stay filed where only counters change. -/
private theorem filed_of_same {k k' : Kernel} (filed : k.Filed) (pcbs : k'.pcbs = k.pcbs)
    (queues : k'.queue = k.queue) (refused : k'.pushRefused = k.pushRefused) : k'.Filed := by
  obtain ⟨live, sized, taken⟩ := filed
  -- The entries of the queues and the slots they stand for are all the same.
  refine ⟨fun level slot member => ?_, fun level => ?_, refused.trans taken⟩
  · rw [queues] at member
    rw [Kernel.pcb, pcbs]
    exact live level slot member
  · have listed : k'.slotsAt level = k.slotsAt level :=
      Kernel.slotsAt_congr (by rw [pcbs]) (fun slot _ => by rw [Kernel.pcb, pcbs, Kernel.pcb]) level
    rw [queues, listed]
    exact sized level

/-- One thread goes on, and what the counters have charged is still held by it, the table or the others. -/
private theorem Fair.replaced {s s' : Sections} (fair : Fair s) {index : Nat} {worker next : Worker}
    (here : s.workers[index]? = some worker) (threads : s'.workers = s.workers.set index next)
    (begun : next.Fair) (names : ∀ p ∈ s'.kernel.pcbs.entries, ch ':' ∉ p.name) (filed : s'.kernel.Filed)
    (charged : ∀ others : Multiset Amounts,
      Kernel.Charged (s.kernel.recorded + ((worker.inFlight.toList : Multiset Amounts) + others))
          s.kernel.resources →
        Kernel.Charged (s'.kernel.recorded + ((next.inFlight.toList : Multiset Amounts) + others))
          s'.kernel.resources) : Fair s' := by
  -- The thread moves one pair of amounts on, and what the others hold stays where it is.
  obtain ⟨others, before, after⟩ := Bag.filterMap_set here Worker.inFlight
  refine ⟨?_, ?_, names, filed⟩
  · rw [held, threads, after]
    refine charged others ?_
    rw [← before]
    exact fair.charged
  · rw [threads]
    exact fair_set fair.workers index begun

/-- A section that logs nothing and leaves the counters alone has told all. -/
private theorem told_nothing (resources : Resources) : Told resources resources [] :=
  Told.still (fun _ member => absurd member List.not_mem_nil) fun _ member => absurd member List.not_mem_nil

/-- A single entry that says nothing about amounts tells that the counters are as they were. -/
private theorem told_still (resources : Resources) {entry : LogEntry} (late : entry.Late)
    (quiet : entry.owed = (0, 0)) : Told resources resources [entry] := by
  refine Told.still (fun other member => ?_) fun other member => ?_
  · rw [List.mem_singleton.mp member]
    exact late
  · rw [List.mem_singleton.mp member]
    exact quiet

/-- What a section does to the threads, the table and the counters, and what it tells of it. -/
private def TurnTold (s s' : Sections) (entries : List LogEntry) : Prop :=
  Fair s' ∧ Told s.kernel.resources s'.kernel.resources entries

section Sections

variable {s : Sections} (fair : Fair s) {index : Nat}

include fair

/-- A handler that has read a request goes on to ask for its amounts. -/
private theorem told_reading {childPid : Int} {stack message : Bytes}
    (here : s.workers[index]? = some (.reading childPid stack message)) :
    TurnTold s (s.turn index) (turnEntries s index) := by
  obtain ⟨r, rfl⟩ := fair.workers _ (List.mem_of_getElem? here)
  have next : Worker.afterReading childPid stack r.message.text = .requesting childPid r.request := by
    rw [Worker.afterReading, r.requestOf_message]
  simp only [turnEntries, Sections.turn, here, next]
  exact ⟨fair.replaced here rfl ⟨r, rfl⟩ fair.names fair.filed fun _ charged => charged, told_nothing _⟩

/-- A handler is granted its amounts or ends. -/
private theorem told_requesting {childPid : Int} {request : ResourceRequest}
    (here : s.workers[index]? = some (.requesting childPid request)) :
    TurnTold s (s.turn index) (turnEntries s index) := by
  obtain ⟨r, rfl⟩ := fair.workers _ (List.mem_of_getElem? here)
  rcases s.kernel.allocateResources_cases r.request.ram r.request.hdd with
    ⟨ramThere, hddThere, granted⟩ | ⟨-, denied⟩
  · simp only [turnEntries, Sections.turn, here, granted, ↓reduceIte]
    constructor
    · refine fair.replaced here rfl ⟨r, rfl⟩ fair.names (filed_of_same fair.filed rfl rfl rfl) ?_
      -- The amounts leave the free counters for the handler.
      intro others charged
      refine (charged.charge ramThere hddThere ⟨r.ramFits.1, r.hddFits.1⟩).2.of_eq ?_
      simp only [Worker.inFlight, Option.toList_none, Option.toList_some, Multiset.coe_nil,
        Multiset.coe_singleton, ← Multiset.singleton_add]
      show {r.request.amounts} + (s.kernel.recorded + (0 + others)) =
        s.kernel.recorded + ({r.request.amounts} + others)
      abel
    · refine ⟨fun entry member => ?_, ⟨rfl, rfl⟩, ?_, ?_⟩
      · rw [List.mem_singleton.mp member]
        exact ⟨⟨inInt_of_unsigned r.ramFits, inInt_of_unsigned r.hddFits⟩, by simp⟩
      · simp [owedRam, LogEntry.owed, ResourceRequest.amounts]
      · simp [owedHdd, LogEntry.owed, ResourceRequest.amounts]
  · simp only [turnEntries, Sections.turn, here, denied, Bool.false_eq_true, ↓reduceIte]
    exact ⟨fair.replaced here rfl trivial fair.names fair.filed fun _ charged => charged, told_nothing _⟩

/-- The new process records what the handler held, unless the table is full. -/
private theorem told_granted {childPid : Int} {request : ResourceRequest}
    (here : s.workers[index]? = some (.granted childPid request)) :
    TurnTold s (s.turn index) (turnEntries s index) := by
  obtain ⟨r, rfl⟩ := fair.workers _ (List.mem_of_getElem? here)
  have plain : ch ':' ∉ r.request.name := fun member => (r.plain _ member).2 rfl
  have filed : (s.kernel.createRequested childPid r.request).Filed :=
    fair.filed.step (.createPcb childPid r.request.name _ r.request.ram r.request.hdd)
  simp only [turnEntries, Sections.turn, here]
  constructor
  · refine fair.replaced here rfl trivial (fun p member => ?_) filed fun others charged => ?_
    · rw [Kernel.createRequested, Kernel.createPcb_entries] at member
      split at member
      · rcases List.mem_append.mp member with old | new
        · exact fair.names p old
        · rw [List.mem_singleton.mp new]
          exact copied_plain plain
      · exact fair.names p member
    · have flying : s.kernel.recorded + (((Worker.granted childPid r.request).inFlight.toList :
          Multiset Amounts) + others) = r.request.amounts ::ₘ (s.kernel.recorded + others) := by
        simp only [Worker.inFlight, Option.toList_some, Multiset.coe_singleton, ← Multiset.singleton_add]
        abel
      by_cases room : s.kernel.pcbs.count < maxProcesses
      · rw [Kernel.createRequested_recorded room, Kernel.createRequested, Kernel.createPcb_resources]
        refine (charged.of_eq flying).of_eq ?_
        simp [Worker.inFlight]
      · -- Without a free slot the amounts stay charged and are recorded nowhere.
        rw [Kernel.createRequested, Kernel.createPcb_full room]
        refine (charged.of_eq flying).forget.of_eq ?_
        simp [Worker.inFlight]
  · rw [Kernel.createRequested, Kernel.createPcb_resources]
    exact told_still _ ⟨plain, by simp⟩ rfl

/-- What the block had recorded is the remover's to give back, if it finds one. -/
private theorem told_removing {pid : Int} (here : s.workers[index]? = some (.removing pid)) :
    TurnTold s (s.turn index) (turnEntries s index) := by
  have recorded := s.kernel.deletePcb_recorded pid
  have counters := s.kernel.deletePcb_resources pid
  have entries := s.kernel.deletePcb_entries pid
  have removed : (s.kernel.removePcb pid).Filed := fair.filed.step (.removePcb pid)
  rw [Kernel.removePcb_eq] at removed
  simp only [turnEntries, Sections.turn, here]
  cases deleted : s.kernel.deletePcb pid with
  | mk answer k =>
    rw [deleted] at recorded counters entries removed
    have filed : k.Filed := filed_of_same removed rfl rfl rfl
    have names : ∀ p ∈ k.pcbs.entries, ch ':' ∉ p.name := by
      intro p member
      rw [entries] at member
      exact fair.names p (List.mem_of_mem_eraseP member)
    cases answer with
    | none =>
      -- Another remover was faster: nothing is given back, and nothing is logged.
      refine ⟨fair.replaced here rfl trivial names filed fun others charged => ?_, ?_⟩
      · rw [counters]
        refine charged.of_eq ?_
        rw [recorded]
        simp [Worker.inFlight]
      · rw [counters]
        exact told_nothing _
    | some amounts =>
      -- The amounts go from the record to the worker, so the sum stays what it was.
      refine ⟨fair.replaced here rfl trivial names filed fun others charged => ?_, ?_⟩
      · rw [counters]
        refine charged.of_eq ?_
        rw [recorded]
        simp only [Worker.inFlight, Option.toList_some, Multiset.coe_singleton, Option.toList_none,
          Multiset.coe_nil]
        abel
      · rw [counters]
        exact told_still _ ⟨trivial, by simp⟩ rfl

/-- The amounts return to the free counters. -/
private theorem told_removed {amounts : Amounts} (here : s.workers[index]? = some (.removed amounts)) :
    TurnTold s (s.turn index) (turnEntries s index) := by
  -- What is given back was charged before, so it fits the machine.
  have fits : InInt amounts.1 ∧ InInt amounts.2 := by
    obtain ⟨others, before, -⟩ := Bag.filterMap_set here Worker.inFlight
    refine fair.charged.fits (Multiset.mem_add.mpr (Or.inr ?_))
    rw [before]
    exact Multiset.mem_add.mpr (Or.inl (Multiset.mem_singleton_self amounts))
  simp only [turnEntries, Sections.turn, here]
  constructor
  · refine fair.replaced here rfl trivial fair.names (filed_of_same fair.filed rfl rfl rfl) ?_
    intro others charged
    have flying : s.kernel.recorded + (((Worker.removed amounts).inFlight.toList : Multiset Amounts) +
        others) = amounts ::ₘ (s.kernel.recorded + others) := by
      simp only [Worker.inFlight, Option.toList_some, Multiset.coe_singleton, ← Multiset.singleton_add]
      abel
    refine (charged.of_eq flying).reclaim.of_eq ?_
    simp [Worker.inFlight, Kernel.recorded, Kernel.reclaimResources]
  · refine ⟨fun entry member => ?_, ⟨rfl, rfl⟩, ?_, ?_⟩
    · rw [List.mem_singleton.mp member]
      exact ⟨fits, by simp⟩
    · simp [owedRam, LogEntry.owed, Kernel.reclaimResources]
    · simp [owedHdd, LogEntry.owed, Kernel.reclaimResources]

/-- A lock section keeps the threads and the table well-formed, and its entries tell what it charged. -/
theorem fair_turn (index : Nat) : Fair (s.turn index) ∧
    Told s.kernel.resources (s.turn index).kernel.resources (turnEntries s index) := by
  -- There is one lemma for each section of a thread.
  cases here : s.workers[index]? with
  | none =>
    simp only [turnEntries, Sections.turn, here]
    exact ⟨fair, told_nothing _⟩
  | some worker =>
    cases worker with
    | reading childPid stack message => exact told_reading fair here
    | requesting childPid request => exact told_requesting fair here
    | granted childPid request => exact told_granted fair here
    | removing pid => exact told_removing fair here
    | removed amounts => exact told_removed fair here
    | finished =>
      simp only [turnEntries, Sections.turn, here]
      exact ⟨fair, told_nothing _⟩

end Sections

/-- A row that stays in the table keeps its name and its amounts. -/
theorem rowEdit_keeps {op : KernelOp} {p after : Process} (edited : RowEdit op p after) :
    after.name = p.name ∧ after.amounts = p.amounts := by
  cases edited with
  | aged ticked =>
    rw [Kernel.ageProcess_keeps]
    exact ⟨rfl, rfl⟩
  | _ => exact ⟨rfl, rfl⟩

/-- Rows that keep their amounts record the same. -/
theorem recorded_keeps {op : KernelOp} {k k' : Kernel}
    (rows : List.Forall₂ (RowEdit op) k.pcbs.entries k'.pcbs.entries) : k'.recorded = k.recorded := by
  have same : k'.pcbs.entries.map Process.amounts = k.pcbs.entries.map Process.amounts := by
    -- Row by row the amounts stay.
    generalize k.pcbs.entries = before at rows
    generalize k'.pcbs.entries = after at rows
    induction rows with
    | nil => rfl
    | cons edited _ ih => rw [List.map_cons, List.map_cons, (rowEdit_keeps edited).2, ih]
  rw [Kernel.recorded, Kernel.recorded, SlotArray.bag, SlotArray.bag, Multiset.map_coe, Multiset.map_coe,
    same]

/-- A step that keeps the rows and the counters of memory and disk, and logs only what it has done. -/
theorem fair_act {s : Sections} (fair : Fair s) {op : KernelOp} (edit : s.kernel.tableEdit op = .keeps)
    {cores : Int} (counters : (s.kernel.step op).resources =
      { s.kernel.resources with freeCores := cores }) :
    Fair { s with kernel := s.kernel.step op } ∧
      Told s.kernel.resources (s.kernel.step op).resources (kernelEntries s.kernel op) := by
  have table := s.kernel.step_table op
  rw [edit] at table
  cases table with
  | keeps rows =>
    refine ⟨⟨?_, fair.workers, fun p member => ?_, fair.filed.step op⟩, ?_⟩
    · obtain ⟨positive, ram, hdd, ramFree, hddFree, ramFits, hddFits⟩ := fair.charged
      have same : held { s with kernel := s.kernel.step op } = held s := by
        rw [held, recorded_keeps rows]
        rfl
      rw [same, counters]
      exact ⟨positive, ram, hdd, ramFree, hddFree, ramFits, hddFits⟩
    · obtain ⟨old, listed, edited⟩ := Tagged.exists_before rows member
      rw [(rowEdit_keeps edited).1]
      exact fair.names old listed
    · -- The entries name processes of the table, and no amounts.
      have late : ∀ entry ∈ kernelEntries s.kernel op, entry.Late ∧ entry.owed = (0, 0) := by
        intro entry member
        unfold kernelEntries at member
        split at member
        · split at member
          · cases member
          · rename_i slot target
            rw [List.mem_singleton.mp member]
            obtain ⟨level, queued, -⟩ := Kernel.dispatchTarget_some target
            have live := (fair.filed.live level slot queued).1
            exact ⟨⟨fair.names _ (SlotArray.mem_entries.mpr ⟨slot, live, rfl⟩), by simp⟩, rfl⟩
        · split at member
          · cases member
          · rw [List.mem_singleton.mp member]
            exact ⟨⟨trivial, by simp⟩, rfl⟩
        · cases member
      have told := @Told.still s.kernel.resources _ (fun entry member => (late entry member).1)
        fun entry member => (late entry member).2
      rw [counters]
      exact ⟨told.late, told.totals, told.ram, told.hdd⟩

/-- The dashboard's gauge differs from the kernel's by what the entries not yet appended are owed. -/
structure Agrees (stack : Amounts) (j : Journal) : Prop where
  fair : Fair j.sections
  late : ∀ entry ∈ j.pending, entry.Late
  ended : Ended j.log
  totals : (replayGauge stack j.log).totalRam = j.gauge.totalRam ∧
    (replayGauge stack j.log).totalHdd = j.gauge.totalHdd
  ram : (replayGauge stack j.log).freeRam = wrapped (j.gauge.freeRam + owedRam j.pending)
  hdd : (replayGauge stack j.log).freeHdd = wrapped (j.gauge.freeHdd + owedHdd j.pending)

/-- A step of the kernel or of a thread that logs what it has charged leaves the gauge behind by that. -/
theorem Agrees.told {stack : Amounts} {j : Journal} (agrees : Agrees stack j) {s : Sections}
    {entries : List LogEntry} (fair : Fair s)
    (told : Told j.sections.kernel.resources s.kernel.resources entries) :
    Agrees stack { j with sections := s, pending := j.pending ++ entries } := by
  -- What the counters lose, the new entries are owed.
  obtain ⟨late, totals, ram, hdd⟩ := told
  refine ⟨fair, fun entry member => ?_, agrees.ended, ?_, ?_, ?_⟩
  · rcases List.mem_append.mp member with old | new
    · exact agrees.late entry old
    · exact late entry new
  · rw [agrees.totals.1, agrees.totals.2]
    exact ⟨totals.1.symm, totals.2.symm⟩
  · rw [agrees.ram]
    congr 1
    simp only [gauge, owedRam, List.map_append, List.sum_append] at ram ⊢
    omega
  · rw [agrees.hdd]
    congr 1
    simp only [gauge, owedHdd, List.map_append, List.sum_append] at hdd ⊢
    omega

/-- Appending a text that tells nothing leaves the gauge as it was. -/
theorem Agrees.quiet {stack : Amounts} {j : Journal} (agrees : Agrees stack j) {text : Bytes}
    (ends : Ended text) (same : replayGauge stack (j.log ++ text) = replayGauge stack j.log) :
    Agrees stack { j with log := j.log ++ text } := by
  obtain ⟨fair, late, ended, totals, ram, hdd⟩ := agrees
  refine ⟨fair, late, ended.append ends, ?_, ?_, ?_⟩
  · rw [same]
    exact totals
  · rw [same]
    exact ram
  · rw [same]
    exact hdd

/-- What is owed to a list of entries is owed to one of them and to the others. -/
private theorem owed_erase {entries : List LogEntry} {index : Nat} {entry : LogEntry}
    (here : entries[index]? = some entry) :
    owedRam entries = entry.owed.1 + owedRam (entries.eraseIdx index) ∧
      owedHdd entries = entry.owed.2 + owedHdd (entries.eraseIdx index) := by
  obtain ⟨inside, rfl⟩ := List.getElem?_eq_some_iff.mp here
  -- Up to their order, the entries are this one and the rest.
  have split := (List.getElem_cons_eraseIdx_perm inside).symm
  unfold owedRam owedHdd
  constructor
  · rw [(split.map _).sum_eq, List.map_cons, List.sum_cons]
  · rw [(split.map _).sum_eq, List.map_cons, List.sum_cons]

/-- An entry takes what it is owed from the free amounts of a gauge. -/
private theorem effect_owed {entry : LogEntry} (late : entry.Late) {gauge : Gauge} {ram hdd : Int}
    (ramShown : gauge.freeRam = wrapped ram) (hddShown : gauge.freeHdd = wrapped hdd) :
    LogEntry.effect gauge entry = ⟨gauge.totalRam, gauge.totalHdd, wrapped (ram - entry.owed.1),
      wrapped (hdd - entry.owed.2)⟩ := by
  obtain ⟨totalRam, totalHdd, freeRam, freeHdd⟩ := gauge
  subst ramShown hddShown
  cases entry with
  | resources ramMb hddMb cores => exact absurd rfl (late.2 ramMb hddMb cores)
  | allocated amounts =>
    simp only [LogEntry.effect, LogEntry.owed, wrapped_sub]
  | reclaimed amounts =>
    simp only [LogEntry.effect, LogEntry.owed, wrapped_add, sub_neg_eq_add]
  | _ =>
    -- The other kinds say nothing about amounts.
    simp only [LogEntry.effect, LogEntry.owed, sub_zero]

/-- Appending the line of an entry pays what it is owed. -/
theorem Agrees.append {stack : Amounts} {j : Journal} (agrees : Agrees stack j) {index : Nat}
    {entry : LogEntry} (here : j.pending[index]? = some entry) (time : ClockTime) :
    Agrees stack { j with
      pending := j.pending.eraseIdx index, log := j.log ++ logLine time entry.message } := by
  obtain ⟨fair, late, ended, totals, ram, hdd⟩ := agrees
  have own := late entry (List.mem_of_getElem? here)
  obtain ⟨owedRam, owedHdd⟩ := owed_erase here
  have line := (replayGauge_entry stack ended time own.1).trans (effect_owed own ram hdd)
  refine ⟨fair, fun other member => late other (List.mem_of_mem_eraseIdx member),
    ended.append (ended_logLine time _), ?_, ?_, ?_⟩
  · rw [line]
    exact totals
  -- What this entry was owed is no longer among what is owed.
  · rw [line, owedRam]
    refine congrArg wrapped ?_
    simp only [gauge]
    omega
  · rw [line, owedHdd]
    refine congrArg wrapped ?_
    simp only [gauge]
    omega

/-- The steps of scheduler, aging and interrupts keep the agreement. -/
private theorem agrees_act {stack : Amounts} {j : Journal} (agrees : Agrees stack j) {op : KernelOp}
    (edit : j.sections.kernel.tableEdit op = .keeps) {cores : Int}
    (counters : (j.sections.kernel.step op).resources =
      { j.sections.kernel.resources with freeCores := cores }) : Agrees stack (j.act op) := by
  obtain ⟨fair, told⟩ := fair_act agrees.fair edit counters
  exact agrees.told fair told

/-- Giving up a core changes the number of free cores only. -/
private theorem stopped_counters (k : Kernel) (slot : Slot) (text : Bytes) :
    ∃ cores, ((k.setState slot text).dropCore slot).resources =
      { k.resources with freeCores := cores } := by
  rw [Kernel.stopped_eq]
  exact ⟨_, rfl⟩

theorem Agrees.step {stack : Amounts} {j : Journal} (agrees : Agrees stack j) (op : JournalOp) :
    Agrees stack (j.step op) := by
  cases op with
  | request childPid callStack r =>
    have joined := agrees.fair.joined (.reading childPid callStack r.message.text) rfl ⟨r, rfl⟩
    exact ⟨joined, agrees.late, agrees.ended, agrees.totals, agrees.ram, agrees.hdd⟩
  | remove pid =>
    have joined := agrees.fair.joined (.removing pid) rfl trivial
    exact ⟨joined, agrees.late, agrees.ended, agrees.totals, agrees.ram, agrees.hdd⟩
  | turn index =>
    obtain ⟨fair, told⟩ := fair_turn agrees.fair index
    exact agrees.told fair told
  | schedulerTick => exact agrees_act agrees rfl (Kernel.schedulerTick_resources _)
  | agingTick => exact agrees_act agrees rfl (Kernel.agingTick_resources _)
  | sendInterrupt pid =>
    -- An interrupt changes no counter but that of the cores, and only if it finds its process.
    have counters : ∃ cores, (j.sections.kernel.step (.sendInterrupt pid)).resources =
        { j.sections.kernel.resources with freeCores := cores } := by
      simp only [Kernel.step, Kernel.sendInterrupt]
      split
      · exact ⟨_, rfl⟩
      · exact stopped_counters ..
    exact agrees_act agrees rfl counters.choose_spec
  | sendMinimize pid =>
    have counters : ∃ cores, (j.sections.kernel.step (.sendMinimize pid)).resources =
        { j.sections.kernel.resources with freeCores := cores } := by
      simp only [Kernel.step, Kernel.sendMinimize]
      split
      · exact ⟨_, rfl⟩
      · exact stopped_counters ..
    exact agrees_act agrees rfl counters.choose_spec
  | sendResume pid =>
    have counters : (j.sections.kernel.step (.sendResume pid)).resources =
        j.sections.kernel.resources := by
      simp only [Kernel.step, Kernel.sendResume]
      split <;> rfl
    exact agrees_act agrees rfl counters
  | unblockAfterDelay pid =>
    have counters : (j.sections.kernel.step (.unblockAfterDelay pid)).resources =
        j.sections.kernel.resources := by
      simp only [Kernel.step, Kernel.unblockAfterDelay]
      split <;> rfl
    exact agrees_act agrees rfl counters
  | append index time =>
    unfold Journal.step
    dsimp only
    cases here : j.pending[index]? with
    | none => exact agrees
    | some entry => exact agrees.append here time
  | snapshot date time active pid =>
    exact agrees.quiet (ended_snapshotLine date time active pid)
      (replayGauge_snapshot stack agrees.ended date time active pid)

theorem agrees_start (stack : Amounts) {ramMb hddMb cores : Int} (ram : 0 ≤ ramMb ∧ ramMb ≤ intMax)
    (hdd : 0 ≤ hddMb ∧ hddMb ≤ intMax) (coresFit : InInt cores) (time : ClockTime) :
    Agrees stack (start ramMb hddMb cores time) := by
  -- The log has one line, and reading it sets the totals.
  have read : replayGauge stack (logLine time (LogEntry.resources ramMb hddMb cores).message) =
      ⟨ramMb, hddMb, ramMb, hddMb⟩ :=
    replayGauge_entry stack ended_nil time
      (show (LogEntry.resources ramMb hddMb cores).Clean from
        ⟨inInt_of_unsigned ram, inInt_of_unsigned hdd, coresFit⟩)
  have fair : Fair (start ramMb hddMb cores time).sections := by
    refine ⟨⟨?_, ?_, ?_, ram.1, hdd.1, ram.2, hdd.2⟩, ?_, ?_, Kernel.filed_boot ramMb hddMb cores⟩
    · exact fun amounts member => absurd member (Multiset.notMem_zero amounts)
    · exact le_of_eq (Int.add_zero ramMb)
    · exact le_of_eq (Int.add_zero hddMb)
    · exact fun worker member => absurd member List.not_mem_nil
    · exact fun p member => absurd member List.not_mem_nil
  have free := fair.charged.wrapped_free
  refine ⟨fair, fun entry member => absurd member List.not_mem_nil, ended_logLine time _, ?_, ?_, ?_⟩
  · exact ⟨congrArg Gauge.totalRam read, congrArg Gauge.totalHdd read⟩
  · show (replayGauge stack _).freeRam = wrapped (ramMb + owedRam [])
    rw [owedRam, List.map_nil, List.sum_nil, Int.add_zero]
    exact (congrArg Gauge.freeRam read).trans free.1.symm
  · show (replayGauge stack _).freeHdd = wrapped (hddMb + owedHdd [])
    rw [owedHdd, List.map_nil, List.sum_nil, Int.add_zero]
    exact (congrArg Gauge.freeHdd read).trans free.2.symm

/-- Entries among which none is about amounts are owed nothing. -/
private theorem owed_settled {entries : List LogEntry}
    (settled : ∀ amounts, .allocated amounts ∉ entries ∧ .reclaimed amounts ∉ entries) :
    owedRam entries = 0 ∧ owedHdd entries = 0 := by
  -- Each entry is owed nothing, so the sums over them are zero.
  have nothing : ∀ entry ∈ entries, entry.owed = (0, 0) := by
    intro entry member
    cases entry with
    | allocated amounts => exact absurd member (settled amounts).1
    | reclaimed amounts => exact absurd member (settled amounts).2
    | _ => rfl
  constructor
  · apply List.sum_eq_zero
    intro value listed
    obtain ⟨entry, member, rfl⟩ := List.mem_map.mp listed
    rw [nothing entry member]
  · apply List.sum_eq_zero
    intro value listed
    obtain ⟨entry, member, rfl⟩ := List.mem_map.mp listed
    rw [nothing entry member]

/--
Along a run that starts with the log and the sizes of the machine, the replay of the log gives the
kernel's own totals and free amounts whenever no operation is between its counter update and its
line.
-/
theorem replayGauge_run (stack : Amounts) {ramMb hddMb cores : Int} (ram : 0 ≤ ramMb ∧ ramMb ≤ intMax)
    (hdd : 0 ≤ hddMb ∧ hddMb ≤ intMax) (coresFit : InInt cores) (time : ClockTime) {ops : List JournalOp}
    (settled : Settled (Machine.run step (start ramMb hddMb cores time) ops)) :
    replayGauge stack (Machine.run step (start ramMb hddMb cores time) ops).log =
      (Machine.run step (start ramMb hddMb cores time) ops).gauge := by
  have kept : ∀ j op, Agrees stack j → Agrees stack (step j op) := fun _ op agrees => agrees.step op
  have agrees := Machine.invariant_run kept (agrees_start stack ram hdd coresFit time) ops
  generalize Machine.run step (start ramMb hddMb cores time) ops = j at settled agrees
  obtain ⟨fair, -, -, totals, ramReplay, hddReplay⟩ := agrees
  -- Nothing is owed any more, and the free amounts fit an int.
  obtain ⟨noRam, noHdd⟩ := owed_settled settled
  obtain ⟨ramWraps, hddWraps⟩ := fair.charged.wrapped_free
  rw [noRam, Int.add_zero] at ramReplay
  rw [noHdd, Int.add_zero] at hddReplay
  have ramSame : (replayGauge stack j.log).freeRam = j.gauge.freeRam := ramReplay.trans ramWraps
  have hddSame : (replayGauge stack j.log).freeHdd = j.gauge.freeHdd := hddReplay.trans hddWraps
  calc replayGauge stack j.log
      = ⟨(replayGauge stack j.log).totalRam, (replayGauge stack j.log).totalHdd,
          (replayGauge stack j.log).freeRam, (replayGauge stack j.log).freeHdd⟩ := rfl
    _ = j.gauge := by rw [totals.1, totals.2, ramSame, hddSame]

/-- Two requests are granted, and the lines about them are appended in the other order. -/
theorem replayGauge_run_two_requests :
    Settled (Machine.run step (start 2048 1024 4 ⟨9, 0, 0⟩)
      [.request 101 [] ⟨ascii "Clock", 40, 3, by decide, by decide, by decide, by decide⟩,
        .request 102 [] ⟨ascii "Alarm", 30, 5, by decide, by decide, by decide, by decide⟩,
        .turn 0, .turn 1, .turn 0, .turn 1, .append 1 ⟨9, 0, 1⟩, .append 0 ⟨9, 0, 2⟩]) ∧
    replayGauge (7, 7) (Machine.run step (start 2048 1024 4 ⟨9, 0, 0⟩)
      [.request 101 [] ⟨ascii "Clock", 40, 3, by decide, by decide, by decide, by decide⟩,
        .request 102 [] ⟨ascii "Alarm", 30, 5, by decide, by decide, by decide, by decide⟩,
        .turn 0, .turn 1, .turn 0, .turn 1, .append 1 ⟨9, 0, 1⟩, .append 0 ⟨9, 0, 2⟩]).log =
      (Machine.run step (start 2048 1024 4 ⟨9, 0, 0⟩)
        [.request 101 [] ⟨ascii "Clock", 40, 3, by decide, by decide, by decide, by decide⟩,
          .request 102 [] ⟨ascii "Alarm", 30, 5, by decide, by decide, by decide, by decide⟩,
          .turn 0, .turn 1, .turn 0, .turn 1, .append 1 ⟨9, 0, 1⟩, .append 0 ⟨9, 0, 2⟩]).gauge := by
  have settled : Settled (Machine.run step (start 2048 1024 4 ⟨9, 0, 0⟩)
      [.request 101 [] ⟨ascii "Clock", 40, 3, by decide, by decide, by decide, by decide⟩,
        .request 102 [] ⟨ascii "Alarm", 30, 5, by decide, by decide, by decide, by decide⟩,
        .turn 0, .turn 1, .turn 0, .turn 1, .append 1 ⟨9, 0, 1⟩, .append 0 ⟨9, 0, 2⟩]) := by
    intro amounts
    -- Every line has been appended.
    have none : (Machine.run step (start 2048 1024 4 ⟨9, 0, 0⟩)
      [.request 101 [] ⟨ascii "Clock", 40, 3, by decide, by decide, by decide, by decide⟩,
        .request 102 [] ⟨ascii "Alarm", 30, 5, by decide, by decide, by decide, by decide⟩,
        .turn 0, .turn 1, .turn 0, .turn 1, .append 1 ⟨9, 0, 1⟩, .append 0 ⟨9, 0, 2⟩]).pending = [] := by
      decide +kernel
    rw [none]
    exact ⟨List.not_mem_nil, List.not_mem_nil⟩
  exact ⟨settled, replayGauge_run (7, 7) (by decide) (by decide) (by decide) ⟨9, 0, 0⟩ settled⟩

end Journal

end Nebula
