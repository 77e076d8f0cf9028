import Mathlib.Algebra.BigOperators.Group.Multiset.Basic
import Mathlib.Tactic.Abel
import Nebula.Resources.Sections

/-! Memory and disk are conserved however the lock sections interleave. -/

namespace Nebula

namespace Sections

/-- The amounts granted to handlers that have not recorded them yet. -/
def unrecorded (s : Sections) : Multiset Amounts :=
  (s.workers : Multiset Worker).filterMap Worker.unrecorded

/-- The amounts of deleted processes that have not been given back yet. -/
def unreclaimed (s : Sections) : Multiset Amounts :=
  (s.workers : Multiset Worker).filterMap Worker.unreclaimed

/-- Each allocation is in one place, and the counters balance with what is in flight. -/
structure Accounted (s : Sections) : Prop where
  places : s.granted = s.reclaimed + s.unreclaimed + s.kernel.recorded + s.unrecorded
  balanced : s.kernel.Balanced (s.unrecorded + s.unreclaimed)

/-- A turn that runs create_pcb finds a free slot. -/
def CreatesWithRoom (s : Sections) : Action → Prop
  | .turn index => ∀ childPid request, s.workers[index]? = some (.granted childPid request) →
      s.kernel.pcbCount < maxProcesses
  | _ => True

/-- A thread that holds nothing in flight joins without changing the account. -/
theorem Accounted.joined {s : Sections} (accounted : Accounted s) {worker : Worker}
    (unrecorded : worker.unrecorded = none) (unreclaimed : worker.unreclaimed = none) :
    Accounted { s with workers := s.workers ++ [worker] } := by
  -- Neither list of amounts in flight grows by the new thread.
  have grants : Sections.unrecorded { s with workers := s.workers ++ [worker] } = s.unrecorded := by
    rw [Sections.unrecorded, Bag.snoc, Multiset.filterMap_cons_none _ _ unrecorded]
    rfl
  have returns : Sections.unreclaimed { s with workers := s.workers ++ [worker] } = s.unreclaimed := by
    rw [Sections.unreclaimed, Bag.snoc, Multiset.filterMap_cons_none _ _ unreclaimed]
    rfl
  refine ⟨?_, ?_⟩
  · rw [grants, returns]
    exact accounted.places
  · rw [grants, returns]
    exact accounted.balanced

/-- Amounts in the hands of one thread and of the others are accounted for. -/
private def Settles (s : Sections) (worker : Worker) (grants returns : Multiset Amounts) : Prop :=
  s.granted = s.reclaimed + ((worker.unreclaimed.toList : Multiset Amounts) + returns) +
      s.kernel.recorded + ((worker.unrecorded.toList : Multiset Amounts) + grants) ∧
    s.kernel.Balanced (((worker.unrecorded.toList : Multiset Amounts) + grants) +
      ((worker.unreclaimed.toList : Multiset Amounts) + returns))

/-- One thread moves its amounts on, and what the others hold stays where it is. -/
private theorem Accounted.replaced {s s' : Sections} (accounted : Accounted s) {index : Nat}
    {worker next : Worker} (here : s.workers[index]? = some worker)
    (threads : s'.workers = s.workers.set index next)
    (settles : ∀ grants returns, Settles s worker grants returns → Settles s' next grants returns) :
    Accounted s' := by
  -- What the other threads hold is the same before and after.
  obtain ⟨otherGrants, grantsBefore, grantsAfter⟩ := Bag.filterMap_set here Worker.unrecorded
  obtain ⟨otherReturns, returnsBefore, returnsAfter⟩ := Bag.filterMap_set here Worker.unreclaimed
  obtain ⟨places, balanced⟩ := accounted
  unfold unrecorded unreclaimed at places balanced
  rw [grantsBefore, returnsBefore] at places balanced
  obtain ⟨places', balanced'⟩ := settles _ _ ⟨places, balanced⟩
  refine ⟨?_, ?_⟩
  · rw [unrecorded, unreclaimed, threads, grantsAfter, returnsAfter]
    exact places'
  · rw [unrecorded, unreclaimed, threads, grantsAfter, returnsAfter]
    exact balanced'

/-- A thread that holds nothing, before and after, settles what it did. -/
private theorem settles_idle {s s' : Sections} {worker next : Worker} {grants returns : Multiset Amounts}
    (kernel : s'.kernel = s.kernel) (granted : s'.granted = s.granted) (reclaimed : s'.reclaimed = s.reclaimed)
    (unrecorded : next.unrecorded = worker.unrecorded) (unreclaimed : next.unreclaimed = worker.unreclaimed)
    (settles : Settles s worker grants returns) : Settles s' next grants returns := by
  unfold Settles
  rw [kernel, granted, reclaimed, unrecorded, unreclaimed]
  exact settles

section Turn

variable {s : Sections} (accounted : Accounted s) {index : Nat}

include accounted

/-- A handler that has only read a message holds nothing yet. -/
private theorem accounted_reading {childPid : Int} {stack message : CText.Bytes}
    (here : s.workers[index]? = some (.reading childPid stack message)) : Accounted (s.turn index) := by
  have idle : (Worker.afterReading childPid stack message).unrecorded = none ∧
      (Worker.afterReading childPid stack message).unreclaimed = none := by
    unfold Worker.afterReading
    split
    · exact ⟨rfl, rfl⟩
    · split <;> exact ⟨rfl, rfl⟩
  simp only [Sections.turn, here]
  exact accounted.replaced here rfl fun _ _ => settles_idle rfl rfl rfl idle.1 idle.2

/-- The amounts leave the free counters for the handler, or it ends with nothing. -/
private theorem accounted_requesting {childPid : Int} {request : ResourceRequest}
    (here : s.workers[index]? = some (.requesting childPid request)) : Accounted (s.turn index) := by
  simp only [Sections.turn, here]
  cases asked : s.kernel.allocateResources request.ram request.hdd with
  | mk success k =>
    cases success with
    | true =>
      refine accounted.replaced here rfl fun grants returns settles => ?_
      obtain ⟨places, balanced⟩ := settles
      obtain ⟨charged, table⟩ := balanced.allocate asked
      have recorded : k.recorded = s.kernel.recorded := by rw [Kernel.recorded, table]; rfl
      refine ⟨?_, ?_⟩
      · simp only [places, recorded, Worker.unrecorded, Worker.unreclaimed, Option.toList_none,
          Option.toList_some, Multiset.coe_nil, Multiset.coe_singleton, ← Multiset.singleton_add]
        abel
      · refine charged.of_eq ?_
        simp only [Worker.unrecorded, Worker.unreclaimed, Option.toList_none, Option.toList_some,
          Multiset.coe_nil, Multiset.coe_singleton, ← Multiset.singleton_add]
        abel
    | false =>
      -- A refused handler holds nothing and ends.
      obtain rfl := Kernel.allocateResources_false asked
      exact accounted.replaced here rfl fun _ _ => settles_idle rfl rfl rfl rfl rfl

/-- The new process records what the handler held. -/
private theorem accounted_granted {childPid : Int} {request : ResourceRequest}
    (here : s.workers[index]? = some (.granted childPid request)) (free : s.kernel.pcbCount < maxProcesses) :
    Accounted (s.turn index) := by
  have recorded := Kernel.createRequested_recorded free childPid request
  simp only [Sections.turn, here]
  refine accounted.replaced here rfl fun grants returns settles => ?_
  -- The amounts leave the thread for the table, so the sum stays.
  obtain ⟨places, balanced⟩ := settles
  refine ⟨?_, Kernel.Balanced.create (balanced.of_eq ?_) free childPid⟩
  · simp only [places, recorded, Worker.unrecorded, Worker.unreclaimed, Option.toList_none,
      Option.toList_some, Multiset.coe_nil, Multiset.coe_singleton, ← Multiset.singleton_add]
    abel
  · simp only [Worker.unrecorded, Worker.unreclaimed, Option.toList_none, Option.toList_some,
      Multiset.coe_nil, Multiset.coe_singleton, ← Multiset.singleton_add]
    abel

/-- What the block had recorded is the remover's to give back, if it finds one. -/
private theorem accounted_removing {pid : Int} (here : s.workers[index]? = some (.removing pid)) :
    Accounted (s.turn index) := by
  have recorded := s.kernel.deletePcb_recorded pid
  simp only [Sections.turn, here]
  cases deleted : s.kernel.deletePcb pid with
  | mk answer k =>
    rw [deleted] at recorded
    dsimp only at recorded
    have settles : ∀ next : Worker, next.unrecorded = none → next.unreclaimed = answer →
        ∀ grants returns, Settles s (.removing pid) grants returns →
          Settles { s with kernel := k, workers := s.workers.set index next } next grants returns := by
      rintro next nothing held grants returns ⟨places, balanced⟩
      have emptied := balanced.delete pid
      rw [deleted] at emptied
      -- The remover held nothing before, and now holds what the deletion answered.
      have before : (Worker.removing pid).unrecorded = none := rfl
      have before' : (Worker.removing pid).unreclaimed = none := rfl
      refine ⟨?_, emptied.of_eq ?_⟩
      · simp only [places, recorded, nothing, held, before, before', Option.toList_none, Multiset.coe_nil]
        abel
      · simp only [nothing, held, before, before', Option.toList_none, Multiset.coe_nil]
        abel
    cases answer with
    -- Another remover was faster, so there is nothing to give back a second time.
    | none => exact accounted.replaced here rfl (settles .finished rfl rfl)
    | some amounts => exact accounted.replaced here rfl (settles (.removed amounts) rfl rfl)

/-- The amounts return to the free counters. -/
private theorem accounted_removed {amounts : Amounts} (here : s.workers[index]? = some (.removed amounts)) :
    Accounted (s.turn index) := by
  simp only [Sections.turn, here]
  refine accounted.replaced here rfl fun grants returns settles => ?_
  -- The amounts leave the thread for the free counters, so the sum stays.
  obtain ⟨places, balanced⟩ := settles
  refine ⟨?_, Kernel.Balanced.reclaim (balanced.of_eq ?_)⟩
  · simp only [places, Worker.unrecorded, Worker.unreclaimed, Option.toList_none, Option.toList_some,
      Multiset.coe_nil, Multiset.coe_singleton, ← Multiset.singleton_add]
    show _ = _ + s.kernel.recorded + _
    abel
  · simp only [Worker.unrecorded, Worker.unreclaimed, Option.toList_none, Option.toList_some,
      Multiset.coe_nil, Multiset.coe_singleton, ← Multiset.singleton_add]
    abel

end Turn

/-- A section keeps the account, if create_pcb finds a free slot whenever it is one. -/
theorem Accounted.turn {s : Sections} (accounted : Accounted s) {index : Nat}
    (room : CreatesWithRoom s (.turn index)) : Accounted (s.turn index) := by
  -- There is one lemma for each section of a thread.
  cases here : s.workers[index]? with
  | none => simpa only [Sections.turn, here] using accounted
  | some worker =>
    cases worker with
    | reading childPid stack message => exact accounted_reading accounted here
    | requesting childPid request => exact accounted_requesting accounted here
    | granted childPid request => exact accounted_granted accounted here (room childPid request here)
    | removing pid => exact accounted_removing accounted here
    | removed amounts => exact accounted_removed accounted here
    | finished => simpa only [Sections.turn, here] using accounted

theorem Accounted.step {s : Sections} (accounted : Accounted s) {action : Action}
    (room : CreatesWithRoom s action) : Accounted (s.step action) := by
  -- A new handler and a new remover both start with nothing in flight.
  cases action with
  | handle childPid stack message => exact accounted.joined rfl rfl
  | remove pid => exact accounted.joined rfl rfl
  | turn index => exact accounted.turn room

/-- Nothing is lost from the totals, and nothing granted is given back twice. -/
structure Conserved (s : Sections) : Prop where
  ram : s.kernel.resources.freeRam + (s.kernel.pcbs.entries.map fun p => p.ramAlloc).sum +
    (s.unrecorded.map Prod.fst).sum + (s.unreclaimed.map Prod.fst).sum = s.kernel.resources.totalRam
  hdd : s.kernel.resources.freeHdd + (s.kernel.pcbs.entries.map fun p => p.hddAlloc).sum +
    (s.unrecorded.map Prod.snd).sum + (s.unreclaimed.map Prod.snd).sum = s.kernel.resources.totalHdd
  /-- Every allocation was given back, or is in a remover's hands, or recorded, or in a handler's. -/
  once : s.granted = s.reclaimed + s.unreclaimed + s.kernel.recorded + s.unrecorded

/-- Read in megabytes of each kind, the balance is the conservation of both totals. -/
theorem Accounted.conserved {s : Sections} (accounted : Accounted s) : Conserved s := by
  -- The sum over the table and the flight is the sum of its three parts.
  obtain ⟨places, ram, hdd⟩ := accounted
  simp only [Multiset.map_add, Multiset.sum_add, Kernel.sum_recorded, Process.amounts] at ram hdd
  exact ⟨by omega, by omega, places⟩

/--
In every state that a run reaches in which create_pcb meets no full table, memory and disk are
conserved and every allocation is accounted for once.
-/
theorem conserved_run (ramMb hddMb cores : Int) {actions : List Action}
    (room : Machine.EachStep step CreatesWithRoom (start ramMb hddMb cores) actions) :
    Conserved (Machine.run step (start ramMb hddMb cores) actions) := by
  have initial : Accounted (start ramMb hddMb cores) :=
    ⟨rfl, Kernel.balanced_boot ramMb hddMb cores⟩
  have preserved : ∀ s action, Accounted s → CreatesWithRoom s action → Accounted (step s action) :=
    fun _ _ accounted free => accounted.step free
  exact (Machine.invariant_run_of_eachStep preserved initial room).conserved

/-- Two removers race for one process, and one of them finds it. -/
theorem conserved_run_race :
    Machine.EachStep step CreatesWithRoom (start 1024 1024 4)
      [.handle 101 [] (CText.ascii "REQ:Notepad:20:2"), .turn 0, .turn 0, .turn 0, .remove 101,
        .remove 101, .turn 2, .turn 1, .turn 2] ∧
    Conserved (Machine.run step (start 1024 1024 4)
      [.handle 101 [] (CText.ascii "REQ:Notepad:20:2"), .turn 0, .turn 0, .turn 0, .remove 101,
        .remove 101, .turn 2, .turn 1, .turn 2]) := by
  have room : Machine.EachStep step CreatesWithRoom (start 1024 1024 4)
      [.handle 101 [] (CText.ascii "REQ:Notepad:20:2"), .turn 0, .turn 0, .turn 0, .remove 101,
        .remove 101, .turn 2, .turn 1, .turn 2] := by
    simp only [Machine.EachStep]
    -- The table never has more than one process in this run.
    refine ⟨trivial, ?_, ?_, ?_, trivial, trivial, ?_, ?_, ?_, trivial⟩
    all_goals
      intro _ _ _
      decide +kernel
  exact ⟨room, conserved_run 1024 1024 4 room⟩

end Sections

end Nebula
