import Mathlib.Tactic.Abel
import Nebula.Lifecycle.Family

/-! No dead or duplicate process stays in the table, as long as blocks are created in time. -/

namespace Nebula

/-- What the handler of a child was granted and has not recorded. -/
def Child.unrecorded (child : Child) : Option Amounts :=
  match child.handler with
  | .granted request => some request.amounts
  | _ => none

/-- What a remover has deleted and not given back. -/
def Remover.unreclaimed : Remover → Option Amounts
  | .deleted amounts => some amounts
  | _ => none

namespace Family

/-- The pid of a child with the amounts it has asked for. -/
def tagOf (s : Family) (index : Nat) : Option (Int × Option Amounts) :=
  s.children[index]?.map fun child => (child.pid, child.sent.map ResourceRequest.amounts)

/-- The amounts between two sections of a handler or of a remover. -/
def flight (children : List Child) (removers : List Remover) : Multiset Amounts :=
  (children : Multiset Child).filterMap Child.unrecorded +
    (removers : Multiset Remover).filterMap Remover.unreclaimed

def inFlight (s : Family) : Multiset Amounts := flight s.children s.removers

/-- What holds between the children and the threads that serve them. -/
structure Lineage (s : Family) : Prop where
  /-- A pid is used again only once its child is reaped. -/
  forked : ∀ older newer : Nat, ∀ a b : Child, s.children[older]? = some a → s.children[newer]? = some b →
    older < newer → a.pid = b.pid → a.life = .reaped
  asked : ∀ index : Nat, ∀ child : Child, s.children[index]? = some child → ∀ request,
    child.handler = .asked request ∨ child.handler = .granted request → child.sent = some request
  due : ∀ index ∈ s.due, ∃ child : Child, s.children[index]? = some child ∧ child.handler = .finished ∧
    child.removed = false
  called : ∀ index, Remover.called index ∈ s.removers →
    ∃ child : Child, s.children[index]? = some child ∧ child.life = .reaped
  /-- A reaped child is removed already, or a remover is on its way. -/
  pending : ∀ index : Nat, ∀ child : Child, s.children[index]? = some child → child.life = .reaped →
    child.removed = false → Remover.called index ∈ s.removers

/-- The table holds the tags of the owners in order, and the owners are registered under their pids. -/
structure Registered (s : Family) : Prop where
  table : s.kernel.pcbs.entries.map (fun p => some (p.pid, some p.amounts)) = s.owners.map s.tagOf
  kept : Registry.Kept s.pidOf s.owners s.due

structure Tracked (s : Family) : Prop where
  lineage : Lineage s
  registered : Registered s
  balanced : s.kernel.Balanced s.inFlight

/-- Every owner is a child that has asked for the amounts recorded for it. -/
theorem Registered.owner {s : Family} (registered : Registered s) {index : Nat}
    (owns : index ∈ s.owners) :
    ∃ child : Child, s.children[index]? = some child ∧ child.sent ≠ none := by
  -- The tag of an owner is the tag of a block, which has amounts.
  have tagged : s.tagOf index ∈ s.owners.map s.tagOf := List.mem_map_of_mem owns
  rw [← registered.table] at tagged
  obtain ⟨p, -, same⟩ := List.mem_map.mp tagged
  obtain ⟨child, here, tag⟩ := Option.map_eq_some_iff.mp same.symm
  refine ⟨child, here, fun silent => ?_⟩
  simp [silent] at tag

/-- A change at one child leaves the lineage of the others alone. -/
theorem Lineage.update {s s' : Family} (lineage : Lineage s) {index : Nat} {child next : Child}
    (here : s.children[index]? = some child) (children : s'.children = s.children.set index next)
    (pid : next.pid = child.pid) (life : child.life = .reaped → next.life = .reaped)
    (asked : ∀ request, next.handler = .asked request ∨ next.handler = .granted request →
      next.sent = some request)
    (dueOthers : ∀ other ∈ s'.due, other ≠ index → other ∈ s.due)
    (dueHere : index ∈ s'.due → next.handler = .finished ∧ next.removed = false)
    (calledOthers : ∀ other, other ≠ index →
      (Remover.called other ∈ s'.removers ↔ Remover.called other ∈ s.removers))
    (calledHere : Remover.called index ∈ s'.removers → next.life = .reaped)
    (pendingHere : next.life = .reaped → next.removed = false →
      Remover.called index ∈ s'.removers) : Lineage s' := by
  -- Each field is shown for the changed child from the hypotheses about it, and for the others as it was.
  have inside := (List.getElem?_eq_some_iff.mp here).1
  have changed : s'.children[index]? = some next := by
    rw [children, List.getElem?_set_self inside]
  have others : ∀ other, other ≠ index → s'.children[other]? = s.children[other]? := by
    intro other apart
    rw [children, List.getElem?_set_ne (Ne.symm apart)]
  refine ⟨?_, ?_, ?_, ?_, ?_⟩
  · -- Both children are compared through what they were before the change.
    have before : ∀ other : Nat, ∀ a : Child, s'.children[other]? = some a →
        ∃ old : Child, s.children[other]? = some old ∧ a.pid = old.pid ∧
          (old.life = .reaped → a.life = .reaped) := by
      intro other a there
      by_cases same : other = index
      · subst same
        rw [changed, Option.some.injEq] at there
        subst there
        exact ⟨child, here, pid, life⟩
      · rw [others other same] at there
        exact ⟨a, there, rfl, fun reaped => reaped⟩
    intro older newer a b atOlder atNewer order same
    obtain ⟨oldA, thereA, pidA, lifeA⟩ := before older a atOlder
    obtain ⟨oldB, thereB, pidB, -⟩ := before newer b atNewer
    exact lifeA (lineage.forked older newer oldA oldB thereA thereB order
      (pidA.symm.trans (same.trans pidB)))
  · intro other a there
    by_cases same : other = index
    · subst same
      rw [changed, Option.some.injEq] at there
      subst there
      exact asked
    · rw [others other same] at there
      exact lineage.asked other a there
  · intro other isDue
    by_cases same : other = index
    · subst same
      exact ⟨next, changed, dueHere isDue⟩
    · rw [others other same]
      exact lineage.due other (dueOthers other isDue same)
  · intro other isCalled
    by_cases same : other = index
    · subst same
      exact ⟨next, changed, calledHere isCalled⟩
    · rw [others other same]
      exact lineage.called other ((calledOthers other same).mp isCalled)
  · intro other a there reaped notRemoved
    by_cases same : other = index
    · subst same
      rw [changed, Option.some.injEq] at there
      subst there
      exact pendingHere reaped notRemoved
    · rw [others other same] at there
      exact (calledOthers other same).mpr (lineage.pending other a there reaped notRemoved)

theorem pidOf_set {s s' : Family} {index : Nat} {child next : Child}
    (here : s.children[index]? = some child) (children : s'.children = s.children.set index next)
    (pid : next.pid = child.pid) : s'.pidOf = s.pidOf := by
  have inside := (List.getElem?_eq_some_iff.mp here).1
  -- Only one child is overwritten, by one with the same pid.
  funext other
  rw [pidOf, pidOf, children]
  by_cases same : other = index
  · subst same
    rw [List.getElem?_set_self inside, here, Option.map_some, Option.map_some, pid]
  · rw [List.getElem?_set_ne (Ne.symm same)]

/-- The tag of a child that has asked does not change. -/
theorem tagOf_set {s s' : Family} {index : Nat} {child next : Child}
    (here : s.children[index]? = some child) (children : s'.children = s.children.set index next)
    (pid : next.pid = child.pid) (sent : child.sent = none ∨ next.sent = child.sent)
    {other : Nat} {asker : Child} (there : s.children[other]? = some asker) (asked : asker.sent ≠ none) :
    s'.tagOf other = s.tagOf other := by
  have inside := (List.getElem?_eq_some_iff.mp here).1
  rw [tagOf, tagOf, children]
  by_cases same : other = index
  · subst same
    obtain rfl := Option.some.inj (here.symm.trans there)
    -- A child that has asked keeps what it has sent.
    have kept : next.sent = child.sent := sent.resolve_left asked
    rw [List.getElem?_set_self inside, here, Option.map_some, Option.map_some, pid, kept]
  · rw [List.getElem?_set_ne (Ne.symm same)]

/-- A change at one child that touches no block keeps the register. -/
theorem Registered.update {s s' : Family} (registered : Registered s) {index : Nat}
    {child next : Child} (here : s.children[index]? = some child)
    (children : s'.children = s.children.set index next) (pid : next.pid = child.pid)
    (sent : child.sent = none ∨ next.sent = child.sent) (pcbs : s'.kernel.pcbs = s.kernel.pcbs)
    (owners : s'.owners = s.owners) (due : s'.due = s.due) : Registered s' := by
  refine ⟨?_, ?_⟩
  · rw [pcbs, owners, registered.table]
    -- Every owner has asked, so its tag is as it was.
    apply List.map_congr_left
    intro other owns
    obtain ⟨asker, there, asked⟩ := registered.owner owns
    exact (tagOf_set here children pid sent there asked).symm
  · rw [owners, due, pidOf_set here children pid]
    exact registered.kept

/-- A change of a child that no invariant looks at. -/
structure Quiet (child next : Child) : Prop where
  pid : next.pid = child.pid
  sent : child.sent = none ∨ next.sent = child.sent
  reaped : next.life = .reaped ↔ child.life = .reaped
  asked : ∀ request, next.handler = .asked request ∨ next.handler = .granted request →
    next.sent = some request
  finished : child.handler = .finished → next.handler = .finished
  removed : next.removed = child.removed

/-- The lineage after a change of one child that starts no remover and records nothing. -/
theorem Lineage.quiet {s s' : Family} (lineage : Lineage s) {index : Nat} {child next : Child}
    (here : s.children[index]? = some child) (children : s'.children = s.children.set index next)
    (quiet : Quiet child next) (removers : s'.removers = s.removers) (due : s'.due = s.due) :
    Lineage s' := by
  -- Whatever was due, called or pending for the child still is.
  refine lineage.update here children quiet.pid quiet.reaped.mpr quiet.asked ?_ ?_ ?_ ?_ ?_
  · intro other isDue _
    rwa [due] at isDue
  · intro isDue
    rw [due] at isDue
    obtain ⟨same, there, finished, notRemoved⟩ := lineage.due index isDue
    obtain rfl := Option.some.inj (here.symm.trans there)
    exact ⟨quiet.finished finished, quiet.removed.trans notRemoved⟩
  · intro other _
    rw [removers]
  · intro isCalled
    rw [removers] at isCalled
    obtain ⟨same, there, reaped⟩ := lineage.called index isCalled
    obtain rfl := Option.some.inj (here.symm.trans there)
    exact quiet.reaped.mpr reaped
  · intro reaped notRemoved
    rw [removers]
    exact lineage.pending index child here (quiet.reaped.mp reaped) (quiet.removed.symm.trans notRemoved)

/-- What is in flight after a change of one child. -/
theorem flight_child {children : List Child} {index : Nat} {child : Child}
    (here : children[index]? = some child) (removers : List Remover) :
    ∃ others : Multiset Amounts,
      flight children removers = (child.unrecorded.toList : Multiset Amounts) + others ∧
      ∀ next, flight (children.set index next) removers =
        (next.unrecorded.toList : Multiset Amounts) + others := by
  obtain ⟨others, before, after⟩ := Bag.filterMap_set here Child.unrecorded
  -- The removers count as others of the child.
  refine ⟨others + (removers : Multiset Remover).filterMap Remover.unreclaimed, ?_, fun next => ?_⟩
  · rw [flight, before, Multiset.add_assoc]
  · rw [flight, after, Multiset.add_assoc]

/-- A change of one child that moves no amounts leaves what is in flight. -/
theorem flight_same {children : List Child} {index : Nat} {child : Child}
    (here : children[index]? = some child) (next : Child)
    (unrecorded : next.unrecorded = child.unrecorded) (removers : List Remover) :
    flight (children.set index next) removers = flight children removers := by
  obtain ⟨others, before, after⟩ := flight_child here removers
  rw [before, after, unrecorded]

/-- A remover that has just been called has nothing in flight. -/
theorem flight_called (children : List Child) (removers : List Remover) (index : Nat) :
    flight children (removers ++ [.called index]) = flight children removers := by
  rw [flight, flight, Bag.snoc, Multiset.filterMap_cons_none _ _ rfl]

/-- A quiet change that moves no amounts and leaves the kernel alone keeps everything. -/
theorem Tracked.quiet {s : Family} (tracked : Tracked s) {index : Nat} {child next : Child}
    (here : s.children[index]? = some child) (quiet : Quiet child next)
    (unrecorded : next.unrecorded = child.unrecorded) : Tracked (s.setChild index next) := by
  refine ⟨tracked.lineage.quiet here rfl quiet rfl rfl,
    tracked.registered.update here rfl quiet.pid quiet.sent rfl rfl rfl, ?_⟩
  exact tracked.balanced.of_eq (flight_same here next unrecorded s.removers).symm

theorem Tracked.sendRequest {s : Family} (tracked : Tracked s) (index : Nat)
    (request : ResourceRequest) : Tracked (s.sendRequest index request) := by
  unfold Family.sendRequest
  split
  · rename_i child here
    split
    · rename_i free
      refine tracked.quiet here ⟨rfl, Or.inl free.2, Iff.rfl, ?_, fun done => done, rfl⟩ rfl
      -- A child that has sent nothing has no handler at work on a request.
      intro other working
      have sent := tracked.lineage.asked index child here other working
      rw [free.2] at sent
      cases sent
    · exact tracked
  · exact tracked

theorem Tracked.exit {s : Family} (tracked : Tracked s) (index : Nat) : Tracked (s.exit index) := by
  unfold Family.exit
  split
  · rename_i child here
    split
    -- Exiting is not being reaped, and the handler goes on as before.
    · rename_i alive
      refine tracked.quiet here ⟨rfl, Or.inr rfl, ?_, tracked.lineage.asked index child here,
        fun done => done, rfl⟩ rfl
      simp [alive]
    · exact tracked
  · exact tracked

theorem Tracked.read {s : Family} (tracked : Tracked s) (index : Nat) : Tracked (s.read index) := by
  unfold Family.read
  split
  · rename_i child here
    split
    · rename_i request waiting sent
      refine tracked.quiet here ⟨rfl, Or.inr rfl, Iff.rfl, ?_, ?_, rfl⟩ ?_
      -- The handler now works on what the child has sent.
      · intro other working
        rcases working with same | same
        · cases same
          exact sent
        · cases same
      · simp [waiting]
      · simp [Child.unrecorded, waiting]
    · exact tracked
  · exact tracked

theorem Tracked.allocate {s : Family} (tracked : Tracked s) (index : Nat) :
    Tracked (s.allocate index) := by
  unfold Family.allocate
  split
  · rename_i child here
    split
    · rename_i request working
      have sent := tracked.lineage.asked index child here request (Or.inl working)
      split
      · rename_i k charged
        -- The amounts are now in flight in the hands of the handler.
        obtain ⟨others, before, after⟩ := flight_child here s.removers
        have balanced := tracked.balanced
        rw [inFlight, before] at balanced
        obtain ⟨granted, table⟩ := balanced.allocate charged
        have quiet : Quiet child { child with handler := .granted request } :=
          ⟨rfl, Or.inr rfl, Iff.rfl, by simp [sent], by simp [working], rfl⟩
        refine ⟨tracked.lineage.quiet here rfl quiet rfl rfl,
          tracked.registered.update here rfl rfl (Or.inr rfl) table rfl rfl, ?_⟩
        refine granted.of_eq ?_
        show _ = flight (s.children.set index { child with handler := .granted request }) s.removers
        rw [after]
        simp [Child.unrecorded, working]
      · rename_i k denied
        obtain rfl := Kernel.allocateResources_false denied
        -- A denied request ends the handler with nothing in flight.
        exact tracked.quiet here ⟨rfl, Or.inr rfl, Iff.rfl, by simp, by simp, rfl⟩
          (by simp [Child.unrecorded, working])
    · exact tracked
  · exact tracked

/-- A block created for the newest child of its pid is registered behind the others. -/
theorem Registered.created {s s' : Family} (registered : Registered s) {index : Nat}
    {child next : Child} (here : s.children[index]? = some child)
    (children : s'.children = s.children.set index next) (pid : next.pid = child.pid)
    (sent : next.sent = child.sent) {p : Process} (samePid : p.pid = child.pid)
    (sameAmounts : child.sent.map ResourceRequest.amounts = some p.amounts)
    (entries : s'.kernel.pcbs.entries = s.kernel.pcbs.entries ++ [p])
    (owners : s'.owners = s.owners ++ [index]) (due : s'.due = insert index s.due)
    (fresh : index ∉ s.due)
    (newest : ∀ other ∈ s.owners, s.pidOf other = some child.pid → other < index) :
    Registered s' := by
  have own : s'.tagOf index = some (p.pid, some p.amounts) := by
    have asked : child.sent ≠ none := by
      intro silent
      simp [silent] at sameAmounts
    rw [tagOf_set here children pid (Or.inr sent) here asked, tagOf, here, Option.map_some,
      sameAmounts, samePid]
  -- The tags of the old owners are as they were, so the new block stands behind them.
  have others : s.owners.map s'.tagOf = s.owners.map s.tagOf := by
    apply List.map_congr_left
    intro other owner
    obtain ⟨asker, there, asked⟩ := registered.owner owner
    exact tagOf_set here children pid (Or.inr sent) there asked
  refine ⟨?_, ?_⟩
  · rw [entries, owners, List.map_append, List.map_append, registered.table, others,
      List.map_singleton, List.map_singleton, own]
  · rw [owners, due, pidOf_set here children pid]
    -- The child is newer than every owner of its pid, so the register stays sorted.
    refine registered.kept.add fresh fun other owner same => newest other owner ?_
    rw [same, pidOf, here, Option.map_some]

/-- Deleting the first block of a pid drops the first owner of that pid. -/
theorem Registered.deleted {s s' : Family} (registered : Registered s) {index : Nat}
    {child next : Child} (here : s.children[index]? = some child)
    (children : s'.children = s.children.set index next) (pid : next.pid = child.pid)
    (sent : next.sent = child.sent)
    (entries : s'.kernel.pcbs.entries = s.kernel.pcbs.entries.eraseP fun p => p.pid == child.pid)
    (owners : s'.owners = Registry.dropFirst s.pidOf (some child.pid) s.owners)
    (due : s'.due = s.due.erase index) : Registered s' := by
  have owns : s.pidOf index = some child.pid := by rw [pidOf, here, Option.map_some]
  refine ⟨?_, ?_⟩
  · -- The pid of a tag is the pid of its block and of its owner, so both lists lose the same one.
    have fromTable : (s.kernel.pcbs.entries.eraseP fun p => p.pid == child.pid).map
          (fun p => some (p.pid, some p.amounts)) =
        (s.kernel.pcbs.entries.map fun p => some (p.pid, some p.amounts)).eraseP
          fun tag => tag.map Prod.fst = some child.pid := by
      rw [List.eraseP_map]
      congr 2
      funext p
      simp [Bool.beq_eq_decide_eq]
    have fromOwners : (Registry.dropFirst s.pidOf (some child.pid) s.owners).map s.tagOf =
        (s.owners.map s.tagOf).eraseP fun tag => tag.map Prod.fst = some child.pid := by
      rw [List.eraseP_map, Registry.dropFirst]
      congr 2
      funext other
      simp [tagOf, pidOf, Function.comp_def]
    rw [entries, owners, fromTable, registered.table, ← fromOwners]
    apply List.map_congr_left
    intro other owner
    obtain ⟨asker, there, asked⟩ := registered.owner (List.mem_of_mem_eraseP owner)
    exact (tagOf_set here children pid (Or.inr sent) there asked).symm
  · rw [owners, due, pidOf_set here children pid, ← owns]
    exact registered.kept.remove index

/-- A block created in time keeps everything. -/
theorem Tracked.create {s : Family} (tracked : Tracked s) {index : Nat}
    (inTime : CreatesInTime s (.create index)) : Tracked (s.create index) := by
  unfold Family.create
  split
  · rename_i child here
    split
    · rename_i request working
      obtain ⟨room, notRemoved, newest⟩ := inTime child request here working
      have sent := tracked.lineage.asked index child here request (Or.inr working)
      have free : s.kernel.pcbs.count < maxProcesses := room
      -- A child whose handler is still at work is not due yet.
      have fresh : index ∉ s.due := by
        intro isDue
        obtain ⟨same, there, finished, -⟩ := tracked.lineage.due index isDue
        obtain rfl := Option.some.inj (here.symm.trans there)
        rw [working] at finished
        cases finished
      obtain ⟨others, before, after⟩ := flight_child here s.removers
      refine ⟨?_, ?_, ?_⟩
      · refine tracked.lineage.update here rfl rfl (fun reaped => reaped) (by simp) ?_ ?_
          (fun _ _ => Iff.rfl) ?_ ?_
        · intro other isDue apart
          exact Finset.mem_of_mem_insert_of_ne isDue apart
        · exact fun _ => ⟨rfl, notRemoved⟩
        · intro isCalled
          obtain ⟨same, there, reaped⟩ := tracked.lineage.called index isCalled
          obtain rfl := Option.some.inj (here.symm.trans there)
          exact reaped
        · exact tracked.lineage.pending index child here
      · refine tracked.registered.created (p := newProcess child.pid request.name
          (defaultPriority (getQueueLevel request.name)) (getQueueLevel request.name) request.ram
          request.hdd) here rfl rfl rfl rfl (by rw [sent]; rfl) ?_ ?_ rfl fresh newest
        · show (s.kernel.createRequested child.pid request).pcbs.entries = _
          rw [Kernel.createRequested, Kernel.createPcb_entries, if_pos free]
        · exact if_pos free
      · have balanced := tracked.balanced
        rw [inFlight, before] at balanced
        refine Kernel.Balanced.create (balanced.of_eq ?_) free child.pid
        show _ = request.amounts ::ₘ flight (s.children.set index { child with handler := .finished })
          s.removers
        -- What the handler held in flight is what the block records.
        rw [after]
        simp [Child.unrecorded, working]
    · exact tracked
  · exact tracked

/-- Reaping a child starts a remover for it. -/
theorem Tracked.reap {s : Family} (tracked : Tracked s) (index : Nat) : Tracked (s.reap index) := by
  unfold Family.reap
  split
  · rename_i child here
    split
    · refine ⟨?_, tracked.registered.update here rfl rfl (Or.inr rfl) rfl rfl rfl, ?_⟩
      · refine tracked.lineage.update here rfl rfl (fun _ => rfl) (tracked.lineage.asked index child here)
          (fun _ isDue _ => isDue) ?_ ?_ (fun _ => rfl) ?_
        -- The child may still be due, and now its remover is on its way.
        · intro isDue
          obtain ⟨same, there, finished, notRemoved⟩ := tracked.lineage.due index isDue
          obtain rfl := Option.some.inj (here.symm.trans there)
          exact ⟨finished, notRemoved⟩
        · intro other apart
          simp [setChild, apart]
        · intro _ _
          simp [setChild]
      · refine tracked.balanced.of_eq ?_
        show flight s.children s.removers =
          flight (s.children.set index { child with life := .reaped }) (s.removers ++ [.called index])
        rw [flight_called, flight_same here { child with life := .reaped } rfl]
    · exact tracked
  · exact tracked

/-- A second remover for a reaped child changes nothing yet. -/
theorem Tracked.removeAgain {s : Family} (tracked : Tracked s) (index : Nat) :
    Tracked (s.removeAgain index) := by
  unfold Family.removeAgain
  split
  · rename_i child here
    split
    · rename_i reaped
      -- The child is overwritten by itself, so that the same lemmas apply.
      have unchanged : s.children = s.children.set index child := by
        obtain ⟨inside, rfl⟩ := List.getElem?_eq_some_iff.mp here
        exact (List.set_getElem_self inside).symm
      refine ⟨?_, tracked.registered.update here unchanged rfl (Or.inr rfl) rfl rfl rfl, ?_⟩
      · refine tracked.lineage.update here unchanged rfl (fun same => same)
          (tracked.lineage.asked index child here) (fun _ isDue _ => isDue) ?_ ?_ (fun _ => reaped) ?_
        · intro isDue
          obtain ⟨same, there, finished, notRemoved⟩ := tracked.lineage.due index isDue
          obtain rfl := Option.some.inj (here.symm.trans there)
          exact ⟨finished, notRemoved⟩
        · intro other apart
          simp [apart]
        · intro _ _
          simp
      · exact tracked.balanced.of_eq (flight_called s.children s.removers index).symm
    · exact tracked
  · exact tracked

/-- A remover that goes on to a later stage calls for nobody any more. -/
theorem called_set {removers : List Remover} {place index : Nat} {stage next : Remover}
    (here : removers[place]? = some stage) (apart : stage ≠ .called index)
    (later : next ≠ .called index) :
    Remover.called index ∈ removers.set place next ↔ Remover.called index ∈ removers := by
  constructor
  · intro member
    exact (List.mem_or_eq_of_mem_set member).resolve_right fun same => later same.symm
  · intro member
    obtain ⟨other, there⟩ := List.mem_iff_getElem?.mp member
    -- The stage that is overwritten is not the call that was found.
    have elsewhere : place ≠ other := by
      intro same
      subst same
      exact apart (Option.some.inj (here.symm.trans there))
    exact List.mem_iff_getElem?.mpr ⟨other, by rw [List.getElem?_set_ne elsewhere, there]⟩

/-- Deleting the block of an exited child keeps everything. -/
theorem Tracked.delete {s : Family} (tracked : Tracked s) (remover : Nat) :
    Tracked (s.delete remover) := by
  unfold Family.delete
  split
  · rename_i index calling
    have isCalled : Remover.called index ∈ s.removers := List.mem_of_getElem? calling
    obtain ⟨child, here, reaped⟩ := tracked.lineage.called index isCalled
    rw [here]
    dsimp only
    have later : ∀ other, Remover.found (s.kernel.deletePcb child.pid).1 ≠ .called other := by
      intro other
      cases (s.kernel.deletePcb child.pid).1 <;> exact Remover.noConfusion
    refine ⟨?_, tracked.registered.deleted here rfl rfl rfl (s.kernel.deletePcb_entries child.pid) rfl rfl,
      ?_⟩
    · refine tracked.lineage.update here rfl rfl (fun same => same)
        (tracked.lineage.asked index child here) ?_ ?_ ?_ (fun _ => reaped) (by simp)
      · intro other isDue _
        exact Finset.mem_of_mem_erase isDue
      -- A child that is removed is not due any more.
      · intro isDue
        exact absurd isDue (Finset.notMem_erase index s.due)
      · intro other apart
        exact called_set calling (by simp [Ne.symm apart]) (later other)
    · -- What the block had recorded is now in flight in the hands of the remover.
      obtain ⟨others, before, after⟩ := Bag.filterMap_set calling Remover.unreclaimed
      refine (tracked.balanced.delete child.pid).of_eq ?_
      show _ + flight s.children s.removers = flight (s.children.set index { child with removed := true })
        (s.removers.set remover _)
      rw [flight_same here { child with removed := true } rfl, flight, flight, before, after]
      cases (s.kernel.deletePcb child.pid).1 with
      | none => exact Multiset.zero_add _
      | some amounts =>
        simp only [Remover.found, Remover.unreclaimed, Option.toList_some, Option.toList_none,
          Multiset.coe_nil]
        abel
  · exact tracked

theorem Tracked.reclaim {s : Family} (tracked : Tracked s) (remover : Nat) :
    Tracked (s.reclaim remover) := by
  unfold Family.reclaim
  split
  · rename_i amounts holding
    -- The remover had been past its call.
    have called : ∀ index, Remover.called index ∈ s.removers.set remover .finished ↔
        Remover.called index ∈ s.removers :=
      fun index => called_set holding (by simp) (by simp)
    refine ⟨?_, ⟨tracked.registered.table, tracked.registered.kept⟩, ?_⟩
    · obtain ⟨forked, asked, due, served, pending⟩ := tracked.lineage
      refine ⟨forked, asked, due, fun index isCalled => served index ((called index).mp isCalled), ?_⟩
      intro index child here reaped notRemoved
      exact (called index).mpr (pending index child here reaped notRemoved)
    · obtain ⟨others, before, after⟩ := Bag.filterMap_set holding Remover.unreclaimed
      have balanced := tracked.balanced
      rw [inFlight, flight, before] at balanced
      refine Kernel.Balanced.reclaim (balanced.of_eq ?_)
      simp only [inFlight, flight, after, Remover.unreclaimed, Option.toList_some, Option.toList_none,
        Multiset.coe_singleton, Multiset.coe_nil, ← Multiset.singleton_add]
      abel
  · exact tracked

/-- A new child takes part in nothing yet. -/
theorem Tracked.fork {s : Family} (tracked : Tracked s) (pid : Int) : Tracked (s.fork pid) := by
  unfold Family.fork
  split
  · rename_i free
    obtain ⟨forked, asked, due, called, pending⟩ := tracked.lineage
    have newest : (s.children ++ [⟨pid, .alive, none, .waiting, false⟩])[s.children.length]? =
        some (⟨pid, .alive, none, .waiting, false⟩ : Child) := List.getElem?_concat_length
    -- A child found in the longer list is an old one or the new one.
    have found : ∀ index : Nat, ∀ child : Child,
        (s.children ++ [⟨pid, .alive, none, .waiting, false⟩])[index]? = some child →
        s.children[index]? = some child ∨
          index = s.children.length ∧ child = ⟨pid, .alive, none, .waiting, false⟩ := by
      intro index child there
      have inside := (List.getElem?_eq_some_iff.mp there).1
      rw [List.length_append, List.length_singleton] at inside
      by_cases old : index < s.children.length
      · rw [List.getElem?_append_left old] at there
        exact Or.inl there
      · have last : index = s.children.length := by omega
        subst last
        rw [newest, Option.some.injEq] at there
        exact Or.inr ⟨rfl, there.symm⟩
    have kept : ∀ index : Nat, ∀ child : Child, s.children[index]? = some child →
        (s.children ++ [⟨pid, .alive, none, .waiting, false⟩])[index]? = some child := by
      intro index child there
      rw [List.getElem?_append_left (List.getElem?_eq_some_iff.mp there).1, there]
    refine ⟨⟨?_, ?_, ?_, ?_, ?_⟩, ⟨?_, ?_⟩, ?_⟩
    -- The fork was allowed because every child with the pid has been reaped.
    · intro older newer a b atOlder atNewer order same
      have olderInside := (List.getElem?_eq_some_iff.mp atNewer).1
      rw [List.length_append, List.length_singleton] at olderInside
      rcases found older a atOlder with oldA | ⟨last, -⟩
      · rcases found newer b atNewer with oldB | ⟨-, isNew⟩
        · exact forked older newer a b oldA oldB order same
        · subst isNew
          exact free a (List.mem_of_getElem? oldA) same
      · omega
    · intro index child there
      rcases found index child there with old | ⟨-, isNew⟩
      · exact asked index child old
      · subst isNew
        simp
    · intro index isDue
      obtain ⟨child, there, finished, notRemoved⟩ := due index isDue
      exact ⟨child, kept index child there, finished, notRemoved⟩
    · intro index isCalled
      obtain ⟨child, there, reaped⟩ := called index isCalled
      exact ⟨child, kept index child there, reaped⟩
    · intro index child there reaped notRemoved
      rcases found index child there with old | ⟨-, isNew⟩
      · exact pending index child old reaped notRemoved
      · subst isNew
        cases reaped
    -- Owners are old children, so their tags are as they were.
    · refine tracked.registered.table.trans (List.map_congr_left fun index owner => ?_)
      obtain ⟨child, there, -⟩ := tracked.registered.owner owner
      rw [tagOf, tagOf, there, kept index child there]
    · refine tracked.registered.kept.congr (fun index owner => ?_) (fun index isDue => ?_)
      · obtain ⟨child, there, -⟩ := tracked.registered.owner owner
        rw [pidOf, pidOf, there, kept index child there]
      · obtain ⟨child, there, -⟩ := due index isDue
        rw [pidOf, pidOf, there, kept index child there]
    · refine tracked.balanced.of_eq ?_
      rw [inFlight, inFlight, flight, flight, Bag.snoc, Multiset.filterMap_cons_none _ _ rfl]
  · exact tracked

theorem Tracked.step {s : Family} (tracked : Tracked s) {action : Action}
    (inTime : CreatesInTime s action) : Tracked (s.step action) := by
  -- There is one lemma for each action; only create_pcb has to come in time.
  cases action with
  | fork pid => exact tracked.fork pid
  | sendRequest child request => exact tracked.sendRequest child request
  | exit child => exact tracked.exit child
  | read child => exact tracked.read child
  | allocate child => exact tracked.allocate child
  | create child => exact tracked.create inTime
  | reap child => exact tracked.reap child
  | removeAgain child => exact tracked.removeAgain child
  | delete remover => exact tracked.delete remover
  | reclaim remover => exact tracked.reclaim remover

theorem tracked_start (ramMb hddMb cores : Int) : Tracked (start ramMb hddMb cores) := by
  -- Before any fork there is nothing to say about any child.
  refine ⟨⟨?_, ?_, ?_, ?_, ?_⟩, ⟨rfl, Registry.kept_empty _⟩, Kernel.balanced_boot ramMb hddMb cores⟩
  all_goals simp [start]

/-- In a quiescent state whoever owns a block is alive. -/
theorem Tracked.owner_alive {s : Family} (tracked : Tracked s) (quiescent : Quiescent s)
    {index : Nat} (owner : index ∈ s.owners) :
    ∃ child : Child, s.children[index]? = some child ∧ child.life = .alive := by
  -- Some child due for the same pid was forked no later than the owner, and it is alive.
  obtain ⟨other, isDue, samePid, older⟩ := tracked.registered.kept.due_below owner
  obtain ⟨child, there, -, notRemoved⟩ := tracked.lineage.due other isDue
  have alive : child.life = .alive := by
    cases life : child.life with
    | alive => rfl
    | exited => exact absurd life (quiescent.reaped child (List.mem_of_getElem? there))
    -- A remover would still be called, but all of them have finished.
    | reaped =>
      have isCalled := tracked.lineage.pending other child there life notRemoved
      cases quiescent.removers _ isCalled
  obtain ⟨asker, here, -⟩ := tracked.registered.owner owner
  rcases Nat.eq_or_lt_of_le older with same | earlier
  · subst same
    exact ⟨child, there, alive⟩
  · -- Had the owner been forked later, its pid would have been free, so the other one reaped.
    rw [pidOf, pidOf, there, here, Option.map_some, Option.map_some, Option.some.injEq] at samePid
    have reaped := tracked.lineage.forked other index child asker there here earlier samePid
    rw [alive] at reaped
    cases reaped

/-- In a quiescent state the table holds what living children asked for. -/
theorem Tracked.tableAlive {s : Family} (tracked : Tracked s) (quiescent : Quiescent s) :
    TableAlive s := by
  -- No handler and no remover is between two sections.
  have nothing : s.inFlight = 0 := by
    have grants : s.children.filterMap Child.unrecorded = [] := by
      rw [List.filterMap_eq_nil_iff]
      intro child member
      rcases quiescent.handlers child member with idle | idle <;> simp [Child.unrecorded, idle]
    have returns : s.removers.filterMap Remover.unreclaimed = [] := by
      rw [List.filterMap_eq_nil_iff]
      intro remover member
      rw [quiescent.removers remover member]
      rfl
    rw [inFlight, flight, Multiset.filterMap_coe, Multiset.filterMap_coe, grants, returns]
    rfl
  have ram := tracked.balanced.ram
  have hdd := tracked.balanced.hdd
  rw [nothing, Multiset.add_zero, Kernel.sum_recorded] at ram hdd
  refine ⟨?_, fun p inTable => ?_, ram, hdd⟩
  · -- Two owners of one pid would be two living children of one pid.
    have apart : s.owners.Pairwise fun first second => s.pidOf first ≠ s.pidOf second := by
      refine tracked.registered.kept.sorted.imp_of_mem fun {first second} here there older same => ?_
      obtain ⟨a, atFirst, alive⟩ := tracked.owner_alive quiescent here
      obtain ⟨b, atSecond, -⟩ := tracked.owner_alive quiescent there
      have samePid : a.pid = b.pid := by simpa [pidOf, atFirst, atSecond] using same
      have reaped := tracked.lineage.forked first second a b atFirst atSecond (older same) samePid
      rw [alive] at reaped
      cases reaped
    -- The pids of the table are those of the owners.
    have pids : (s.kernel.pcbs.entries.map fun p => p.pid).map some = s.owners.map s.pidOf := by
      have tags := congrArg (List.map (Option.map Prod.fst)) tracked.registered.table
      rw [List.map_map, List.map_map] at tags
      rw [List.map_map]
      refine tags.trans (List.map_congr_left fun index _ => ?_)
      simp [tagOf, pidOf, Function.comp_def]
    refine List.Nodup.of_map some ?_
    rw [pids]
    exact List.pairwise_map.mpr apart
  -- A block has the tag of its owner, who is alive.
  · have tagged := List.mem_map_of_mem (f := fun p : Process => some (p.pid, some p.amounts)) inTable
    rw [tracked.registered.table] at tagged
    obtain ⟨index, owner, tag⟩ := List.mem_map.mp tagged
    obtain ⟨child, here, alive⟩ := tracked.owner_alive quiescent owner
    rw [tagOf, here, Option.map_some, Option.some.injEq, Prod.mk.injEq] at tag
    exact ⟨child, List.mem_of_getElem? here, alive, tag.1, tag.2⟩

/--
In every quiescent state that a run reaches in which blocks are created in time, the table holds the
distinct pids of living children, with what they asked for, and everything else is free.
-/
theorem tableAlive_run (ramMb hddMb cores : Int) {actions : List Action}
    (inTime : Machine.EachStep step CreatesInTime (start ramMb hddMb cores) actions)
    (quiescent : Quiescent (Machine.run step (start ramMb hddMb cores) actions)) :
    TableAlive (Machine.run step (start ramMb hddMb cores) actions) := by
  have preserved : ∀ s action, Tracked s → CreatesInTime s action → Tracked (step s action) :=
    fun _ _ tracked met => tracked.step met
  -- Every step in time keeps the invariant, and a quiescent state reads the table off it.
  have tracked := Machine.invariant_run_of_eachStep preserved (tracked_start ramMb hddMb cores) inTime
  exact tracked.tableAlive quiescent

/-- A child asks, is recorded and exits, and its pid is used again by a child that is recorded too. -/
def reusedPid : List Action :=
  [.fork 101, .sendRequest 0 ⟨CText.ascii "Alarm", 10, 5⟩, .read 0, .allocate 0, .create 0, .exit 0,
    .reap 0, .fork 101, .sendRequest 1 ⟨CText.ascii "Clock", 20, 2⟩, .read 1, .delete 0, .allocate 1,
    .reclaim 0, .create 1]

theorem tableAlive_run_reused_pid :
    Machine.EachStep step CreatesInTime (start 100 100 1) reusedPid ∧
      Quiescent (Machine.run step (start 100 100 1) reusedPid) ∧
      TableAlive (Machine.run step (start 100 100 1) reusedPid) := by
  have inTime : Machine.EachStep step CreatesInTime (start 100 100 1) reusedPid := by
    refine ⟨trivial, trivial, trivial, trivial, ?_, trivial, trivial, trivial, trivial, trivial, trivial,
      trivial, trivial, ?_, trivial⟩
    -- The first block is created before the removal for its child.
    · intro child _ here _
      have first : ∀ child ∈ (Machine.run step (start 100 100 1) (reusedPid.take 4)).children[0]?,
          child.removed = false ∧
            ∀ other ∈ (Machine.run step (start 100 100 1) (reusedPid.take 4)).owners,
              pidOf (Machine.run step (start 100 100 1) (reusedPid.take 4)) other = some child.pid →
              other < 0 := by decide +kernel
      exact ⟨by decide +kernel, first child here⟩
    -- The second block is created after the first one of the same pid is gone.
    · intro child _ here _
      have second : ∀ child ∈ (Machine.run step (start 100 100 1) (reusedPid.take 13)).children[1]?,
          child.removed = false ∧
            ∀ other ∈ (Machine.run step (start 100 100 1) (reusedPid.take 13)).owners,
              pidOf (Machine.run step (start 100 100 1) (reusedPid.take 13)) other = some child.pid →
              other < 1 := by decide +kernel
      exact ⟨by decide +kernel, second child here⟩
  have quiescent : Quiescent (Machine.run step (start 100 100 1) reusedPid) := by
    refine ⟨?_, ?_, ?_⟩
    · decide +kernel
    · decide +kernel
    · decide +kernel
  exact ⟨inTime, quiescent, tableAlive_run 100 100 1 inTime quiescent⟩

/-- A child whose request is read before it exits and granted after its removal stays in the table. -/
theorem removed_before_created :
    Quiescent (Machine.run step (start 100 100 1)
      [.fork 101, .sendRequest 0 ⟨CText.ascii "Alarm", 10, 5⟩, .read 0, .exit 0, .reap 0, .delete 0,
        .allocate 0, .create 0]) ∧
    ¬ TableAlive (Machine.run step (start 100 100 1)
      [.fork 101, .sendRequest 0 ⟨CText.ascii "Alarm", 10, 5⟩, .read 0, .exit 0, .reap 0, .delete 0,
        .allocate 0, .create 0]) := by
  constructor
  · refine ⟨?_, ?_, ?_⟩
    · decide +kernel
    · decide +kernel
    · decide +kernel
  · intro tableAlive
    have alive := tableAlive.alive
    revert alive
    decide +kernel

end Family

end Nebula
