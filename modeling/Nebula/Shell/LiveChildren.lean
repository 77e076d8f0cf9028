import Nebula.Shell.Tasks

/-! The task list names the live children, as long as none is reaped behind the shell's back. -/

namespace Nebula

open CText

namespace Shell

/--
The list is exact at the menu, once the exited children are reaped.

The signals of a shutdown then go to the live children and to nothing else.
-/
def PromptExact (s : Shell) : Prop :=
  s.phase = .menu → (∀ pid, s.child pid ≠ some .exited) →
    s.pids.Nodup ∧ (∀ pid, pid ∈ s.pids ↔ s.Live pid) ∧ ∀ pid, pid ∈ s.shutdownOs ↔ s.Live pid

/--
A wait in the foreground leaves the list exact: a task that is stopped is listed, and the
uninitialised status of a task that is reaped already does not read as a stop.
-/
def WaitKeepsList (s : Shell) (junk : Bool) : Phase → Prop
  | .foreground waited =>
    (s.child waited = some (.stopped false) → waited ∈ s.pids) ∧
      (s.child waited = none → waited ∈ s.pids → junk = false)
  | _ => True

/-- The condition under which a step keeps the list exact. -/
def KeepsList (s : Shell) : ShellOp → Prop
  | .startDaemon pid _ =>
    s.phase = .menu → s.CanFork pid → pid ≠ -1 ∧ s.tasks.count < maxProcesses
  | .launchTask taskNumber pid =>
    s.phase = .menu → s.CanFork pid → taskName taskNumber ≠ none → pid ≠ -1
  | .foregroundTask _ junk => s.WaitKeepsList junk s.phase
  | .sigchldHandler pid =>
    s.child pid = some .exited → pid ∈ s.pids → s.phase = .foreground pid
  | _ => True

instance (s : Shell) (junk : Bool) : ∀ phase, Decidable (s.WaitKeepsList junk phase)
  | .foreground _ => inferInstanceAs (Decidable (_ ∧ _))
  | .menu => isTrue trivial
  | .choosing => isTrue trivial

instance (s : Shell) : ∀ op, Decidable (s.KeepsList op)
  | .startDaemon _ _ => inferInstanceAs (Decidable (_ → _))
  | .launchTask _ _ => inferInstanceAs (Decidable (_ → _))
  | .foregroundTask _ _ => inferInstanceAs (Decidable (WaitKeepsList s _ _))
  | .sigchldHandler _ => inferInstanceAs (Decidable (_ → _))
  | .openForeground => isTrue trivial
  | .manageForeground _ => isTrue trivial
  | .childStops _ => isTrue trivial
  | .childExits _ => isTrue trivial
  | .kernel _ => isTrue trivial

/-- Apart from the task in the foreground, the list names the children that are not reaped. -/
structure Listed (s : Shell) : Prop where
  distinct : s.pids.Nodup
  waits : ∀ pid, s.phase = .foreground pid → 0 < pid
  exact : ∀ pid, s.phase ≠ .foreground pid → (pid ∈ s.pids ↔ pid ∈ s.children)

theorem child_eq_none {s : Shell} {pid : Int} : s.child pid = none ↔ pid ∉ s.children :=
  Finmap.lookup_eq_none

theorem mem_children {s : Shell} {pid : Int} : pid ∈ s.children ↔ ∃ state, s.child pid = some state :=
  Finmap.mem_iff

theorem listed_boot (ramMb hddMb cores : Int) : (boot ramMb hddMb cores).Listed where
  distinct := List.nodup_nil
  waits := by
    intro pid away
    cases away
  exact := by
    intro pid _
    simp [boot, pids, Finmap.notMem_empty]

/-- Without an exited child, the ones that are not reaped are the live ones. -/
theorem Listed.promptExact {s : Shell} (listed : s.Listed) : s.PromptExact := by
  intro at_menu reaped
  -- Nobody is in the foreground, so the list names every child there is.
  have live : ∀ pid, pid ∈ s.pids ↔ s.Live pid := by
    intro pid
    rw [listed.exact pid (by rw [at_menu]; simp), mem_children]
    constructor
    · rintro ⟨state, known⟩
      refine ⟨state, known, ?_⟩
      rintro rfl
      exact reaped pid known
    · rintro ⟨state, known, _⟩
      exact ⟨state, known⟩
  exact ⟨listed.distinct, live, live⟩

/-- Replacing the state of a child changes neither the list nor who is a child. -/
theorem Listed.insert {s : Shell} (listed : s.Listed) {pid : Int} (known : pid ∈ s.children)
    (state : ChildState) : Listed { s with children := s.children.insert pid state } where
  distinct := listed.distinct
  waits := listed.waits
  exact := by
    intro other away
    rw [Finmap.mem_insert, or_iff_right_of_imp]
    · exact listed.exact other away
    · rintro rfl
      exact known

theorem Listed.kernel {s : Shell} (listed : s.Listed) (k : Kernel) : Listed { s with kernel := k } where
  distinct := listed.distinct
  waits := listed.waits
  exact := listed.exact

/-- Coming back to the menu, only the task that was in the foreground has to be looked at. -/
theorem Listed.back {s : Shell} (listed : s.Listed) {waited : Int} (there : s.phase = .foreground waited)
    {after : Shell} (menu : after.phase = .menu) (distinct : after.pids.Nodup)
    (others : ∀ pid, pid ≠ waited →
      ((pid ∈ after.pids ↔ pid ∈ s.pids) ∧ (pid ∈ after.children ↔ pid ∈ s.children)))
    (itself : waited ∈ after.pids ↔ waited ∈ after.children) : after.Listed where
  distinct := distinct
  waits := by
    intro pid away
    rw [menu] at away
    cases away
  exact := by
    intro pid _
    -- The others were not in the foreground before either.
    by_cases same : pid = waited
    · rw [same]
      exact itself
    · rw [(others pid same).1, (others pid same).2]
      apply listed.exact pid
      rw [there]
      simpa using Ne.symm same

/-- A forked child is new, so listing it repeats no pid. -/
theorem Listed.listTask {s : Shell} (listed : s.Listed) (at_menu : s.phase = .menu) {pid : Int}
    (fresh : pid ∉ s.children) (name : Bytes) : ((s.fork pid).listTask pid name).pids.Nodup := by
  -- The list is exact at the menu, where a fork can take place.
  have unlisted : pid ∉ s.pids := by
    rw [listed.exact pid (by rw [at_menu]; simp)]
    exact fresh
  by_cases room : (s.fork pid).tasks.count < maxProcesses
  · rw [pids_listTask_room room, pids_fork]
    exact List.nodup_append'.mpr ⟨listed.distinct, List.nodup_singleton pid, by simpa using unlisted⟩
  · rw [pids_listTask_full room, pids_fork]
    exact listed.distinct

theorem Listed.startDaemon {s : Shell} (listed : s.Listed) (at_menu : s.phase = .menu) {pid : Int}
    (forks : s.CanFork pid) (forked : pid ≠ -1) (room : s.tasks.count < maxProcesses) (name : Bytes) :
    (s.startDaemon pid name).Listed := by
  have fresh : pid ∉ s.children := (forks.resolve_left forked).2
  have here : (s.startDaemon pid name).phase = .menu := by
    simp [Shell.startDaemon, at_menu]
  constructor
  · exact listed.listTask at_menu fresh name
  · intro other away
    rw [here] at away
    cases away
  -- The child joins the children and the list at once.
  · intro other _
    rw [Shell.startDaemon, pids_listTask_room (by simpa using room), pids_fork, children_listTask,
      mem_children_fork forked, List.mem_append, List.mem_singleton, or_comm,
      listed.exact other (by rw [at_menu]; simp)]

theorem Listed.launchTask {s : Shell} (listed : s.Listed) (at_menu : s.phase = .menu) {pid : Int}
    (forks : s.CanFork pid) {taskNumber : Int} (forked : taskName taskNumber ≠ none → pid ≠ -1) :
    (s.launchTask taskNumber pid).Listed := by
  unfold Shell.launchTask
  split
  · exact listed
  · rename_i name named
    have forked : pid ≠ -1 := forked (by simp [named])
    obtain ⟨positive, fresh⟩ := forks.resolve_left forked
    constructor
    · exact listed.listTask at_menu fresh name
    · intro other away
      cases away
      exact positive
    -- The new child is in the foreground, where it may go unlisted when the array is full.
    · intro other away
      have apart : other ≠ pid := fun same => away (by rw [same])
      have same_pids : other ∈ ((s.fork pid).listTask pid name).pids ↔ other ∈ s.pids := by
        by_cases room : (s.fork pid).tasks.count < maxProcesses
        · simp [pids_listTask_room room, apart]
        · simp [pids_listTask_full room]
      have same_children : other ∈ ((s.fork pid).listTask pid name).children ↔ other ∈ s.children := by
        rw [children_listTask, mem_children_fork forked, or_iff_right apart]
      exact same_pids.trans ((listed.exact other (by rw [at_menu]; simp)).trans same_children.symm)

/-- Continuing a child changes its state at most. -/
theorem Listed.continueChild {s : Shell} (listed : s.Listed) (pid : Int) :
    (s.continueChild pid).Listed := by
  unfold Shell.continueChild
  split
  · rename_i known
    exact listed.insert (mem_children.mpr ⟨_, known⟩) .running
  · exact listed

theorem Listed.childStops {s : Shell} (listed : s.Listed) (pid : Int) : (s.childStops pid).Listed := by
  unfold Shell.childStops
  split
  · rename_i known
    exact listed.insert (mem_children.mpr ⟨_, known⟩) (.stopped false)
  · exact listed

/-- An exited child is kept until it is reaped. -/
theorem Listed.childExits {s : Shell} (listed : s.Listed) (pid : Int) : (s.childExits pid).Listed := by
  unfold Shell.childExits
  split
  · rename_i known
    exact listed.insert (mem_children.mpr ⟨_, known⟩) .exited
  · exact listed

/-- With no task in the foreground the whole list is exact, wherever the shell goes from there. -/
theorem Listed.moves {s : Shell} (listed : s.Listed) (away : ∀ pid, s.phase ≠ .foreground pid)
    {phase : Phase} (waits : ∀ pid, phase = .foreground pid → 0 < pid) :
    Listed { s with phase := phase } where
  distinct := listed.distinct
  waits := waits
  exact := fun pid _ => listed.exact pid (away pid)

/-- Marking an entry as active changes no pid. -/
theorem Listed.set {s : Shell} (listed : s.Listed) (slot : Slot) {task : BackgroundTask}
    (same : task.pid = (s.tasks.get slot).pid) :
    Listed { s with tasks := s.tasks.set slot task } where
  distinct := by
    rw [pids_set s slot same]
    exact listed.distinct
  waits := listed.waits
  exact := by
    intro pid away
    rw [pids_set s slot same]
    exact listed.exact pid away

theorem Listed.manageForeground {s : Shell} (listed : s.Listed) (choosing : s.phase = .choosing)
    (line : Bytes) : (s.manageForeground line).Listed := by
  have away : ∀ pid, s.phase ≠ .foreground pid := by
    intro pid
    rw [choosing]
    simp
  unfold Shell.manageForeground
  dsimp only
  split
  · exact listed.moves away (by simp)
  · rename_i positive
    split
    · exact listed.moves away (by simp)
    -- The entry that is found is marked and the child is continued before the wait starts.
    · rename_i slot _
      let task := { s.tasks.get slot with minimized := false }
      have marked : Listed { s with tasks := s.tasks.set slot task } := listed.set slot rfl
      apply ((marked.kernel _).continueChild _).moves
      · intro pid
        rw [phase_continueChild]
        exact away pid
      · intro pid waits
        cases waits
        omega

/-- After a stop the task is listed as a minimised one. -/
theorem Listed.minimizeTask {s : Shell} (listed : s.Listed) {waited : Int}
    (there : s.phase = .foreground waited) (itself : waited ∈ s.pids ↔ waited ∈ s.children) :
    Listed { s.minimizeTask waited with phase := .menu } := by
  apply listed.back there rfl
  · show (s.minimizeTask waited).pids.Nodup
    rw [pids_minimizeTask]
    exact listed.distinct
  · intro pid _
    exact ⟨by rw [← pids_minimizeTask s waited]; rfl, Iff.rfl⟩
  · rw [← pids_minimizeTask s waited] at itself
    exact itself

/-- A task that is gone leaves the list. -/
theorem Listed.dropTask {s : Shell} (listed : s.Listed) {waited : Int}
    (there : s.phase = .foreground waited) (gone : waited ∉ s.children) :
    Listed { s.dropTask waited with phase := .menu } := by
  -- The pid goes from the list, where it was once, and no child is concerned.
  have shifted : Shell.pids { s.dropTask waited with phase := .menu } = s.pids.erase waited :=
    pids_dropTask s waited
  have kept : Shell.children { s.dropTask waited with phase := .menu } = s.children :=
    children_dropTask s waited
  apply listed.back there rfl
  · rw [shifted]
    exact listed.distinct.erase waited
  · intro pid apart
    rw [shifted, kept]
    exact ⟨List.mem_erase_of_ne apart, Iff.rfl⟩
  · rw [shifted, kept]
    exact iff_of_false listed.distinct.not_mem_erase gone

/-- Reaping a child that the list does not name, or that is in the foreground. -/
theorem Listed.reap {s : Shell} (listed : s.Listed) {pid : Int}
    (unlisted : pid ∈ s.pids → s.phase = .foreground pid) :
    Listed { s with children := s.children.erase pid } where
  distinct := listed.distinct
  waits := listed.waits
  exact := by
    intro other away
    -- A child that is listed and not in the foreground is not the one reaped.
    have apart : other ∈ s.pids → other ≠ pid := by
      rintro member rfl
      exact away (unlisted member)
    rw [Finmap.mem_erase, ← listed.exact other away]
    exact ⟨fun member => ⟨apart member, member⟩, And.right⟩

theorem Listed.foregroundTask {s : Shell} (listed : s.Listed) {waited : Int}
    (there : s.phase = .foreground waited) (collected : Int) {junk : Bool}
    (stopped : s.child waited = some (.stopped false) → waited ∈ s.pids)
    (lost : s.child waited = none → waited ∈ s.pids → junk = false) :
    (s.foregroundTask waited collected junk).Listed := by
  have one : waited ≠ -1 := by
    have := listed.waits waited there
    omega
  unfold Shell.foregroundTask
  rcases s.waitpid_cases one collected junk with
    blocks | ⟨known, returns⟩ | ⟨known, returns⟩ | ⟨gone, returns⟩
  · rw [blocks]
    exact listed
  -- A stopped task has to be listed already, as nothing adds it now.
  · rw [returns]
    have known' : waited ∈ s.children := mem_children.mpr ⟨_, known⟩
    have continued := listed.insert known' (.stopped true)
    apply continued.minimizeTask there
    exact iff_of_true (stopped known) (Finmap.mem_insert.mpr (Or.inl rfl))
  -- An exited task is reaped here and dropped.
  · rw [returns]
    apply (listed.reap fun _ => there).dropTask there
    simp [Finmap.mem_erase]
  -- The task was reaped before, and the uninitialised status decides which branch is taken.
  · rw [returns]
    have gone' : waited ∉ s.children := child_eq_none.mp gone
    cases junk with
    | true =>
      have unlisted : waited ∉ s.pids := fun member => by simpa using lost gone member
      exact listed.minimizeTask there (iff_of_false unlisted gone')
    | false => exact listed.dropTask there gone'

theorem Listed.sigchldHandler {s : Shell} (listed : s.Listed) {pid : Int}
    (unlisted : s.child pid = some .exited → pid ∈ s.pids → s.phase = .foreground pid) :
    (s.sigchldHandler pid).Listed := by
  unfold Shell.sigchldHandler
  split
  · rename_i exited
    exact (listed.reap (unlisted exited)).kernel _
  · exact listed

/-- One step keeps the list, whichever part of the shell or of its surroundings takes it. -/
theorem Listed.step {s : Shell} (listed : s.Listed) {op : ShellOp} (keeps : s.KeepsList op) :
    (s.step op).Listed := by
  -- A step that its place in the menu does not allow changes nothing.
  cases op with
  | startDaemon pid name =>
    simp only [Shell.step]
    split
    · rename_i enabled
      obtain ⟨forked, room⟩ := keeps enabled.1 enabled.2
      exact listed.startDaemon enabled.1 enabled.2 forked room name
    · exact listed
  | launchTask taskNumber pid =>
    simp only [Shell.step]
    split
    · rename_i enabled
      exact listed.launchTask enabled.1 enabled.2 (keeps enabled.1 enabled.2)
    · exact listed
  | openForeground =>
    simp only [Shell.step]
    split
    · rename_i at_menu
      exact listed.moves (by simp [at_menu]) (by simp)
    · exact listed
  | manageForeground line =>
    simp only [Shell.step]
    split
    · rename_i choosing
      exact listed.manageForeground choosing line
    · exact listed
  | foregroundTask collected junk =>
    simp only [Shell.step]
    split
    · rename_i waited there
      -- The task that the shell waits for stops again, exits or is no child any more.
      rw [KeepsList, there] at keeps
      obtain ⟨stopped, lost⟩ := keeps
      exact listed.foregroundTask there collected stopped lost
    · exact listed
  | childStops pid => exact listed.childStops pid
  | childExits pid => exact listed.childExits pid
  | sigchldHandler pid => exact listed.sigchldHandler keeps
  | kernel op => exact listed.kernel _

/-- In a run whose steps all keep the list, it is exact in every state at the menu. -/
theorem promptExact_of_keepsList (ramMb hddMb cores : Int) (ops : List ShellOp)
    (keeps : Machine.EachStep step KeepsList (boot ramMb hddMb cores) ops) :
    Machine.Throughout step PromptExact (boot ramMb hddMb cores) ops :=
  Machine.throughout_of_eachStep (fun _ listed => listed.promptExact)
    (fun _ _ listed keeps => listed.step keeps) (listed_boot ramMb hddMb cores) keeps

/-- A task is minimised, brought back, and reaped before it is waited for; then its pid is used again. -/
theorem promptExact_of_keepsList_reused_pid :
    Machine.Throughout step PromptExact (boot 1024 1024 1)
      [.startDaemon 101 (ascii "Clock Daemon"), .launchTask 2 102, .childStops 102,
        .foregroundTask 0 true, .openForeground, .manageForeground (ascii "102"), .childExits 102,
        .sigchldHandler 102, .foregroundTask 0 false, .launchTask 4 102] :=
  promptExact_of_keepsList 1024 1024 1 _ (by decide +kernel)

/-- Once no child is left, an exact list is empty. -/
theorem PromptExact.pids_eq_nil {s : Shell} (exact : s.PromptExact) (menu : s.phase = .menu)
    (childless : s.children = ∅) : s.pids = [] := by
  -- Every listed pid would be that of a child.
  have gone : ∀ pid, s.child pid = none := by
    intro pid
    rw [child, childless]
    exact Finmap.lookup_empty pid
  obtain ⟨_, live, _⟩ := exact menu fun pid => by simp [gone]
  rw [List.eq_nil_iff_forall_not_mem]
  intro pid member
  obtain ⟨state, known, _⟩ := (live pid).mp member
  simp [gone] at known

/-- The handler reaps a daemon that has exited, and its entry stays. -/
theorem reaped_daemon_stays_listed :
    ¬ Machine.Throughout step PromptExact (boot 1024 1024 1)
      [.startDaemon 101 (ascii "Clock Daemon"), .childExits 101, .sigchldHandler 101] := by
  intro always
  have last := Machine.throughout_iff_reached.mp always _ List.prefix_rfl
  have emptied := last.pids_eq_nil (by decide +kernel) (by decide +kernel)
  revert emptied
  decide +kernel

end Shell

end Nebula
