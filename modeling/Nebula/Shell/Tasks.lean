import Mathlib.Data.Finmap
import Nebula.Kernel.IpcManager
import Nebula.Library.Machine

/-! The shell's list of background tasks, and the children it starts. -/

namespace Nebula

open CText

structure BackgroundTask where
  pid : Int
  name : Bytes
  minimized : Bool
  deriving DecidableEq, Repr

/-- An array at file scope starts out zeroed. -/
instance : Inhabited BackgroundTask where
  default := { pid := 0, name := [], minimized := false }

/-- The display names of task_list, the first of which stands for no task. -/
def taskList : List Bytes :=
  ["", "Calculator", "Notepad", "Clock", "Calendar", "Create File", "Delete File", "Move File",
    "Copy File", "File Info", "Task Manager", "Music Player", "Minigame", "Instruction Guide",
    "Dice Roller", "Rename File", "Text Search", "Alarm", "Stopwatch", "File Compression",
    "Log Viewer", "Mini Terminal", "To-Do List", "Resource Dashboard"].map ascii

/-- A child that has been started and not been reaped. -/
inductive ChildState where
  | running
  /-- A stop is reported to one call of waitpid. -/
  | stopped (reported : Bool)
  | exited
  deriving DecidableEq, Repr

/-- Where the thread of main is. -/
inductive Phase where
  /-- At the menu prompt. -/
  | menu
  /-- At the prompt of manage_foreground. -/
  | choosing
  /-- In the waitpid of foreground_task. -/
  | foreground (pid : Int)
  deriving DecidableEq, Repr

structure Shell where
  kernel : Kernel
  /-- bg_tasks and bg_task_count. -/
  tasks : SlotArray BackgroundTask maxProcesses
  /-- The children that the operating system keeps for this process, the exited ones included. -/
  children : Finmap fun _ : Int => ChildState
  phase : Phase

namespace Shell

/-- The shell before main starts its daemons. -/
def boot (ramMb hddMb cores : Int) : Shell where
  kernel := Kernel.boot ramMb hddMb cores
  tasks := SlotArray.empty maxProcesses
  children := ∅
  phase := .menu

/-- The pids of bg_tasks, below bg_task_count. -/
def pids (s : Shell) : List Int := s.tasks.entries.map BackgroundTask.pid

/-- The state of a child that is not reaped. -/
def child (s : Shell) (pid : Int) : Option ChildState := s.children.lookup pid

/-- A child that was started and has not exited. -/
def Live (s : Shell) (pid : Int) : Prop := ∃ state, s.child pid = some state ∧ state ≠ .exited

/-- fork gives -1 when it fails, and otherwise a pid that no child has. -/
def CanFork (s : Shell) (pid : Int) : Prop := pid = -1 ∨ (0 < pid ∧ pid ∉ s.children)

instance (s : Shell) (pid : Int) : Decidable (s.CanFork pid) := inferInstanceAs (Decidable (_ ∨ _))

def fork (s : Shell) (pid : Int) : Shell :=
  if pid = -1 then s else { s with children := s.children.insert pid .running }

/-- The end of start_daemon, which launch_task repeats: list the child if the array has room. -/
def listTask (s : Shell) (pid : Int) (name : Bytes) : Shell :=
  if room : s.tasks.count < maxProcesses then
    { s with tasks := s.tasks.append room { pid, name := copyInto maxName name, minimized := false } }
  else s

def startDaemon (s : Shell) (pid : Int) (name : Bytes) : Shell := (s.fork pid).listTask pid name

/-- The name launch_task reads, when the number is in its range. -/
def taskName (taskNumber : Int) : Option Bytes :=
  if taskNumber < 1 ∨ taskNumber > 23 then none else taskList[taskNumber.toNat]?

/-- launch_task up to the waitpid of foreground_task. -/
def launchTask (s : Shell) (taskNumber pid : Int) : Shell :=
  match taskName taskNumber with
  | none => s
  | some name => { (s.fork pid).listTask pid name with phase := .foreground pid }

/-- SIGCONT makes a stopped child run again. -/
def continueChild (s : Shell) (pid : Int) : Shell :=
  match s.child pid with
  | some (.stopped _) => { s with children := s.children.insert pid .running }
  | _ => s

/-- send_resume, with its signal. -/
def sendResume (s : Shell) (pid : Int) : Shell :=
  { s with kernel := s.kernel.sendResume pid }.continueChild pid

/-- manage_foreground up to the waitpid of foreground_task, on the line it reads. -/
def manageForeground (s : Shell) (line : Bytes) : Shell :=
  let target := atoi line
  if target ≤ 0 then { s with phase := .menu }
  else
    match s.tasks.findFirst fun task => task.pid == target with
    | none => { s with phase := .menu }
    | some slot =>
      { ({ s with tasks := s.tasks.set slot { s.tasks.get slot with minimized := false } }
          : Shell).sendResume target with phase := .foreground target }

/--
waitpid with WUNTRACED: whether the status it leaves says stopped, and the children after it.

It gives nothing while it would block.
A call that waits for any child comes back with the one that is collected.
-/
def waitpid (s : Shell) (waited collected : Int) (junk : Bool) : Option (Bool × Shell) :=
  let pid := if waited = -1 then collected else waited
  match s.child pid with
  | some (.stopped false) =>
    -- A stop is reported once, and the child stays a child.
    some (true, { s with children := s.children.insert pid (.stopped true) })
  | some .exited => some (false, { s with children := s.children.erase pid })
  | some _ => none
  | none =>
    -- Without a child to wait for, the call fails and leaves in status what the stack held.
    if waited = -1 ∧ s.children.keys ≠ ∅ then none else some (junk, s)

/-- The first branch at the end of foreground_task. -/
def minimizeTask (s : Shell) (pid : Int) : Shell :=
  { s with
    kernel := s.kernel.sendMinimize pid
    tasks := (s.tasks.sweep fun task =>
      (if task.pid = pid then { task with minimized := true } else task, false)).1 }

/-- The second branch at the end of foreground_task. -/
def dropTask (s : Shell) (pid : Int) : Shell :=
  match s.tasks.findFirst fun task => task.pid == pid with
  | none => { s with kernel := s.kernel.removePcb pid }
  | some slot => { s with kernel := s.kernel.removePcb pid, tasks := s.tasks.removeAt slot }

/-- foreground_task from its waitpid on. -/
def foregroundTask (s : Shell) (waited collected : Int) (junk : Bool) : Shell :=
  match s.waitpid waited collected junk with
  | none => s
  | some (true, s) => { s.minimizeTask waited with phase := .menu }
  | some (false, s) => { s.dropTask waited with phase := .menu }

def childStops (s : Shell) (pid : Int) : Shell :=
  match s.child pid with
  | some .running => { s with children := s.children.insert pid (.stopped false) }
  | _ => s

def childExits (s : Shell) (pid : Int) : Shell :=
  match s.child pid with
  | some _ => { s with children := s.children.insert pid .exited }
  | none => s

/-- One round of the loop of sigchld_handler. -/
def sigchldHandler (s : Shell) (pid : Int) : Shell :=
  match s.child pid with
  | some .exited =>
    { s with children := s.children.erase pid, kernel := s.kernel.removePcb pid }
  | _ => s

/-- The pids to which shutdown_os sends SIGTERM. -/
def shutdownOs (s : Shell) : List Int := s.tasks.entries.map BackgroundTask.pid

end Shell

/-- What the shell, its children and the other threads do, in any order. -/
inductive ShellOp where
  | startDaemon (pid : Int) (name : Bytes)
  | launchTask (taskNumber pid : Int)
  /-- The menu's F, up to the prompt for a pid. -/
  | openForeground
  | manageForeground (line : Bytes)
  | foregroundTask (collected : Int) (junk : Bool)
  | childStops (pid : Int)
  | childExits (pid : Int)
  | sigchldHandler (pid : Int)
  | kernel (op : KernelOp)

/-- One step, which does nothing when the thread of main is elsewhere. -/
def Shell.step (s : Shell) : ShellOp → Shell
  | .startDaemon pid name =>
    if s.phase = .menu ∧ s.CanFork pid then s.startDaemon pid name else s
  | .launchTask taskNumber pid =>
    if s.phase = .menu ∧ s.CanFork pid then s.launchTask taskNumber pid else s
  | .openForeground => if s.phase = .menu then { s with phase := .choosing } else s
  | .manageForeground line => if s.phase = .choosing then s.manageForeground line else s
  | .foregroundTask collected junk =>
    -- The wait goes on as long as there is nothing to report.
    match s.phase with
    | .foreground waited => s.foregroundTask waited collected junk
    | _ => s
  | .childStops pid => s.childStops pid
  | .childExits pid => s.childExits pid
  | .sigchldHandler pid => s.sigchldHandler pid
  | .kernel op => { s with kernel := s.kernel.step op }

namespace Shell

@[simp] theorem pids_fork (s : Shell) (pid : Int) : (s.fork pid).pids = s.pids := by
  unfold fork
  split <;> rfl

@[simp] theorem count_fork (s : Shell) (pid : Int) : (s.fork pid).tasks.count = s.tasks.count := by
  unfold fork
  split <;> rfl

@[simp] theorem phase_fork (s : Shell) (pid : Int) : (s.fork pid).phase = s.phase := by
  unfold fork
  split <;> rfl

theorem mem_children_fork {s : Shell} {pid : Int} (forked : pid ≠ -1) (other : Int) :
    other ∈ (s.fork pid).children ↔ other = pid ∨ other ∈ s.children := by
  rw [fork, if_neg forked]
  exact Finmap.mem_insert

@[simp] theorem children_listTask (s : Shell) (pid : Int) (name : Bytes) :
    (s.listTask pid name).children = s.children := by
  unfold listTask
  split <;> rfl

@[simp] theorem phase_listTask (s : Shell) (pid : Int) (name : Bytes) :
    (s.listTask pid name).phase = s.phase := by
  unfold listTask
  split <;> rfl

theorem pids_listTask_room {s : Shell} (room : s.tasks.count < maxProcesses) (pid : Int)
    (name : Bytes) : (s.listTask pid name).pids = s.pids ++ [pid] := by
  simp [listTask, room, pids, SlotArray.entries_append]

theorem pids_listTask_full {s : Shell} (full : ¬ s.tasks.count < maxProcesses) (pid : Int)
    (name : Bytes) : (s.listTask pid name).pids = s.pids := by
  simp [listTask, full]

@[simp] theorem phase_continueChild (s : Shell) (pid : Int) :
    (s.continueChild pid).phase = s.phase := by
  unfold continueChild
  split <;> rfl

/--
A call of waitpid for one child.

It blocks, or comes back with a stop or an exit of the child, or fails as the child is reaped.
-/
theorem waitpid_cases (s : Shell) {waited : Int} (one : waited ≠ -1) (collected : Int) (junk : Bool) :
    s.waitpid waited collected junk = none ∨
      (s.child waited = some (.stopped false) ∧ s.waitpid waited collected junk =
        some (true, { s with children := s.children.insert waited (.stopped true) })) ∨
      (s.child waited = some .exited ∧ s.waitpid waited collected junk =
        some (false, { s with children := s.children.erase waited })) ∨
      (s.child waited = none ∧ s.waitpid waited collected junk = some (junk, s)) := by
  unfold waitpid
  simp only [if_neg one]
  -- The cases are the states of the child that is waited for.
  split
  · rename_i stopped
    exact Or.inr (Or.inl ⟨stopped, rfl⟩)
  · rename_i exited
    exact Or.inr (Or.inr (Or.inl ⟨exited, rfl⟩))
  · exact Or.inl rfl
  · rename_i gone
    exact Or.inr (Or.inr (Or.inr ⟨gone, by simp [one]⟩))

/-- An entry overwritten with one of the same pid leaves the pids as they were. -/
theorem pids_set (s : Shell) (slot : Slot) {task : BackgroundTask}
    (same : task.pid = (s.tasks.get slot).pid) :
    Shell.pids { s with tasks := s.tasks.set slot task } = s.pids := by
  simp only [pids, SlotArray.entries, SlotArray.slots_set, List.map_map]
  apply List.map_congr_left
  intro other _
  simp only [Function.comp_apply, SlotArray.get_set]
  split
  · rename_i here
    rw [same, here]
  · rfl

/-- Only the mark of the entries is written when a task is minimised. -/
@[simp] theorem pids_minimizeTask (s : Shell) (pid : Int) : (s.minimizeTask pid).pids = s.pids := by
  -- The sweep writes the mark of an entry at most.
  simp only [pids, minimizeTask, SlotArray.entries_sweep, List.map_map]
  apply List.map_congr_left
  intro task _
  simp only [Function.comp_apply]
  split <;> rfl

@[simp] theorem children_dropTask (s : Shell) (pid : Int) : (s.dropTask pid).children = s.children := by
  unfold dropTask
  split <;> rfl

/-- The shift deletes the first entry of a pid and no other. -/
theorem pids_dropTask (s : Shell) (pid : Int) : (s.dropTask pid).pids = s.pids.erase pid := by
  unfold dropTask
  split
  · rename_i missing
    -- No entry has the pid, so there is nothing to erase.
    have unlisted : pid ∉ s.pids := by
      simp only [pids, List.mem_map, SlotArray.mem_entries]
      rintro ⟨task, ⟨slot, live, rfl⟩, same⟩
      simpa [same] using SlotArray.findFirst_none.mp missing slot live
    rw [List.erase_of_not_mem unlisted]
    rfl
  · rename_i slot found
    -- The entries before the one that is found have other pids.
    have erased := SlotArray.entries_removeAt_first found
    simp only [pids, erased, List.erase_eq_eraseP, List.eraseP_map]
    congr 2
    funext task
    exact Bool.beq_comm

end Shell

end Nebula
