import Mathlib.Algebra.Group.Prod
import Mathlib.Algebra.Ring.Int.Defs
import Mathlib.Data.ZMod.Basic
import Nebula.Queues.Roster

/-! The books of the kernel over whole runs: what its counters are off by, and when it is as good as new. -/

namespace Nebula

open CText

/-- What a step takes from the counters or adds to them without a process to show for it. -/
inductive Misbooking where
  /-- A request is charged for, and the table has no room for its process. -/
  | unrecorded (ram hdd : Int)
  /-- A process gives back a core that was never taken. -/
  | core
  deriving DecidableEq, Repr

/-- A misbooking as memory, disk and cores that come to the books. -/
def Misbooking.worth : Misbooking → Int × Int × Int
  | unrecorded ram hdd => (-ram, -hdd, 0)
  | core => (0, 0, 1)

/-- The calls that are one section under pcb_lock and neither create nor remove a process. -/
def KernelOp.oneSection : KernelOp → Bool
  | .createPcb .. | .removePcb _ | .handleIpcRequest .. => false
  | _ => true

/-- The memory and the disk of a process; what it has of the cores is in no counter. -/
def Process.holds (p : Process) : Int × Int × Int := (p.ramAlloc, p.hddAlloc, 0)

namespace Roster

/-- A change of one row that keeps what a process holds keeps what they all hold. -/
theorem holds_modify {edit : Process → Process} (keeps : ∀ p, (edit p).holds = p.holds) (rows : List Process)
    (place : Nat) : (rows.modify place edit).map Process.holds = rows.map Process.holds := by
  -- Place by place it is the same.
  apply List.ext_getElem?
  intro index
  rw [List.getElem?_map, List.getElem?_map, List.getElem?_modify]
  cases rows[index]? with
  | none => rfl
  | some p => by_cases here : place = index <;> simp [here, keeps]

theorem holds_change (r : Roster) (test : Process → Bool) {edit : Process → Process}
    (keeps : ∀ p, (edit p).holds = p.holds) :
    (r.change test edit).rows.map Process.holds = r.rows.map Process.holds := by
  unfold change
  split
  · rfl
  · exact holds_modify keeps _ _

theorem resources_change (r : Roster) (test : Process → Bool) (edit : Process → Process) :
    (r.change test edit).resources = r.resources := by
  unfold change
  split <;> rfl

theorem holds_halt (r : Roster) (test : Process → Bool) (text : Bytes) :
    (r.halt test text).rows.map Process.holds = r.rows.map Process.holds := by
  unfold halt
  split
  · rfl
  · exact r.holds_change test fun p => rfl

/-- A dispatch changes nothing that is held. -/
theorem holds_serve (r : Roster) : r.serve.rows.map Process.holds = r.rows.map Process.holds := by
  unfold serve
  split
  · rfl
  · rename_i place _
    have kept : (r.dispatch place).rows.map Process.holds = r.rows.map Process.holds := by
      refine holds_modify ?_ _ _
      exact fun p => rfl
    split <;> exact kept

/-- Aging changes nothing that is held. -/
theorem holds_age (r : Roster) : r.age.rows.map Process.holds = r.rows.map Process.holds := by
  have kept : (r.rows.map fun p => (ageProcess p).1).map Process.holds = r.rows.map Process.holds := by
    rw [List.map_map]
    refine List.map_congr_left fun p _ => ?_
    show (ageProcess p).1.holds = p.holds
    rw [Kernel.ageProcess_keeps]
    rfl
  unfold age
  dsimp only
  split <;> exact kept

theorem resources_serve (r : Roster) : r.serve.resources = r.resources := by
  unfold serve
  repeat' split
  all_goals rfl

theorem resources_age (r : Roster) : r.age.resources = r.resources := by
  unfold age
  dsimp only
  split <;> rfl

/-- A call of one section leaves everybody what he holds. -/
theorem holds_step (r : Roster) {op : KernelOp} (one : op.oneSection = true) :
    (r.step op).rows.map Process.holds = r.rows.map Process.holds := by
  cases op with
  | createPcb => cases one
  | removePcb => cases one
  | handleIpcRequest => cases one
  | setProcessPriority pid priority => exact r.holds_change _ fun p => rfl
  | sendInterrupt pid => exact r.holds_halt ..
  | unblockAfterDelay pid => exact r.holds_change _ fun p => rfl
  | sendMinimize pid => exact r.holds_halt ..
  | sendResume pid => exact r.holds_change _ fun p => rfl
  | schedulerTick => exact r.holds_serve
  | agingTick => exact r.holds_age

/-- The machine as configured. -/
def totals (r : Roster) : Int × Int × Int :=
  (r.resources.totalRam, r.resources.totalHdd, r.resources.totalCores)

end Roster

namespace Kernel

end Kernel

end Nebula
