import Mathlib.Data.List.Basic

/-! The children of a process as the operating system keeps them, with fork and waitpid. -/

/-- A child that has not been collected. -/
structure ChildProcess where
  pid : Int
  exited : Bool
  deriving DecidableEq, Repr

namespace ChildProcess

/-- fork gives -1 when it fails, and otherwise a pid that no child has. -/
def CanFork (children : List ChildProcess) (forked : Int) : Prop :=
  forked = -1 ∨ (0 < forked ∧ ∀ child ∈ children, child.pid ≠ forked)

instance (children : List ChildProcess) (forked : Int) : Decidable (CanFork children forked) :=
  inferInstanceAs (Decidable (_ ∨ _))

/-- fork. -/
def fork (children : List ChildProcess) (forked : Int) : List ChildProcess :=
  if forked = -1 then children else children ++ [⟨forked, false⟩]

/-- A child exits and waits to be collected. -/
def exit (children : List ChildProcess) (pid : Int) : List ChildProcess :=
  children.map fun child => if child.pid = pid then { child with exited := true } else child

/-- Whether a call of waitpid is about a child: -1 stands for any of them. -/
def awaited (target : Int) (child : ChildProcess) : Bool := target = -1 ∨ child.pid = target

/--
waitpid, with what it returns, or nothing while it waits.

Of several children that have exited one is collected, the one that is asked for if it is among them.
-/
def waitpid (children : List ChildProcess) (target collected : Int) (nohang : Bool) :
    Option (Int × List ChildProcess) :=
  if children.any (awaited target) then
    let ended := children.filter fun child => awaited target child && child.exited
    match (ended.find? fun child => child.pid == collected).or ended.head? with
    | some child => some (child.pid, children.erase child)
    | none => if nohang then some (0, children) else none
  else some (-1, children)

theorem waitpid_nil (target collected : Int) (nohang : Bool) :
    waitpid [] target collected nohang = some (-1, []) := rfl

/-- The only child is collected once it has exited. -/
theorem waitpid_singleton (pid collected : Int) (exited nohang : Bool) :
    waitpid [⟨pid, exited⟩] pid collected nohang =
      if exited then some (pid, []) else if nohang then some (0, [⟨pid, exited⟩]) else none := by
  cases exited with
  | false => simp [waitpid, awaited]
  | true => by_cases asked : pid = collected <;> simp [waitpid, awaited, asked]

end ChildProcess
