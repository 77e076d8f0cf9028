import Nebula.Deadlock.Search
import Nebula.Kernel.State

/-! The graph that run_detection builds from the process table never has a cycle. -/

namespace Nebula

open CText Relation

/-- The node of a slot. -/
def processNode (slot : Slot) : Fin graphSize := slot.castAdd 3

/-- The nodes of memory, disk and cores, behind those of the slots. -/
def ramNode : Fin graphSize := Fin.natAdd maxProcesses 0
@[inherit_doc ramNode] def hddNode : Fin graphSize := Fin.natAdd maxProcesses 1
@[inherit_doc ramNode] def coreNode : Fin graphSize := Fin.natAdd maxProcesses 2

/-- Set one entry of the matrix if a condition holds. -/
def setEdge (condition : Bool) (u v : Fin graphSize) (adj : Adjacency graphSize) :
    Adjacency graphSize :=
  if condition then fun a b => if a = u ∧ b = v then true else adj a b else adj

namespace Kernel

/-- The body of the loop over the table in run_detection. -/
def addRequests (k : Kernel) (adj : Adjacency graphSize) (slot : Slot) : Adjacency graphSize :=
  let p := k.pcb slot
  let u := processNode slot
  let adj :=
    if looksBlocked p.state then
      setEdge (p.coreId < 0) u coreNode (setEdge (p.hddAlloc > 0) u hddNode
        (setEdge (p.ramAlloc > 0) u ramNode adj))
    else adj
  if looksRunning p.state then
    setEdge (p.coreId ≥ 0) coreNode u (setEdge (p.hddAlloc > 0) hddNode u
      (setEdge (p.ramAlloc > 0) ramNode u adj))
  else adj

/-- The matrix run_detection has filled when it releases pcb_lock. -/
def resourceGraph (k : Kernel) : Adjacency graphSize :=
  k.pcbs.slots.foldl k.addRequests fun _ _ => false

/--
run_detection, with the lines it logs and the arrays it leaves.

It gives nothing when the recursion of dfs goes deeper than a bound.
-/
def runDetection (k : Kernel) (depth : Nat) : Option (List Bytes × Marks graphSize) :=
  match search k.resourceGraph depth with
  | none => none
  | some (found, marks) => some (if found then [ascii "Deadlock detected!"] else [], marks)

/-- A node stands for a resource. -/
def IsResource (node : Fin graphSize) : Prop := maxProcesses ≤ node.val

instance (node : Fin graphSize) : Decidable (IsResource node) := inferInstanceAs (Decidable (_ ≤ _))

/-- The blocked process of a slot asks for a resource. -/
def Requests (k : Kernel) (slot : Slot) (u v : Fin graphSize) : Prop :=
  looksBlocked (k.pcb slot).state = true ∧ u = processNode slot ∧ IsResource v

/-- A resource is held by the running process of a slot. -/
def HeldBy (k : Kernel) (slot : Slot) (u v : Fin graphSize) : Prop :=
  looksRunning (k.pcb slot).state = true ∧ IsResource u ∧ v = processNode slot

/-- What the theorems below say of the detector, for the table of a kernel. -/
structure NeverFires (k : Kernel) : Prop where
  /-- No process has an edge to it and an edge from it. -/
  oneWay : ∀ slot : Slot, ¬ Digraph.Through (Edge k.resourceGraph) (processNode slot)
  /-- No resource is linked to a resource. -/
  apart : ∀ u v, IsResource u → IsResource v → ¬ Edge k.resourceGraph u v
  acyclic : ∀ u, ¬ TransGen (Edge k.resourceGraph) u u
  /-- Nothing is logged, and nothing is stored into cycle. -/
  silent : ∀ depth, graphSize ≤ depth →
    ∃ marks, k.runDetection depth = some ([], marks) ∧ marks.cycle = [] ∧ marks.cycleLen = 0

theorem not_isResource_processNode (slot : Slot) : ¬ IsResource (processNode slot) := by
  unfold IsResource processNode
  exact Nat.not_le.mpr slot.isLt

theorem processNode_injective : Function.Injective processNode := by
  intro slot other same
  exact Fin.castAdd_injective maxProcesses 3 same

/-- The tests for BLOCKED and RUNNING read different first letters. -/
theorem not_looksRunning_of_looksBlocked {state : Bytes} (blocked : looksBlocked state = true) :
    looksRunning state = false := by
  unfold looksBlocked at blocked
  unfold looksRunning
  rw [beq_iff_eq.mp blocked]
  rfl

/-- An entry that is set was set before, or is the one written. -/
theorem setEdge_cases {condition : Bool} {u v a b : Fin graphSize} {adj : Adjacency graphSize}
    (set : setEdge condition u v adj a b = true) : adj a b = true ∨ a = u ∧ b = v := by
  unfold setEdge at set
  split at set
  · dsimp only at set
    split at set
    · rename_i here
      exact Or.inr here
    · exact Or.inl set
  · exact Or.inl set

private theorem resourceNodes :
    IsResource ramNode ∧ IsResource hddNode ∧ IsResource coreNode := by decide

/-- Three writes in a row add nothing but what each of them is known to mean. -/
private theorem setEdge_three (meaning : Fin graphSize → Fin graphSize → Prop)
    {ram hdd core : Bool} {u v u' v' u'' v'' a b : Fin graphSize} {adj : Adjacency graphSize}
    (means : meaning u v) (means' : meaning u' v') (means'' : meaning u'' v'')
    (set : setEdge core u'' v'' (setEdge hdd u' v' (setEdge ram u v adj)) a b = true) :
    adj a b = true ∨ meaning a b := by
  -- The last write is looked at first, as it is the outermost.
  rcases setEdge_cases set with set | ⟨rfl, rfl⟩
  · rcases setEdge_cases set with set | ⟨rfl, rfl⟩
    · rcases setEdge_cases set with set | ⟨rfl, rfl⟩
      · exact Or.inl set
      · exact Or.inr means
    · exact Or.inr means'
  · exact Or.inr means''

/-- The first three writes of a round add requests of a blocked process. -/
private theorem blocked_cases {k : Kernel} {adj : Adjacency graphSize} {slot : Slot}
    {ram hdd core : Bool} {u v : Fin graphSize}
    (set : (if looksBlocked (k.pcb slot).state then
        setEdge core (processNode slot) coreNode (setEdge hdd (processNode slot) hddNode
          (setEdge ram (processNode slot) ramNode adj))
      else adj) u v = true) : adj u v = true ∨ k.Requests slot u v := by
  obtain ⟨isRam, isHdd, isCore⟩ := resourceNodes
  split at set
  · rename_i blocked
    exact setEdge_three (k.Requests slot) ⟨blocked, rfl, isRam⟩ ⟨blocked, rfl, isHdd⟩
      ⟨blocked, rfl, isCore⟩ set
  · exact Or.inl set

/-- A round of the loop adds requests of a blocked process, or holdings of a running one. -/
theorem addRequests_cases {k : Kernel} {adj : Adjacency graphSize} {slot : Slot}
    {u v : Fin graphSize} (set : k.addRequests adj slot u v = true) :
    adj u v = true ∨ k.Requests slot u v ∨ k.HeldBy slot u v := by
  obtain ⟨isRam, isHdd, isCore⟩ := resourceNodes
  unfold addRequests at set
  -- The writes for a running process come last, so they are looked at first.
  split at set
  · rename_i running
    rcases setEdge_three (k.HeldBy slot) ⟨running, isRam, rfl⟩ ⟨running, isHdd, rfl⟩
      ⟨running, isCore, rfl⟩ set with before | held
    · exact (blocked_cases before).imp_right Or.inl
    · exact Or.inr (Or.inr held)
  · exact (blocked_cases set).imp_right Or.inl

/-- Every edge of the graph is a request or a holding of the process of some slot. -/
theorem edge_cases {k : Kernel} {u v : Fin graphSize} (edge : Edge k.resourceGraph u v) :
    ∃ slot, k.Requests slot u v ∨ k.HeldBy slot u v := by
  -- The matrix starts without edges, and each round adds those of its slot.
  have added : ∀ (slots : List Slot) (adj : Adjacency graphSize),
      slots.foldl k.addRequests adj u v = true →
        adj u v = true ∨ ∃ slot, k.Requests slot u v ∨ k.HeldBy slot u v := by
    intro slots
    induction slots with
    | nil => exact fun adj set => Or.inl set
    | cons slot rest ih =>
      intro adj set
      rcases ih (k.addRequests adj slot) set with here | later
      · exact (addRequests_cases here).imp_right fun new => ⟨slot, new⟩
      · exact Or.inr later
  rcases added k.pcbs.slots _ edge with absent | found
  · cases absent
  · exact found

/-- A process with an edge to it is running and one with an edge from it is blocked. -/
theorem not_through_processNode (k : Kernel) (slot : Slot) :
    ¬ Digraph.Through (Edge k.resourceGraph) (processNode slot) := by
  rintro ⟨⟨before, into⟩, ⟨after, out⟩⟩
  -- A request ends at a resource, so an edge to a process says that it holds something.
  have running : looksRunning (k.pcb slot).state = true := by
    obtain ⟨other, ⟨-, -, resource⟩ | ⟨running, -, same⟩⟩ := edge_cases into
    · exact absurd resource (not_isResource_processNode slot)
    · rw [processNode_injective same]
      exact running
  -- A holding starts at a resource, so an edge from a process is a request of its own.
  have blocked : looksBlocked (k.pcb slot).state = true := by
    obtain ⟨other, ⟨blocked, same, -⟩ | ⟨-, resource, -⟩⟩ := edge_cases out
    · rw [processNode_injective same]
      exact blocked
    · exact absurd resource (not_isResource_processNode slot)
  rw [not_looksRunning_of_looksBlocked blocked] at running
  cases running

theorem not_edge_resources (k : Kernel) {u v : Fin graphSize} (resource : IsResource u)
    (resource' : IsResource v) : ¬ Edge k.resourceGraph u v := by
  intro edge
  obtain ⟨slot, ⟨-, rfl, -⟩ | ⟨-, -, rfl⟩⟩ := edge_cases edge
  · exact not_isResource_processNode slot resource
  · exact not_isResource_processNode slot resource'

/-- Only a resource can have an edge to it and one from it. -/
theorem isResource_of_through {k : Kernel} {u : Fin graphSize}
    (through : Digraph.Through (Edge k.resourceGraph) u) : IsResource u := by
  -- Below the resources, a node is that of the slot with its number.
  by_contra process
  exact k.not_through_processNode ⟨u.val, Nat.not_le.mp process⟩ through

theorem resourceGraph_acyclic (k : Kernel) (u : Fin graphSize) :
    ¬ TransGen (Edge k.resourceGraph) u u :=
  Digraph.acyclic_of_through_apart (fun _ _ through through' =>
    k.not_edge_resources (isResource_of_through through) (isResource_of_through through')) u

/-- On every process table the detector finds no cycle and logs nothing. -/
theorem neverFires (k : Kernel) : NeverFires k := by
  refine ⟨k.not_through_processNode, fun u v => k.not_edge_resources, k.resourceGraph_acyclic,
    fun depth enough => ?_⟩
  obtain ⟨result, returned, swept⟩ := search_swept k.resourceGraph enough
  cases swept with
  | found after tracked cycle bound full =>
    -- A search that has found something would have found a cycle.
    obtain ⟨u, cycle⟩ := cycle
    exact absurd cycle (k.resourceGraph_acyclic u)
  | finished after tracked clear stacked entered recorded done =>
    exact ⟨after, by simp [runDetection, returned], recorded⟩

end Kernel

end Nebula
