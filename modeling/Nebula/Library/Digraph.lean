import Mathlib.Data.Set.Insert
import Mathlib.Logic.Relation

/-! Cycles of a directed graph, and sets of nodes that no walk leaves. -/

namespace Digraph

open Relation

variable {α : Type*} {edge : α → α → Prop}

/-- No edge leads out of a set of nodes. -/
def Closed (edge : α → α → Prop) (nodes : Set α) : Prop :=
  ∀ u ∈ nodes, ∀ v, edge u v → v ∈ nodes

/-- No node of a set lies on a cycle. -/
def Acyclic (edge : α → α → Prop) (nodes : Set α) : Prop := ∀ u ∈ nodes, ¬ TransGen edge u u

/-- A node has an edge that leads to it and one that leads away from it. -/
def Through (edge : α → α → Prop) (u : α) : Prop := (∃ v, edge v u) ∧ ∃ v, edge u v

theorem closed_empty : Closed edge (∅ : Set α) := fun _ member => absurd member (Set.notMem_empty _)

theorem acyclic_empty : Acyclic edge (∅ : Set α) := fun _ member => absurd member (Set.notMem_empty _)

/-- A walk that starts in a closed set stays in it. -/
theorem Closed.reaches {nodes : Set α} (closed : Closed edge nodes) {u v : α}
    (walk : TransGen edge u v) (inside : u ∈ nodes) : v ∈ nodes := by
  -- Each further step of the walk starts inside, so it ends inside.
  induction walk with
  | single step => exact closed _ inside _ step
  | tail _ step ih => exact closed _ ih _ step

theorem Closed.insert {nodes : Set α} (closed : Closed edge nodes) {u : α}
    (leads : ∀ v, edge u v → v ∈ nodes) : Closed edge (insert u nodes) := by
  rintro first (rfl | inside) second step
  · exact Set.mem_insert_of_mem _ (leads second step)
  · exact Set.mem_insert_of_mem _ (closed first inside second step)

/-- A node whose edges all lead into a closed set that it is not in lies on no cycle. -/
theorem Acyclic.insert {nodes : Set α} (closed : Closed edge nodes) (acyclic : Acyclic edge nodes)
    {u : α} (outside : u ∉ nodes) (leads : ∀ v, edge u v → v ∈ nodes) :
    Acyclic edge (insert u nodes) := by
  rintro first (rfl | inside) cycle
  · -- The first step of the cycle enters the set, which the rest cannot leave.
    obtain ⟨next, step, walk⟩ := TransGen.head'_iff.mp cycle
    have entered := leads next step
    rcases reflTransGen_iff_eq_or_transGen.mp walk with rfl | onward
    · exact outside entered
    · exact outside (closed.reaches onward entered)
  · exact acyclic first inside cycle

/-- Every node of a cycle has an edge to it and one from it, so two such nodes are linked. -/
theorem acyclic_of_through_apart
    (apart : ∀ u v, Through edge u → Through edge v → ¬ edge u v) (u : α) :
    ¬ TransGen edge u u := by
  intro cycle
  obtain ⟨next, step, walk⟩ := TransGen.head'_iff.mp cycle
  obtain ⟨last, -, back⟩ := TransGen.tail'_iff.mp cycle
  have here : Through edge u := ⟨⟨last, back⟩, ⟨next, step⟩⟩
  refine apart u next here ⟨⟨u, step⟩, ?_⟩ step
  -- From the next node the cycle goes on, or it is the same node again.
  rcases reflTransGen_iff_eq_or_transGen.mp walk with rfl | onward
  · exact ⟨_, step⟩
  · obtain ⟨after, onwardStep, -⟩ := TransGen.head'_iff.mp onward
    exact ⟨after, onwardStep⟩

end Digraph
