import Mathlib.Data.Fintype.Card
import Mathlib.Data.List.FinRange
import Mathlib.Data.Fintype.EquivFin
import Mathlib.Data.Finset.Max
import Nebula.Kernel.State
import Nebula.Library.Digraph

/-! The depth-first search of the deadlock detector, on a matrix of any size. -/

namespace Nebula

open Relation

/-- GRAPH_SIZE: a node for each slot of the table and one for each of the three resources. -/
def graphSize : Nat := maxProcesses + 3

/-- adj, whose entries are only tested for zero. -/
abbrev Adjacency (n : Nat) := Fin n → Fin n → Bool

/-- The global arrays the search writes. -/
structure Marks (n : Nat) where
  visited : Fin n → Bool
  stack : Fin n → Bool
  /-- The cells of cycle that have been stored, of which there are at most GRAPH_SIZE. -/
  cycle : List (Fin n)
  /-- cycle_len, which counts a store past the end of cycle as well. -/
  cycleLen : Nat
  /-- The nodes dfs was called on, which the code does not record. -/
  entered : List (Fin n)

namespace Marks

variable {n : Nat}

/-- The arrays as run_detection clears them. -/
def blank (n : Nat) : Marks n := ⟨fun _ => false, fun _ => false, [], 0, []⟩

/-- The two assignments at the head of dfs. -/
def enter (marks : Marks n) (u : Fin n) : Marks n where
  visited := Function.update marks.visited u true
  stack := Function.update marks.stack u true
  cycle := marks.cycle
  cycleLen := marks.cycleLen
  entered := marks.entered ++ [u]

/-- The assignment at the end of dfs. -/
def leave (marks : Marks n) (u : Fin n) : Marks n :=
  { marks with stack := Function.update marks.stack u false }

/-- cycle[cycle_len++] = node; past the end of the array, nothing is said about what is stored. -/
def store (marks : Marks n) (node : Fin n) : Marks n :=
  { marks with
    cycle := if marks.cycleLen < graphSize then marks.cycle ++ [node] else marks.cycle
    cycleLen := marks.cycleLen + 1 }

/-- Some store went past the end of cycle, which C does not define. -/
def Overrun (marks : Marks n) : Prop := graphSize < marks.cycleLen

end Marks

variable {n : Nat} (adj : Adjacency n)

/-- The loop of dfs from a node over a number of others, with what it does to one not yet visited. -/
def dfsLoop (visit : Fin n → Marks n → Option (Bool × Marks n)) (u : Fin n) :
    List (Fin n) → Marks n → Option (Bool × Marks n)
  | [], marks => some (false, marks.leave u)
  | v :: rest, marks =>
    if adj u v then
      if !marks.visited v then
        match visit v marks with
        | none => none
        | some (true, marks) => some (true, marks.store u)
        | some (false, marks) => dfsLoop visit u rest marks
      else if marks.stack v then some (true, (marks.store v).store u)
      else dfsLoop visit u rest marks
    else dfsLoop visit u rest marks

/-- dfs, or nothing when the recursion goes deeper than a bound. -/
def dfs : Nat → Fin n → Marks n → Option (Bool × Marks n)
  | 0, _, _ => none
  | depth + 1, u, marks => dfsLoop adj (dfs depth) u (List.finRange n) (marks.enter u)

/-- The loop of run_detection over the roots, up to the first call that returns 1. -/
def rootLoop (depth : Nat) : List (Fin n) → Marks n → Option (Bool × Marks n)
  | [], marks => some (false, marks)
  | i :: rest, marks =>
    if !marks.visited i then
      match dfs adj depth i marks with
      | none => none
      | some (true, marks) => some (true, marks)
      | some (false, marks) => rootLoop depth rest marks
    else rootLoop depth rest marks

/-- The search from every node not yet visited, with the arrays cleared. -/
def search (depth : Nat) : Option (Bool × Marks n) :=
  rootLoop adj depth (List.finRange n) (Marks.blank n)

/-- An edge of the graph, as a relation. -/
def Edge (u v : Fin n) : Prop := adj u v = true

namespace Marks

/-- The nodes whose calls have returned. -/
def finished (marks : Marks n) : Set (Fin n) := {u | marks.visited u = true ∧ marks.stack u = false}

/-- The visited nodes are those that were entered, each once. -/
structure Tracked (marks : Marks n) : Prop where
  visited : ∀ u, marks.visited u = true ↔ u ∈ marks.entered
  once : marks.entered.Nodup

/-- No edge leads out of the finished nodes, and they are on no cycle. -/
structure Clear (marks : Marks n) : Prop where
  stacked : ∀ u, marks.stack u = true → marks.visited u = true
  closed : Digraph.Closed (Edge adj) marks.finished
  acyclic : Digraph.Acyclic (Edge adj) marks.finished

theorem tracked_blank : Tracked (blank n) := ⟨fun u => by simp [blank], List.nodup_nil⟩

theorem clear_blank : Clear adj (blank n) := by
  -- Nothing is visited yet, so nothing is finished.
  have nothing : (blank n).finished = ∅ := by
    ext u
    simp [finished, blank]
  refine ⟨fun u stacked => absurd stacked (by simp [blank]), ?_, ?_⟩
  · rw [nothing]
    exact Digraph.closed_empty
  · rw [nothing]
    exact Digraph.acyclic_empty

variable {adj}

/-- As long as a node is not visited, fewer than all have been entered. -/
theorem Tracked.length_lt {marks : Marks n} (tracked : Tracked marks) {u : Fin n}
    (fresh : marks.visited u = false) : marks.entered.length < n := by
  have absent : u ∉ marks.entered := by
    rw [← tracked.visited u, fresh]
    exact Bool.false_ne_true
  -- With this node, the ones entered are still different nodes.
  have bounded := (List.nodup_cons.mpr ⟨absent, tracked.once⟩).length_le_card
  rw [Fintype.card_fin] at bounded
  exact bounded

theorem Tracked.enter {marks : Marks n} (tracked : Tracked marks) {u : Fin n}
    (fresh : marks.visited u = false) : Tracked (marks.enter u) := by
  -- A node that has not been visited is not among the entered ones.
  have absent : u ∉ marks.entered := by
    rw [← tracked.visited u, fresh]
    exact Bool.false_ne_true
  constructor
  · intro v
    by_cases same : v = u
    · simp [Marks.enter, same]
    · simp [Marks.enter, same, tracked.visited]
  · exact List.nodup_append.mpr ⟨tracked.once, List.nodup_singleton u, fun v inside w last => by
      rw [List.mem_singleton.mp last]
      rintro rfl
      exact absent inside⟩

/-- A node on the stack is not finished, so entering it changes nothing for those that are. -/
theorem finished_enter {marks : Marks n} {u : Fin n} (fresh : marks.visited u = false) :
    (marks.enter u).finished = marks.finished := by
  ext v
  by_cases same : v = u
  · simp [finished, Marks.enter, same, fresh]
  · simp [finished, Marks.enter, same]

theorem Clear.enter {marks : Marks n} (clear : Clear adj marks) {u : Fin n}
    (fresh : marks.visited u = false) : Clear adj (marks.enter u) := by
  -- Entering a node finishes nothing, so the finished ones stay as they are.
  refine ⟨fun v stacked => ?_, ?_, ?_⟩
  · by_cases same : v = u
    · simp [Marks.enter, same]
    · simp only [Marks.enter, Function.update_of_ne same] at stacked ⊢
      exact clear.stacked v stacked
  · rw [finished_enter fresh]
    exact clear.closed
  · rw [finished_enter fresh]
    exact clear.acyclic

theorem finished_leave {marks : Marks n} {u : Fin n} (visited : marks.visited u = true) :
    (marks.leave u).finished = insert u marks.finished := by
  ext v
  by_cases same : v = u
  · simp [finished, Marks.leave, same, visited]
  · simp [finished, Marks.leave, same]

/-- A node whose successors are all finished is left with the finished ones still clear. -/
theorem Clear.leave {marks : Marks n} (clear : Clear adj marks) {u : Fin n}
    (stacked : marks.stack u = true) (done : ∀ v, Edge adj u v → v ∈ marks.finished) :
    Clear adj (marks.leave u) := by
  have visited := clear.stacked u stacked
  -- The node is on the stack, so it only becomes finished now.
  have outside : u ∉ marks.finished := by
    rintro ⟨-, off⟩
    rw [stacked] at off
    cases off
  refine ⟨fun v on => ?_, ?_, ?_⟩
  · by_cases same : v = u
    · simp [Marks.leave, same] at on
    · simp only [Marks.leave, Function.update_of_ne same] at on ⊢
      exact clear.stacked v on
  · rw [finished_leave visited]
    exact clear.closed.insert done
  · rw [finished_leave visited]
    exact clear.acyclic.insert clear.closed outside done

end Marks

/-- An edge to the first successor of a node, the one its loop comes to first. -/
def FirstEdge (u v : Fin n) : Prop := adj u v = true ∧ ∀ w < v, adj u w = false

/-- From a node each first successor is the next one of a path, and the last has a successor too. -/
structure Descends (u : Fin n) (path : List (Fin n)) : Prop where
  chain : (u :: path).IsChain (FirstEdge adj)
  once : (u :: path).Nodup
  ends : ∃ v, adj ((u :: path).getLast (List.cons_ne_nil _ _)) v = true

/-- A path of nodes not yet visited that takes all of them. -/
structure Takes (marks : Marks n) (path : List (Fin n)) : Prop where
  fresh : ∀ w ∈ path, marks.visited w = false
  all : path.length + marks.entered.length = n

/--
What a loop has stored when it comes back with a cycle.

The most it can store is a cell for each node that was left and two more, and that only if nothing was
finished and the first successors lead through all that was left.
-/
structure Stored (before : Marks n) (u : Fin n) (rest : List (Fin n)) (after : Marks n) : Prop where
  bound : after.cycleLen + before.entered.length ≤ before.cycleLen + n + 2
  full : after.cycleLen + before.entered.length = before.cycleLen + n + 2 →
    (∀ w, before.visited w = true → before.stack w = true) → (∀ w, w ∉ rest → adj u w = false) →
      ∃ path, Descends adj u path ∧ Takes before path

/--
The outcome of a search from a node that ends with a given stack.

It has found a cycle and stored so much, or it has finished the node and left the finished nodes clear.
-/
inductive Outcome (stack : Fin n → Bool) (before : Marks n) (stores : Marks n → Prop) (u : Fin n) :
    Bool × Marks n → Prop where
  | found (after : Marks n) (tracked : after.Tracked) (cycle : ∃ w, TransGen (Edge adj) w w)
      (stored : stores after) : Outcome stack before stores u (true, after)
  | finished (after : Marks n) (tracked : after.Tracked) (clear : after.Clear adj)
      (stacked : after.stack = stack) (entered : before.entered <+: after.entered)
      (recorded : after.cycle = before.cycle ∧ after.cycleLen = before.cycleLen) (done : u ∈ after.finished) :
      Outcome stack before stores u (false, after)

/-- What a call of dfs is for, given enough depth for the nodes that are left. -/
def Visits (visit : Fin n → Marks n → Option (Bool × Marks n)) (depth : Nat) : Prop :=
  ∀ u (marks : Marks n), n ≤ depth + marks.entered.length → marks.Tracked → marks.Clear adj →
    marks.visited u = false → (∀ w, marks.stack w = true → TransGen (Edge adj) w u) →
    ∃ result, visit u marks = some result ∧
      Outcome adj marks.stack marks (Stored adj (marks.enter u) u (List.finRange n)) u result

variable {adj}

namespace Marks

theorem Tracked.store {marks : Marks n} (tracked : Tracked marks) (node : Fin n) :
    Tracked (marks.store node) :=
  ⟨tracked.visited, tracked.once⟩

/-- A node that was not visited and is now has been entered in between. -/
theorem Tracked.length_lt_length {before after : Marks n} (tracked : Tracked before) (tracked' : Tracked after)
    (entered : before.entered <+: after.entered) {u : Fin n} (fresh : before.visited u = false)
    (visited : after.visited u = true) : before.entered.length < after.entered.length := by
  refine Nat.lt_of_le_of_ne entered.length_le fun same => ?_
  -- Otherwise nothing was entered, and the node was visited before.
  have inside := (tracked'.visited u).mp visited
  rw [← entered.eq_of_length same, ← tracked.visited u, fresh] at inside
  cases inside

/-- What was finished stays finished while the stack is the same. -/
theorem Tracked.finished_subset {before after : Marks n} (tracked : Tracked before)
    (tracked' : Tracked after) (entered : before.entered <+: after.entered)
    (stacked : after.stack = before.stack) : before.finished ⊆ after.finished := by
  rintro v ⟨visited, off⟩
  refine ⟨(tracked'.visited v).mpr (entered.subset ((tracked.visited v).mp visited)), ?_⟩
  rw [stacked]
  exact off

end Marks

/-- A search that starts where another has left off has the outcome of both. -/
theorem Outcome.after {stack : Fin n → Bool} {before middle : Marks n} {stores stores' : Marks n → Prop}
    {u : Fin n} {result : Bool × Marks n} (outcome : Outcome adj stack middle stores u result)
    (entered : before.entered <+: middle.entered)
    (recorded : middle.cycle = before.cycle ∧ middle.cycleLen = before.cycleLen)
    (stored : ∀ after, stores after → stores' after) : Outcome adj stack before stores' u result := by
  cases outcome with
  | found after tracked cycle stores => exact .found after tracked cycle (stored after stores)
  | finished after tracked clear stacked entered' recorded' done =>
    exact .finished after tracked clear stacked (entered.trans entered')
      ⟨recorded'.1.trans recorded.1, recorded'.2.trans recorded.2⟩ done

/-- Past a successor that is finished, or that is none, the others are still ahead or finished. -/
private theorem ahead_or_finished {u v : Fin n} {rest : List (Fin n)} {before after : Set (Fin n)}
    (left : ∀ w, Edge adj u w → w ∈ v :: rest ∨ w ∈ before) (done : Edge adj u v → v ∈ after)
    (kept : before ⊆ after) : ∀ w, Edge adj u w → w ∈ rest ∨ w ∈ after := by
  intro w step
  rcases left w step with ahead | already
  · rcases List.mem_cons.mp ahead with rfl | ahead
    · exact Or.inr (done step)
    · exact Or.inl ahead
  · exact Or.inr (kept already)

/-- Past a node that is no successor, the same is stored. -/
theorem Stored.skip {marks after : Marks n} {u v : Fin n} {rest : List (Fin n)} (step : adj u v = false)
    (stored : Stored adj marks u rest after) : Stored adj marks u (v :: rest) after := by
  refine ⟨stored.bound, fun equal stacked earlier => stored.full equal stacked fun w absent => ?_⟩
  by_cases same : w = v
  · rw [same, step]
  · exact earlier w fun inside => (List.mem_cons.mp inside).elim same absent

/-- A successor that closes the cycle is stored with the node it is the successor of. -/
theorem stored_closing {marks : Marks n} (tracked : marks.Tracked) {u v : Fin n} {rest : List (Fin n)}
    (step : adj u v = true) : Stored adj marks u (v :: rest) ((marks.store v).store u) := by
  have most := tracked.once.length_le_card
  rw [Fintype.card_fin] at most
  refine ⟨?_, fun equal _ _ => ?_⟩
  · simp only [Marks.store]
    omega
  · -- The whole of what can be stored is two cells if every node has been entered.
    simp only [Marks.store] at equal
    refine ⟨[], ⟨List.isChain_singleton u, List.nodup_singleton u, v, step⟩, ?_, ?_⟩
    · exact fun w inside => absurd inside List.not_mem_nil
    · rw [List.length_nil]
      omega

/-- On the way back from a successor the node is stored behind what that has stored. -/
theorem stored_back {marks after : Marks n} {u v : Fin n} {rest : List (Fin n)}
    (on : marks.visited u = true) (fresh : marks.visited v = false) (step : adj u v = true)
    (split : ∀ w < v, w ∉ v :: rest)
    (stored : Stored adj (marks.enter v) v (List.finRange n) after) :
    Stored adj marks u (v :: rest) (after.store u) := by
  have bound := stored.bound
  simp only [Marks.enter, List.length_append, List.length_singleton] at bound
  refine ⟨?_, fun equal stacked earlier => ?_⟩
  · simp only [Marks.store]
    omega
  · -- What the successor has stored is then the most it can store, and it is the first successor.
    obtain ⟨path, descends, takes⟩ := stored.full
      (by
        simp only [Marks.store] at equal
        simp only [Marks.enter, List.length_append, List.length_singleton]
        omega)
      (fun w visited => by
        by_cases same : w = v
        · simp [Marks.enter, same]
        · simp only [Marks.enter, Function.update_of_ne same] at visited ⊢
          exact stacked w visited)
      (fun w absent => absurd (List.mem_finRange w) absent)
    have unvisited : ∀ w ∈ v :: path, marks.visited w = false := by
      intro w inside
      rcases List.mem_cons.mp inside with rfl | inside
      · exact fresh
      · have kept := takes.fresh w inside
        by_cases same : w = v
        · rw [same, fresh]
        · simpa only [Marks.enter, Function.update_of_ne same] using kept
    refine ⟨v :: path, ⟨?_, ?_, ?_⟩, unvisited, ?_⟩
    · exact List.isChain_cons_cons.mpr ⟨⟨step, fun w below => earlier w (split w below)⟩, descends.chain⟩
    · refine List.nodup_cons.mpr ⟨fun inside => ?_, descends.once⟩
      have := unvisited u inside
      rw [on] at this
      cases this
    · rw [List.getLast_cons (List.cons_ne_nil _ _)]
      exact descends.ends
    · have counted := takes.all
      simp only [Marks.enter, List.length_append, List.length_singleton] at counted
      rw [List.length_cons]
      omega

/--
The loop finds a cycle or finishes its node.

The nodes on the stack all lead to that node, and its successors are still ahead or finished.
-/
theorem dfsLoop_outcome {visit : Fin n → Marks n → Option (Bool × Marks n)} {depth : Nat}
    (visits : Visits adj visit depth) {u : Fin n} (rest : List (Fin n)) {marks : Marks n}
    (sorted : rest.Pairwise (· < ·))
    (enough : n ≤ depth + marks.entered.length) (tracked : marks.Tracked) (clear : marks.Clear adj)
    (on : marks.stack u = true) (path : ∀ w, marks.stack w = true → ReflTransGen (Edge adj) w u)
    (left : ∀ v, Edge adj u v → v ∈ rest ∨ v ∈ marks.finished) :
    ∃ result, dfsLoop adj visit u rest marks = some result ∧
      Outcome adj (Function.update marks.stack u false) marks (Stored adj marks u rest) u result := by
  -- The induction is on the successors still to come, and each round passes its marks to the next.
  induction rest generalizing marks with
  | nil =>
    -- None is ahead any more, so all of them are finished.
    have done : ∀ v, Edge adj u v → v ∈ marks.finished := fun v step =>
      (left v step).resolve_left List.not_mem_nil
    refine ⟨_, rfl, .finished _ ⟨tracked.visited, tracked.once⟩ (clear.leave on done) rfl
      (List.prefix_refl _) ⟨rfl, rfl⟩ ?_⟩
    rw [Marks.finished_leave (clear.stacked u on)]
    exact Set.mem_insert u _
  | cons v rest ih =>
    obtain ⟨above, sorted⟩ := List.pairwise_cons.mp sorted
    by_cases step : adj u v = true
    · cases visited : marks.visited v with
      | false =>
        -- The call on the successor finds a cycle, or adds it to the finished nodes.
        obtain ⟨result, called, outcome⟩ := visits v marks enough tracked clear visited
          fun w stacked => TransGen.tail' (path w stacked) step
        cases outcome with
        | found after tracked' cycle stored =>
          have split : ∀ w < v, w ∉ v :: rest := fun w below inside =>
            (List.mem_cons.mp inside).elim (fun same => absurd (same ▸ below) (lt_irrefl _))
              fun inside => absurd (above w inside) (lt_asymm below)
          refine ⟨(true, after.store u), ?_, .found _ (tracked'.store u) cycle
            (stored_back (clear.stacked u on) visited step split stored)⟩
          simp [dfsLoop, step, visited, called]
        | finished after tracked' clear' stacked entered recorded done =>
          have longer := tracked.length_lt_length tracked' entered visited done.1
          obtain ⟨result, looped, outcome⟩ := ih sorted (by omega) tracked' clear'
            (by rw [stacked]; exact on) (by rw [stacked]; exact path)
            (ahead_or_finished left (fun _ => done)
              (tracked.finished_subset tracked' entered stacked))
          rw [stacked] at outcome
          -- The call has entered nodes that can be stored no more.
          refine ⟨result, ?_, outcome.after entered recorded fun last stored => ?_⟩
          · simp [dfsLoop, step, visited, called, looped]
          · have bound := stored.bound
            have same := recorded.2
            exact ⟨by omega, fun equal => by omega⟩
      | true =>
        cases stacked : marks.stack v with
        | true =>
          -- The successor leads back to the node, so the edge closes a cycle.
          refine ⟨(true, (marks.store v).store u), ?_, .found _ ((tracked.store v).store u)
            ⟨v, TransGen.tail' (path v stacked) step⟩ (stored_closing tracked step)⟩
          simp [dfsLoop, step, visited, stacked]
        | false =>
          -- The call on the successor has returned before, which makes it finished.
          obtain ⟨result, looped, outcome⟩ := ih sorted enough tracked clear on path
            (ahead_or_finished left (fun _ => ⟨visited, stacked⟩) (Set.Subset.refl _))
          refine ⟨result, ?_, outcome.after (List.prefix_refl _) ⟨rfl, rfl⟩ fun last stored =>
            ⟨stored.bound, fun _ unfinished _ => ?_⟩⟩
          · simp [dfsLoop, step, visited, stacked, looped]
          · have := unfinished v visited
            rw [stacked] at this
            cases this
    -- A node that is no successor is passed over.
    · obtain ⟨result, looped, outcome⟩ := ih sorted enough tracked clear on path
        (ahead_or_finished left (fun edge => absurd edge step) (Set.Subset.refl _))
      refine ⟨result, ?_, outcome.after (List.prefix_refl _) ⟨rfl, rfl⟩ fun last stored =>
        stored.skip (by simpa using step)⟩
      simp [dfsLoop, step, looped]

/-- A call with enough depth for the nodes not yet entered returns, and does what it is for. -/
theorem dfs_visits (adj : Adjacency n) (depth : Nat) : Visits adj (dfs adj depth) depth := by
  -- Every level of the recursion enters a node, so the depth and the nodes left go down together.
  induction depth with
  | zero =>
    -- A node that is not visited leaves some depth.
    intro u marks enough tracked _ fresh
    have := tracked.length_lt fresh
    omega
  | succ depth ih =>
    intro u marks enough tracked clear fresh path
    have off : marks.stack u = false := by
      by_contra on
      rw [clear.stacked u (by simpa using on)] at fresh
      cases fresh
    obtain ⟨result, looped, outcome⟩ := dfsLoop_outcome ih (List.finRange n)
      (List.pairwise_lt_finRange n)
      (by simp only [Marks.enter, List.length_append, List.length_singleton]; omega)
      (tracked.enter fresh) (clear.enter fresh) (u := u) (by simp [Marks.enter])
      (by
        intro w stacked
        by_cases same : w = u
        · rw [same]
        · simp only [Marks.enter, Function.update_of_ne same] at stacked
          exact (path w stacked).to_reflTransGen)
      (fun v _ => Or.inl (List.mem_finRange v))
    -- Leaving the node gives back the stack on which it was called.
    have restored : Function.update (marks.enter u).stack u false = marks.stack := by
      simp [Marks.enter, ← off]
    rw [restored] at outcome
    exact ⟨result, looped, outcome.after (List.prefix_append _ _) ⟨rfl, rfl⟩ fun _ stored => stored⟩

variable (adj) in
/--
The outcome of the loop over the roots: a cycle, or every root finished without one.

The most that is stored is a cell for each node that was left and one more, and that only if the first
root leads through all of them.
-/
inductive Swept (before : Marks n) (roots : List (Fin n)) : Bool × Marks n → Prop where
  | found (after : Marks n) (tracked : after.Tracked) (cycle : ∃ w, TransGen (Edge adj) w w)
      (bound : after.cycleLen + before.entered.length ≤ before.cycleLen + n + 1)
      (full : after.cycleLen + before.entered.length = before.cycleLen + n + 1 →
        before.entered = [] → ∃ i rest path, roots = i :: rest ∧ Descends adj i path ∧ path.length + 1 = n) :
      Swept before roots (true, after)
  | finished (after : Marks n) (tracked : after.Tracked) (clear : after.Clear adj)
      (stacked : after.stack = before.stack) (entered : before.entered <+: after.entered)
      (recorded : after.cycle = before.cycle ∧ after.cycleLen = before.cycleLen)
      (done : ∀ i ∈ roots, i ∈ after.finished) : Swept before roots (false, after)

/-- A loop over the roots that starts where another root was finished has finished that one too. -/
theorem Swept.after {before middle : Marks n} {i : Fin n} {rest : List (Fin n)}
    {result : Bool × Marks n} (swept : Swept adj middle rest result) (tracked : middle.Tracked)
    (stacked : middle.stack = before.stack) (entered : before.entered <+: middle.entered)
    (recorded : middle.cycle = before.cycle ∧ middle.cycleLen = before.cycleLen) (done : i ∈ middle.finished) :
    Swept adj before (i :: rest) result := by
  cases swept with
  | found after tracked' cycle bound _ =>
    have longer := entered.length_le
    -- A node was entered before this root, and what it could have stored is missing.
    have some : 0 < middle.entered.length := List.length_pos_of_mem ((tracked.visited i).mp done.1)
    have same := recorded.2
    refine .found after tracked' cycle (by omega) fun equal nobody => ?_
    rw [nobody, List.length_nil] at equal
    omega
  | finished after tracked' clear stacked' entered' recorded' done' =>
    have kept := tracked.finished_subset tracked' entered' stacked'
    exact .finished after tracked' clear (stacked'.trans stacked) (entered.trans entered')
      ⟨recorded'.1.trans recorded.1, recorded'.2.trans recorded.2⟩
      (List.forall_mem_cons.mpr ⟨kept done, done'⟩)

/-- With enough depth for all nodes, the loop over the roots returns. -/
theorem rootLoop_swept {depth : Nat} (enough : n ≤ depth) (roots : List (Fin n)) {marks : Marks n}
    (tracked : marks.Tracked) (clear : marks.Clear adj) (idle : ∀ w, marks.stack w = false) :
    ∃ result, rootLoop adj depth roots marks = some result ∧ Swept adj marks roots result := by
  induction roots generalizing marks with
  | nil =>
    exact ⟨_, rfl, .finished marks tracked clear rfl (List.prefix_refl _) ⟨rfl, rfl⟩ fun _ member =>
      absurd member List.not_mem_nil⟩
  | cons i rest ih =>
    cases visited : marks.visited i with
    | true =>
      obtain ⟨result, looped, swept⟩ := ih tracked clear idle
      refine ⟨result, by simp [rootLoop, visited, looped], ?_⟩
      exact swept.after tracked rfl (List.prefix_refl _) ⟨rfl, rfl⟩ ⟨visited, idle i⟩
    | false =>
      -- Nothing is on the stack between two calls from the roots.
      obtain ⟨result, called, outcome⟩ := dfs_visits adj depth i marks (by omega) tracked clear
        visited fun w stacked => by
          rw [idle w] at stacked
          cases stacked
      cases outcome with
      | found after tracked' cycle stored =>
        refine ⟨(true, after), by simp [rootLoop, visited, called], .found after tracked' cycle ?_ ?_⟩
        · have bound := stored.bound
          simp only [Marks.enter, List.length_append, List.length_singleton] at bound
          omega
        · intro equal nobody
          -- Nobody was entered before, so nobody but this root is visited and it is on the stack.
          have alone : ∀ w, (marks.enter i).visited w = true → (marks.enter i).stack w = true := by
            intro w seen
            by_cases same : w = i
            · simp [Marks.enter, same]
            · simp only [Marks.enter, Function.update_of_ne same] at seen
              have inside := (tracked.visited w).mp seen
              rw [nobody] at inside
              exact absurd inside List.not_mem_nil
          obtain ⟨path, descends, takes⟩ := stored.full
            (by simp only [Marks.enter, List.length_append, List.length_singleton]; omega) alone
            fun w absent => absurd (List.mem_finRange w) absent
          have counted := takes.all
          simp only [Marks.enter, nobody, List.nil_append, List.length_singleton] at counted
          exact ⟨i, rest, path, rfl, descends, counted⟩
      | finished after tracked' clear' stacked entered recorded done =>
        obtain ⟨result, looped, swept⟩ := ih tracked' clear' (by rw [stacked]; exact idle)
        refine ⟨result, by simp [rootLoop, visited, called, looped], ?_⟩
        exact swept.after tracked' stacked entered recorded done

/-- With enough depth the search returns, having found a cycle or finished every node. -/
theorem search_swept (adj : Adjacency n) {depth : Nat} (enough : n ≤ depth) :
    ∃ result, search adj depth = some result ∧
      Swept adj (Marks.blank n) (List.finRange n) result :=
  rootLoop_swept enough (List.finRange n) Marks.tracked_blank (Marks.clear_blank adj) fun _ => rfl

/-- The answer of a search is whether the graph has a cycle. -/
theorem Swept.found_iff {before : Marks n} {result : Bool × Marks n}
    (swept : Swept adj before (List.finRange n) result) :
    result.1 = true ↔ ∃ u, TransGen (Edge adj) u u := by
  cases swept with
  | found after tracked cycle bound full => exact ⟨fun _ => cycle, fun _ => rfl⟩
  | finished after tracked clear stacked entered recorded done =>
    -- Every node is finished, and no finished one is on a cycle.
    constructor
    · intro answer
      cases answer
    · rintro ⟨u, cycle⟩
      exact absurd cycle (clear.acyclic u (done u (List.mem_finRange u)))

theorem Swept.tracked {before : Marks n} {roots : List (Fin n)} {result : Bool × Marks n}
    (swept : Swept adj before roots result) : result.2.Tracked := by
  cases swept with
  | found after tracked cycle bound full => exact tracked
  | finished after tracked clear stacked entered recorded done => exact tracked

/-- A loop that returns does the same with calls that return wherever these did. -/
private theorem dfsLoop_mono {visit visit' : Fin n → Marks n → Option (Bool × Marks n)}
    (more : ∀ v marks result, visit v marks = some result → visit' v marks = some result)
    {u : Fin n} (rest : List (Fin n)) {marks : Marks n} {result : Bool × Marks n}
    (returned : dfsLoop adj visit u rest marks = some result) :
    dfsLoop adj visit' u rest marks = some result := by
  induction rest generalizing marks with
  | nil => exact returned
  | cons v rest ih =>
    by_cases step : adj u v = true
    · cases visited : marks.visited v with
      | false =>
        simp only [dfsLoop, step, visited, Bool.not_false, ↓reduceIte] at returned ⊢
        -- The call on the successor has returned, and so it does with the other visit.
        cases called : visit v marks with
        | none => simp [called] at returned
        | some answer =>
          rw [more v marks answer called]
          rw [called] at returned
          obtain ⟨found, after⟩ := answer
          cases found with
          | true => exact returned
          | false => exact ih returned
      | true =>
        simp only [dfsLoop, step, visited, Bool.not_true, Bool.false_eq_true, ↓reduceIte] at returned ⊢
        cases stacked : marks.stack v with
        | true =>
          simp only [stacked, ↓reduceIte] at returned ⊢
          exact returned
        | false =>
          simp only [stacked, Bool.false_eq_true, ↓reduceIte] at returned ⊢
          exact ih returned
    · simp only [dfsLoop, step, Bool.false_eq_true, ↓reduceIte] at returned ⊢
      exact ih returned

/-- A call that returns does the same with more depth. -/
theorem dfs_mono {depth deeper : Nat} (more : depth ≤ deeper) {u : Fin n} {marks : Marks n}
    {result : Bool × Marks n} (returned : dfs adj depth u marks = some result) :
    dfs adj deeper u marks = some result := by
  induction depth generalizing deeper u marks result with
  | zero => cases returned
  | succ depth ih =>
    -- The calls from this one are a level down on both sides.
    obtain ⟨left, rfl⟩ := Nat.exists_eq_succ_of_ne_zero (Nat.ne_of_gt (Nat.lt_of_lt_of_le
      (Nat.succ_pos depth) more))
    exact dfsLoop_mono (fun _ _ _ called => ih (Nat.le_of_succ_le_succ more) called) _ returned

theorem rootLoop_mono {depth deeper : Nat} (more : depth ≤ deeper) (roots : List (Fin n))
    {marks : Marks n} {result : Bool × Marks n}
    (returned : rootLoop adj depth roots marks = some result) :
    rootLoop adj deeper roots marks = some result := by
  -- A search that returned returns the same from deeper down, so the loop takes the same branches.
  induction roots generalizing marks with
  | nil => exact returned
  | cons i rest ih =>
    cases visited : marks.visited i with
    | true =>
      simp only [rootLoop, visited, Bool.not_true, Bool.false_eq_true, ↓reduceIte] at returned ⊢
      exact ih returned
    | false =>
      simp only [rootLoop, visited, Bool.not_false, ↓reduceIte] at returned ⊢
      cases called : dfs adj depth i marks with
      | none => simp [called] at returned
      | some answer =>
        rw [dfs_mono more called]
        rw [called] at returned
        obtain ⟨found, after⟩ := answer
        cases found with
        | true => exact returned
        | false => exact ih returned

/-- The search returns at a depth of as many calls as there are nodes, and the same from there on. -/
theorem search_returns (adj : Adjacency n) :
    ∃ result, (∀ depth, n ≤ depth → search adj depth = some result) ∧
      Swept adj (Marks.blank n) (List.finRange n) result := by
  -- What the search does with just enough depth, it does with any depth beyond.
  obtain ⟨result, returned, swept⟩ := search_swept adj (Nat.le_refl n)
  exact ⟨result, fun depth enough => rootLoop_mono enough _ returned, swept⟩

/-- The loop of a node passes over the others and comes to the first successor. -/
theorem dfsLoop_first {visit : Fin n → Marks n → Option (Bool × Marks n)} {u v : Fin n}
    (first : FirstEdge adj u v) (marks : Marks n) :
    ∃ rest, dfsLoop adj visit u (List.finRange n) marks = dfsLoop adj visit u (v :: rest) marks := by
  obtain ⟨before, rest, split⟩ := List.append_of_mem (List.mem_finRange v)
  have sorted := List.pairwise_lt_finRange n
  rw [split] at sorted
  have below : ∀ w ∈ before, adj u w = false := fun w inside =>
    first.2 w ((List.pairwise_append.mp sorted).2.2 w inside v List.mem_cons_self)
  refine ⟨rest, ?_⟩
  rw [split]
  clear split sorted
  induction before with
  | nil => rfl
  | cons w before ih =>
    rw [List.cons_append, dfsLoop, if_neg (by simp [below w List.mem_cons_self])]
    exact ih fun w inside => below w (List.mem_cons_of_mem _ inside)

/-- A node with a successor has a first one. -/
theorem exists_firstEdge {u v : Fin n} (step : adj u v = true) : ∃ w, FirstEdge adj u w := by
  have some : (Finset.univ.filter fun w => adj u w = true).Nonempty := ⟨v, by simp [step]⟩
  refine ⟨_, (Finset.mem_filter.mp (Finset.min'_mem _ some)).2, fun w below => ?_⟩
  by_contra edge
  exact absurd (Finset.min'_le _ w (by simpa using edge)) (not_le_of_gt below)

/--
The search goes down a path of first successors, if everything else is on the stack.

The last node of the path closes the cycle with two cells, and each node above adds one.
-/
theorem dfs_descends {depth : Nat} {u : Fin n} {path : List (Fin n)} {marks : Marks n}
    (descends : Descends adj u path) (fresh : ∀ w ∈ u :: path, marks.visited w = false)
    (others : ∀ w, w ∉ u :: path → marks.visited w = true ∧ marks.stack w = true)
    (enough : path.length < depth) :
    ∃ after, dfs adj depth u marks = some (true, after) ∧
      after.cycleLen = marks.cycleLen + path.length + 2 := by
  induction path generalizing depth u marks with
  | nil =>
    obtain ⟨depth, rfl⟩ := Nat.exists_eq_succ_of_ne_zero (Nat.ne_of_gt enough)
    obtain ⟨v, step⟩ : ∃ v, adj u v = true := descends.ends
    obtain ⟨w, first⟩ := exists_firstEdge step
    obtain ⟨rest, looped⟩ := @dfsLoop_first _ _ (dfs adj depth) u w first (marks.enter u)
    have on : (marks.enter u).visited w = true ∧ (marks.enter u).stack w = true := by
      by_cases same : w = u
      · simp [Marks.enter, same]
      · simp only [Marks.enter, Function.update_of_ne same]
        exact others w (by simpa using same)
    refine ⟨(((marks.enter u).store w).store u), ?_, ?_⟩
    · rw [dfs, looped, dfsLoop, if_pos first.1, on.1, on.2]
      rfl
    · rfl
  | cons v path ih =>
    obtain ⟨depth, rfl⟩ := Nat.exists_eq_succ_of_ne_zero (Nat.ne_of_gt (Nat.lt_of_le_of_lt (Nat.zero_le _) enough))
    obtain ⟨first, chain⟩ := List.isChain_cons_cons.mp descends.chain
    obtain ⟨apart, once⟩ := List.nodup_cons.mp descends.once
    obtain ⟨rest, looped⟩ := @dfsLoop_first _ _ (dfs adj depth) u v first (marks.enter u)
    have ends := descends.ends
    rw [List.getLast_cons (List.cons_ne_nil _ _)] at ends
    -- The next node is left to its own call, for which this one is on the stack as well.
    have unvisited : ∀ w ∈ v :: path, (marks.enter u).visited w = false := by
      intro w inside
      have other : w ≠ u := fun same => apart (same ▸ inside)
      simp only [Marks.enter, Function.update_of_ne other]
      exact fresh w (List.mem_cons_of_mem _ inside)
    obtain ⟨after, called, counted⟩ := @ih depth v (marks.enter u) ⟨chain, once, ends⟩ unvisited
      (fun w absent => by
        by_cases same : w = u
        · simp [Marks.enter, same]
        · simp only [Marks.enter, Function.update_of_ne same]
          exact others w fun inside => (List.mem_cons.mp inside).elim same absent)
      (Nat.lt_of_succ_lt_succ enough)
    refine ⟨after.store u, ?_, ?_⟩
    · rw [dfs, looped, dfsLoop, if_pos first.1, unvisited v List.mem_cons_self]
      simp only [Bool.not_false, ↓reduceIte, called]
    · simp only [Marks.store, counted, Marks.enter, List.length_cons]
      omega

/-- From node 0, the first successors lead through all nodes, and the last has a successor too. -/
def Overlong (adj : Adjacency n) : Prop :=
  ∃ u path, u.val = 0 ∧ Descends adj u path ∧ path.length + 1 = n

/-- The search stores more cells than there are nodes exactly if the first successors lead through all of them. -/
theorem Swept.lt_cycleLen_iff {result : Bool × Marks n}
    (returned : search adj n = some result)
    (swept : Swept adj (Marks.blank n) (List.finRange n) result) :
    result.2.cycleLen ≤ n + 1 ∧ (n < result.2.cycleLen ↔ Overlong adj) := by
  have upper : result.2.cycleLen ≤ n + 1 ∧ (n < result.2.cycleLen → Overlong adj) := by
    cases swept with
    | found after tracked cycle bound full =>
      have most : after.cycleLen ≤ n + 1 := by simpa [Marks.blank] using bound
      refine ⟨most, fun more : n < after.cycleLen => ?_⟩
      have equal : after.cycleLen = n + 1 := by omega
      obtain ⟨i, rest, path, roots, descends, counted⟩ := full (by simp [Marks.blank, equal]) rfl
      -- The first root is the first of all nodes.
      obtain ⟨smaller, rfl⟩ : ∃ smaller, n = smaller + 1 := ⟨path.length, counted.symm⟩
      rw [List.finRange_succ, List.cons.injEq] at roots
      exact ⟨i, path, by rw [← roots.1]; rfl, descends, counted⟩
    | finished after tracked clear stacked entered recorded done =>
      have none : after.cycleLen = 0 := recorded.2
      dsimp only
      exact ⟨by omega, fun more => by omega⟩
  refine ⟨upper.1, upper.2, ?_⟩
  rintro ⟨u, path, zero, descends, counted⟩
  obtain ⟨smaller, rfl⟩ : ∃ smaller, n = smaller + 1 := ⟨path.length, counted.symm⟩
  obtain rfl : u = 0 := Fin.ext zero
  -- A path of as many different nodes as there are misses none.
  have all : ∀ w, w ∈ (0 : Fin (smaller + 1)) :: path := by
    intro w
    by_contra absent
    have longer := (List.nodup_cons.mpr ⟨absent, descends.once⟩).length_le_card
    rw [Fintype.card_fin, List.length_cons, List.length_cons] at longer
    omega
  obtain ⟨after, called, stored⟩ := @dfs_descends _ adj (smaller + 1) _ _ (Marks.blank _) descends
    (fun w _ => rfl) (fun w absent => absurd (all w) absent) (by omega)
  rw [search, List.finRange_succ, rootLoop, if_pos (by rfl), called] at returned
  obtain rfl := Option.some.inj returned
  rw [stored]
  simp only [Marks.blank]
  omega

/--
The search answers whether there is a cycle.

It returns at a depth of as many calls as there are nodes, with the same result at any other depth
from there on, and it enters no node twice.
-/
def AnswersCycles (adj : Adjacency n) : Prop :=
  ∃ found marks, (∀ depth, n ≤ depth → search adj depth = some (found, marks)) ∧ marks.entered.Nodup ∧
    (found = true ↔ ∃ u, TransGen (Edge adj) u u)

/-- The search is a sound and complete test for cycles, which stores nothing past the end of its array. -/
def FindsCycles (adj : Adjacency n) : Prop :=
  ∃ found marks, (∀ depth, n ≤ depth → search adj depth = some (found, marks)) ∧ ¬ marks.Overrun ∧
    marks.entered.Nodup ∧ (found = true ↔ ∃ u, TransGen (Edge adj) u u)

/-- Whatever the search stores, it answers, and where adj has room the stores past the end are exactly known. -/
theorem search_overruns (adj : Adjacency n) :
    ∃ found marks, (∀ depth, n ≤ depth → search adj depth = some (found, marks)) ∧
      (n ≤ graphSize → (marks.Overrun ↔ n = graphSize ∧ Overlong adj)) ∧ marks.entered.Nodup ∧
      (found = true ↔ ∃ u, TransGen (Edge adj) u u) := by
  obtain ⟨⟨found, marks⟩, returned, swept⟩ := search_returns adj
  obtain ⟨bound, longer⟩ := swept.lt_cycleLen_iff (returned n (Nat.le_refl n))
  refine ⟨found, marks, returned, fun size => ?_, swept.tracked.once, swept.found_iff⟩
  -- A graph with fewer nodes than cycle has cells leaves one for the second node of the closing edge.
  rw [← longer, Marks.Overrun]
  dsimp only at bound ⊢
  omega

/-- The search has one result only, so that one stores nothing past the end of cycle. -/
theorem FindsCycles.not_overrun (finds : FindsCycles adj) {found : Bool} {marks : Marks n}
    (returned : search adj n = some (found, marks)) : ¬ marks.Overrun := by
  obtain ⟨_, _, same, inside, -, -⟩ := finds
  have unique := (same n (Nat.le_refl n)).symm.trans returned
  cases unique
  exact inside

/-- The ring in which every node has the next one for its successor. -/
def ring (n : Nat) : Adjacency n := fun u v => v.val == (u.val + 1) % n

/--
On a matrix of any size the search answers whether there is a cycle; where the matrix fits into adj, it does
so within its array exactly if it is not of the full size with first successors that lead from node 0 through
all nodes.
-/
theorem search_finds_cycles_iff {n : Nat} (adj : Adjacency n) :
    AnswersCycles adj ∧ (n ≤ graphSize → (FindsCycles adj ↔ ¬ (n = graphSize ∧ Overlong adj))) := by
  obtain ⟨found, marks, returned, overruns, once, answer⟩ := search_overruns adj
  refine ⟨⟨found, marks, returned, once, answer⟩, fun size => ?_⟩
  rw [← overruns size]
  exact ⟨fun finds => finds.not_overrun (returned n (Nat.le_refl n)),
    fun inside => ⟨found, marks, returned, inside, once, answer⟩⟩

/-- A ring of three nodes is found, with four cells of cycle. -/
theorem search_finds_cycles_iff_ring : FindsCycles (ring 3) :=
  ((search_finds_cycles_iff (ring 3)).2 (by decide)).mpr fun both => absurd both.1 (by decide)

/-- In a ring, the first successors lead from node 0 through all nodes and back. -/
theorem overlong_ring (n : Nat) : Overlong (ring (n + 1)) := by
  have next : ∀ u v : Fin (n + 1), v.val = u.val + 1 → FirstEdge (ring (n + 1)) u v := by
    intro u v above
    have wraps : (u.val + 1) % (n + 1) = u.val + 1 := Nat.mod_eq_of_lt (above ▸ v.isLt)
    refine ⟨by simp [ring, wraps, above], fun w below => ?_⟩
    have : w.val ≠ u.val + 1 := by
      have := Fin.lt_def.mp below
      omega
    simp [ring, wraps, this]
  refine ⟨0, (List.finRange n).map Fin.succ, rfl, ⟨?_, ?_, ?_⟩, by simp⟩
  · rw [← List.finRange_succ, List.isChain_iff_getElem]
    intro i inside
    exact next _ _ (by simp)
  · rw [← List.finRange_succ]
    exact List.nodup_finRange _
  · refine ⟨0, ?_⟩
    simp only [← List.finRange_succ, ring, List.getLast_eq_getElem]
    simp

/-- A ring of GRAPH_SIZE nodes is found with a store past the end of cycle. -/
theorem full_ring_overruns : ¬ FindsCycles (ring graphSize) := by
  intro finds
  obtain ⟨found, marks, returned, overruns, -⟩ := search_overruns (ring graphSize)
  exact finds.not_overrun (returned _ (Nat.le_refl _))
    ((overruns (Nat.le_refl _)).mpr ⟨rfl, overlong_ring (maxProcesses + 2)⟩)

end Nebula
