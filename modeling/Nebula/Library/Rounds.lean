import Nebula.Library.Machine

/-! Runs that go on in rounds, where some take a turn in each and every move that is made shortens what is left. -/

namespace Machine

variable {State Action View : Type*} {step : State → Action → State} {inv : State → Prop}
  {meets : State → Action → Prop} {view : State → View} {left : View → Nat}

/-- An action has its turn where the view is a certain one, and does not change it. -/
def Stalls (step : State → Action → State) (inv : State → Prop) (meets : State → Action → Prop)
    (view : State → View) (seen : View) (action : Action) : Prop :=
  ∃ state, inv state ∧ meets state action ∧ view state = seen ∧ view (step state action) = seen

/--
Steps that meet a condition keep an invariant, and each of them leaves the view alone or shortens
what is left.
-/
structure Shortens (step : State → Action → State) (inv : State → Prop) (meets : State → Action → Prop)
    (view : State → View) (left : View → Nat) : Prop where
  kept : ∀ state action, inv state → meets state action → inv (step state action)
  moves : ∀ state action, inv state → meets state action →
    view (step state action) = view state ∨ left (view (step state action)) < left (view state)

namespace Shortens

variable (shortens : Shortens step inv meets view left)

include shortens

/-- A run shortens what is left, or the view stays what it is and all who have a turn stall there. -/
theorem run_stalls {start : State} (initial : inv start) {actions : List Action}
    (met : EachStep step meets start actions) :
    left (view (run step start actions)) < left (view start) ∨
    (view (run step start actions) = view start ∧
      ∀ action ∈ actions, Stalls step inv meets view (view start) action) := by
  induction actions generalizing start with
  | nil => exact Or.inr ⟨rfl, fun action member => absurd member List.not_mem_nil⟩
  | cons first rest ih =>
    have later := ih (shortens.kept start first initial met.1) met.2
    rw [run_cons]
    rcases shortens.moves start first initial met.1 with same | less
    · -- The first stalls, so the rest of the run starts from the same view.
      rw [same] at later
      rcases later with less | ⟨kept, stalled⟩
      · exact Or.inl less
      · refine Or.inr ⟨kept, ?_⟩
        intro action member
        rcases List.mem_cons.mp member with rfl | inside
        · exact ⟨start, initial, met.1, rfl, same⟩
        · exact stalled action inside
    · -- What the first has gained the rest does not lose again.
      rcases later with further | ⟨kept, -⟩
      · exact Or.inl (Nat.lt_trans further less)
      · rw [kept]
        exact Or.inl less

/--
Where nobody is done in whose view all stall who have a turn in every round, a run is done after as
many rounds as were left.
-/
theorem run_rounds {turns : List Action} {done : View → Prop}
    (stuck : ∀ seen, (∀ action ∈ turns, Stalls step inv meets view seen action) → done seen)
    (nothing : ∀ seen, left seen = 0 → done seen)
    (stays : ∀ state action, inv state → meets state action → done (view state) →
      done (view (step state action)))
    {start : State} (initial : inv start) {rounds : List (List Action)}
    (fair : ∀ round ∈ rounds, turns ⊆ round) (enough : left (view start) ≤ rounds.length)
    (met : EachStep step meets start rounds.flatten) : done (view (run step start rounds.flatten)) := by
  -- Being done is kept through the rest of the run, together with the invariant.
  have remains : ∀ {state : State} {actions : List Action}, inv state → EachStep step meets state actions →
      done (view state) → done (view (run step state actions)) := by
    intro state actions holds met finished
    have both : inv (run step state actions) ∧ done (view (run step state actions)) := by
      apply @invariant_run_of_eachStep _ _ step (fun state => inv state ∧ done (view state)) meets _ state
        ⟨holds, finished⟩ actions met
      intro state action here allowed
      exact ⟨shortens.kept state action here.1 allowed, stays state action here.1 allowed here.2⟩
    exact both.2
  induction rounds generalizing start with
  | nil => exact nothing _ (Nat.le_zero.mp enough)
  | cons round rest ih =>
    rw [List.flatten_cons, eachStep_append] at met
    rw [List.flatten_cons, run_append]
    have holds := invariant_run_of_eachStep shortens.kept initial met.1
    rcases shortens.run_stalls initial met.1 with less | ⟨same, stalled⟩
    · -- The round has shortened what is left, so the other rounds are still enough.
      apply ih holds (fun other member => fair other (List.mem_cons_of_mem _ member)) _ met.2
      rw [List.length_cons] at enough
      omega
    · -- Nobody has moved in the whole round, so there is nothing to wait for.
      have finished : done (view start) := by
        apply stuck
        intro action member
        exact stalled action (fair round List.mem_cons_self member)
      rw [← same] at finished
      exact remains holds met.2 finished

end Shortens

end Machine
