import Mathlib.Algebra.GroupWithZero.Nat
import Mathlib.Algebra.Order.Ring.Nat
import Mathlib.Data.List.Infix

/-! Runs of a deterministic machine, and what holds in every state they visit. -/

namespace Machine

variable {State Action : Type*} (step : State → Action → State)

/-- The state a machine is in after a list of actions. -/
def run (start : State) (actions : List Action) : State :=
  actions.foldl step start

/-- A predicate holds in every state a run visits, its first and last included. -/
def Throughout (good : State → Prop) : State → List Action → Prop
  | state, [] => good state
  | state, action :: rest => good state ∧ Throughout good (step state action) rest

/-- Every step of a run meets a condition in the state it starts from. -/
def EachStep (meets : State → Action → Prop) : State → List Action → Prop
  | _, [] => True
  | state, action :: rest => meets state action ∧ EachStep meets (step state action) rest

/-- What the steps of a run put out, in order, some of them putting out nothing. -/
def outputs {Output : Type*} (emit : State → Action → Option Output) : State → List Action → List Output
  | _, [] => []
  | state, action :: rest => (emit state action).toList ++ outputs emit (step state action) rest

/-- What the steps of a run count together. -/
def total (count : State → Action → Nat) : State → List Action → Nat
  | _, [] => 0
  | state, action :: rest => count state action + total count (step state action) rest

instance decidableThroughout {good : State → Prop} [DecidablePred good] :
    ∀ state actions, Decidable (Throughout step good state actions)
  | state, [] => inferInstanceAs (Decidable (good state))
  | state, action :: rest =>
    have : Decidable (Throughout step good (step state action) rest) :=
      decidableThroughout (step state action) rest
    inferInstanceAs (Decidable (_ ∧ _))

instance decidableEachStep {meets : State → Action → Prop} [∀ state action, Decidable (meets state action)] :
    ∀ state actions, Decidable (EachStep step meets state actions)
  | _, [] => isTrue trivial
  | state, action :: rest =>
    have : Decidable (EachStep step meets (step state action) rest) :=
      decidableEachStep (step state action) rest
    inferInstanceAs (Decidable (_ ∧ _))

@[simp] theorem run_nil (start : State) : run step start [] = start := rfl

@[simp] theorem run_cons (start : State) (action : Action) (rest : List Action) :
    run step start (action :: rest) = run step (step start action) rest := rfl

theorem run_append (start : State) (before after : List Action) :
    run step start (before ++ after) = run step (run step start before) after := List.foldl_append

variable {step}

/-- What every step preserves holds after any run. -/
theorem invariant_run {inv : State → Prop}
    (preserved : ∀ state action, inv state → inv (step state action)) {start : State}
    (initial : inv start) (actions : List Action) : inv (run step start actions) := by
  -- The run is generalised over its start, which each step replaces by its successor.
  induction actions generalizing start with
  | nil => exact initial
  | cons action rest ih => exact ih (preserved start action initial)

/-- What every step meeting a condition preserves holds after a run whose steps all meet it. -/
theorem invariant_run_of_eachStep {inv : State → Prop} {meets : State → Action → Prop}
    (preserved : ∀ state action, inv state → meets state action → inv (step state action))
    {start : State} (initial : inv start) {actions : List Action}
    (met : EachStep step meets start actions) : inv (run step start actions) := by
  induction actions generalizing start with
  | nil => exact initial
  | cons action rest ih => exact ih (preserved start action initial met.1) met.2

/-- Two machines that stay related step by step are related after the same run. -/
theorem run_related {Other : Type*} {step' : Other → Action → Other} {related : State → Other → Prop}
    (kept : ∀ state other action, related state other → related (step state action) (step' other action))
    {start : State} {other : Other} (initial : related start other) (actions : List Action) :
    related (run step start actions) (run step' other actions) := by
  induction actions generalizing start other with
  | nil => exact initial
  | cons action rest ih => exact ih (kept start other action initial)

/-- Under an invariant, what every step puts out has a property that holds of all that a run puts out. -/
theorem forall_outputs_of_invariant {Output : Type*} {inv : State → Prop}
    (preserved : ∀ state action, inv state → inv (step state action)) {emit : State → Action → Option Output}
    {good : Output → Prop} (each : ∀ state action output, inv state → emit state action = some output → good output)
    {start : State} (initial : inv start) (actions : List Action) :
    ∀ output ∈ outputs step emit start actions, good output := by
  -- The rest of the run starts from a state of which the invariant holds.
  induction actions generalizing start with
  | nil => exact fun output member => absurd member List.not_mem_nil
  | cons action rest ih =>
    intro output member
    rcases List.mem_append.mp member with here | later
    · exact each start action output initial (Option.mem_toList.mp here)
    · exact ih (preserved start action initial) output later

theorem outputs_append {Output : Type*} (emit : State → Action → Option Output) (start : State)
    (before after : List Action) :
    outputs step emit start (before ++ after) =
      outputs step emit start before ++ outputs step emit (run step start before) after := by
  induction before generalizing start with
  | nil => rfl
  | cons action rest ih => simp only [List.cons_append, outputs, run_cons, ih, List.append_assoc]

/-- What is counted in the first part of a run and in the rest of it is counted together. -/
theorem total_append (count : State → Action → Nat) (start : State) (before after : List Action) :
    total step count start (before ++ after) =
      total step count start before + total step count (run step start before) after := by
  induction before generalizing start with
  | nil => simp [total]
  | cons action rest ih => simp only [List.cons_append, total, run_cons, ih, Nat.add_assoc]

/--
Where an invariant holds and each step has a price, which it pays from outside or takes from a
potential, a run has no more such steps than are paid for together.
-/
theorem total_add_potential_le {inv : State → Prop} {meets : Action → Prop} {count : State → Action → Nat}
    {price : Nat} {pay : Action → Nat} {potential : State → Nat}
    (preserved : ∀ state action, inv state → meets action → inv (step state action))
    (balanced : ∀ state action, inv state → meets action →
      price * count state action + potential (step state action) ≤ potential state + pay action)
    {start : State} (initial : inv start) {actions : List Action} (met : ∀ action ∈ actions, meets action) :
    price * total step count start actions + potential (run step start actions) ≤
      potential start + (actions.map pay).sum := by
  -- The potential that a step leaves is what the rest of the run starts from.
  induction actions generalizing start with
  | nil => simp [total]
  | cons action rest ih =>
    have first := balanced start action initial (met action List.mem_cons_self)
    have later := ih (preserved start action initial (met action List.mem_cons_self))
      fun other member => met other (List.mem_cons_of_mem _ member)
    simp only [total, run_cons, List.map_cons, List.sum_cons, Nat.mul_add]
    omega

section Stuttering

variable {Coarse CoarseAction Output : Type*} {step' : Coarse → CoarseAction → Coarse}
  {related : State → Coarse → Prop} {meets : Action → Prop} {emit : State → Action → Option CoarseAction}

/-- Where each step of a machine is one of a coarser machine or none, a run is one of the coarser machine. -/
theorem run_stutters
    (simulates : ∀ state coarse action, meets action → related state coarse →
      related (step state action) (run step' coarse (emit state action).toList))
    {start : State} {coarse : Coarse} (initial : related start coarse) {actions : List Action}
    (met : ∀ action ∈ actions, meets action) :
    related (run step start actions) (run step' coarse (outputs step emit start actions)) := by
  induction actions generalizing start coarse with
  | nil => exact initial
  | cons action rest ih =>
    rw [run_cons, outputs, run_append]
    exact ih (simulates start coarse action (met action List.mem_cons_self) initial)
      fun other member => met other (List.mem_cons_of_mem _ member)

/-- If the two show the same in each step, they show the same in a run. -/
theorem outputs_stutters
    (simulates : ∀ state coarse action, meets action → related state coarse →
      related (step state action) (run step' coarse (emit state action).toList))
    {show₁ : State → Action → Option Output} {show₂ : Coarse → CoarseAction → Option Output}
    (agrees : ∀ state coarse action, meets action → related state coarse →
      (show₁ state action).toList = outputs step' show₂ coarse (emit state action).toList)
    {start : State} {coarse : Coarse} (initial : related start coarse) {actions : List Action}
    (met : ∀ action ∈ actions, meets action) :
    outputs step show₁ start actions = outputs step' show₂ coarse (outputs step emit start actions) := by
  induction actions generalizing start coarse with
  | nil => rfl
  | cons action rest ih =>
    have first := met action List.mem_cons_self
    rw [outputs, outputs, outputs_append, agrees start coarse action first initial,
      ih (simulates start coarse action first initial) fun other member => met other (List.mem_cons_of_mem _ member)]

end Stuttering

section Abstraction

variable {Abstract Output : Type*} {step' : Abstract → Action → Abstract} {abstract : State → Abstract}

/-- Where each step is one of another machine, seen through an abstraction, so is each run. -/
theorem run_abstract (simulates : ∀ state action, abstract (step state action) = step' (abstract state) action)
    (start : State) (actions : List Action) :
    abstract (run step start actions) = run step' (abstract start) actions := by
  induction actions generalizing start with
  | nil => rfl
  | cons action rest ih => rw [run_cons, run_cons, ih, simulates]

/-- What the two machines put out is the same if it is so in each step. -/
theorem outputs_abstract
    (simulates : ∀ state action, abstract (step state action) = step' (abstract state) action)
    {emit : State → Action → Option Output} {emit' : Abstract → Action → Option Output}
    (emits : ∀ state action, emit state action = emit' (abstract state) action)
    (start : State) (actions : List Action) :
    outputs step emit start actions = outputs step' emit' (abstract start) actions := by
  induction actions generalizing start with
  | nil => rfl
  | cons action rest ih => rw [outputs, outputs, ih, simulates, emits]

/-- Where an invariant holds, it is enough that the steps agree under it. -/
theorem run_abstract_of_invariant {inv : State → Prop}
    (preserved : ∀ state action, inv state → inv (step state action))
    (simulates : ∀ state action, inv state → abstract (step state action) = step' (abstract state) action)
    {start : State} (initial : inv start) (actions : List Action) :
    abstract (run step start actions) = run step' (abstract start) actions := by
  induction actions generalizing start with
  | nil => rfl
  | cons action rest ih =>
    rw [run_cons, run_cons, ih (preserved start action initial), simulates start action initial]

/-- What the two machines put out is the same if it is so in each step under an invariant. -/
theorem outputs_abstract_of_invariant {inv : State → Prop}
    (preserved : ∀ state action, inv state → inv (step state action))
    (simulates : ∀ state action, inv state → abstract (step state action) = step' (abstract state) action)
    {emit : State → Action → Option Output} {emit' : Abstract → Action → Option Output}
    (emits : ∀ state action, inv state → emit state action = emit' (abstract state) action)
    {start : State} (initial : inv start) (actions : List Action) :
    outputs step emit start actions = outputs step' emit' (abstract start) actions := by
  induction actions generalizing start with
  | nil => rfl
  | cons action rest ih =>
    rw [outputs, outputs, ih (preserved start action initial), simulates start action initial,
      emits start action initial]

end Abstraction

/-- Steps that meet a condition meet it in each part of the run. -/
theorem eachStep_append {meets : State → Action → Prop} {start : State} {before after : List Action} :
    EachStep step meets start (before ++ after) ↔
      EachStep step meets start before ∧ EachStep step meets (run step start before) after := by
  induction before generalizing start with
  | nil => simp [EachStep]
  | cons action rest ih => simp [EachStep, ih, and_assoc]

/-- The states a run visits are the ones its beginnings lead to. -/
theorem throughout_iff_reached {good : State → Prop} {start : State} {actions : List Action} :
    Throughout step good start actions ↔
      ∀ before, before <+: actions → good (run step start before) := by
  induction actions generalizing start with
  | nil => simp [Throughout]
  | cons action rest ih =>
    constructor
    · rintro ⟨here, later⟩ before begins
      -- A beginning is empty or starts with the first action.
      cases before with
      | nil => exact here
      | cons first before =>
        obtain ⟨rfl, inside⟩ := List.cons_prefix_cons.mp begins
        exact ih.mp later before inside
    · intro reached
      refine ⟨reached [] List.nil_prefix, ih.mpr ?_⟩
      intro before begins
      exact reached (action :: before) (List.cons_prefix_cons.mpr ⟨rfl, begins⟩)

/-- What an invariant of the steps that meet a condition implies holds throughout such a run. -/
theorem throughout_of_eachStep {inv good : State → Prop} {meets : State → Action → Prop}
    (enough : ∀ state, inv state → good state)
    (kept : ∀ state action, inv state → meets state action → inv (step state action))
    {start : State} (initial : inv start) {actions : List Action}
    (met : EachStep step meets start actions) : Throughout step good start actions := by
  rw [throughout_iff_reached]
  rintro before ⟨after, rfl⟩
  -- The steps of a beginning of the run meet the condition too.
  exact enough _ (invariant_run_of_eachStep kept initial (eachStep_append.mp met).1)

/--
A property holds throughout a run exactly when every step meets a condition.

Under an invariant that implies the property, a step that meets the condition keeps the invariant
and a step that does not violates the property.
-/
theorem throughout_iff_met {inv good : State → Prop} {meets : State → Action → Prop}
    (enough : ∀ state, inv state → good state)
    (kept : ∀ state action, inv state → meets state action → inv (step state action))
    (needed : ∀ state action, inv state → good (step state action) → meets state action)
    {start : State} (initial : inv start) (actions : List Action) :
    Throughout step good start actions ↔ EachStep step meets start actions := by
  -- Both sides unfold along the run, and the invariant at each state carries over to the next.
  induction actions generalizing start with
  | nil => simp [Throughout, EachStep, enough start initial]
  | cons action rest ih =>
    constructor
    · rintro ⟨-, later⟩
      have after : good (step start action) := throughout_iff_reached.mp later [] List.nil_prefix
      have met := needed start action initial after
      exact ⟨met, (ih (kept start action initial met)).mp later⟩
    · rintro ⟨met, later⟩
      exact ⟨enough start initial, (ih (kept start action initial met)).mpr later⟩

/--
Under an invariant of all steps, it is enough that a step keeps the property just when it meets the
condition.
-/
theorem throughout_iff_eachStep {inv good : State → Prop} {meets : State → Action → Prop}
    (preserved : ∀ state action, inv state → inv (step state action))
    (exact_step : ∀ state action, inv state → good state →
      (good (step state action) ↔ meets state action))
    {start : State} (initial : inv start) (begins : good start) (actions : List Action) :
    Throughout step good start actions ↔ EachStep step meets start actions := by
  -- Together the two are an invariant of the steps that meet the condition.
  have kept : ∀ state action, inv state ∧ good state → meets state action →
      inv (step state action) ∧ good (step state action) := by
    intro state action ⟨here, holds⟩ met
    exact ⟨preserved state action here, (exact_step state action here holds).mpr met⟩
  refine throughout_iff_met (fun state both => both.2) kept ?_ ⟨initial, begins⟩ actions
  intro state action ⟨here, holds⟩ after
  exact (exact_step state action here holds).mp after

end Machine
