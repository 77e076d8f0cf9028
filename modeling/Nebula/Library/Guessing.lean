import Mathlib.Algebra.Order.Ring.Int
import Mathlib.Data.Finset.Card
import Mathlib.Tactic.Ring

/-! Plans to guess a number from answers that say whether a guess is too high or too low. -/

/-- What is asked first, and how to go on if that is too high and if it is too low. -/
inductive GuessPlan (α : Type*) where
  | idle
  | ask (guess : α) (below above : GuessPlan α)

namespace GuessPlan

variable {α : Type*}

section Finds

variable [LinearOrder α]

/-- The plan comes to the secret with some guesses at the most. -/
def Finds : GuessPlan α → Nat → α → Prop
  | .idle, _, _ => False
  | .ask _ _ _, 0, _ => False
  | .ask guess below above, turns + 1, secret =>
    secret = guess ∨ (secret < guess ∧ below.Finds turns secret) ∨ (guess < secret ∧ above.Finds turns secret)

/-- Of the secrets that a plan finds, some are the first guess and the others are on the two sides of it. -/
theorem card_split (guess : α) (secrets : Finset α) :
    secrets.card ≤ 1 + (secrets.filter (· < guess)).card + (secrets.filter (guess < ·)).card := by
  have cover : secrets ⊆ {guess} ∪ (secrets.filter (· < guess) ∪ secrets.filter (guess < ·)) := by
    intro secret member
    simp only [Finset.mem_union, Finset.mem_singleton, Finset.mem_filter]
    -- A secret is the guess, or below it, or above it.
    rcases lt_trichotomy secret guess with less | same | more
    · exact Or.inr (Or.inl ⟨member, less⟩)
    · exact Or.inl same
    · exact Or.inr (Or.inr ⟨member, more⟩)
  have sizes := (Finset.card_le_card cover).trans (Finset.card_union_le _ _)
  have sides := Finset.card_union_le (secrets.filter (· < guess)) (secrets.filter (guess < ·))
  rw [Finset.card_singleton] at sizes
  omega

/-- With each guess more, a plan finds at most twice as many secrets and one more. -/
theorem card_lt_of_finds (plan : GuessPlan α) (turns : Nat) (secrets : Finset α)
    (finds : ∀ secret ∈ secrets, plan.Finds turns secret) : secrets.card < 2 ^ turns := by
  induction plan generalizing turns secrets with
  | idle =>
    -- Nothing is found without a guess.
    have none : secrets = ∅ := Finset.eq_empty_of_forall_notMem fun secret member => finds secret member
    rw [none, Finset.card_empty]
    exact Nat.two_pow_pos turns
  | ask guess below above ihBelow ihAbove =>
    cases turns with
    | zero =>
      have none : secrets = ∅ := Finset.eq_empty_of_forall_notMem fun secret member => finds secret member
      rw [none, Finset.card_empty]
      exact Nat.one_pos
    | succ turns =>
      -- On each side of the first guess the rest of the plan has one guess less.
      have few := ihBelow turns (secrets.filter (· < guess)) (by
        intro secret member
        obtain ⟨listed, less⟩ := Finset.mem_filter.mp member
        rcases finds secret listed with same | ⟨-, found⟩ | ⟨more, -⟩
        · exact absurd same (ne_of_lt less)
        · exact found
        · exact absurd more (lt_asymm less))
      have many := ihAbove turns (secrets.filter (guess < ·)) (by
        intro secret member
        obtain ⟨listed, more⟩ := Finset.mem_filter.mp member
        rcases finds secret listed with same | ⟨less, -⟩ | ⟨-, found⟩
        · exact absurd same.symm (ne_of_lt more)
        · exact absurd less (lt_asymm more)
        · exact found)
      have split := card_split guess secrets
      rw [Nat.pow_succ]
      omega

/-- More guesses than are needed do no harm. -/
theorem Finds.mono {plan : GuessPlan α} {turns more : Nat} {secret : α} (finds : plan.Finds turns secret)
    (enough : turns ≤ more) : plan.Finds more secret := by
  induction plan generalizing turns more with
  | idle => exact finds
  | ask guess below above ihBelow ihAbove =>
    -- The guesses that are left over stay so on both sides.
    cases turns with
    | zero => exact finds.elim
    | succ turns =>
      cases more with
      | zero => exact absurd enough (by omega)
      | succ more =>
        have rest : turns ≤ more := by omega
        exact finds.imp id
          (Or.imp (fun side => ⟨side.1, ihBelow side.2 rest⟩) fun side => ⟨side.1, ihAbove side.2 rest⟩)

/-- Without a guess left nothing is found. -/
theorem not_finds_zero (plan : GuessPlan α) (secret : α) : ¬ plan.Finds 0 secret := by
  -- Neither a plan that is over nor one that goes on has a guess to make.
  cases plan with
  | idle => exact id
  | ask guess below above => exact id

end Finds

/-- Halve what is left, from a lowest number on, as often as there are guesses. -/
def bisect : Nat → Int → GuessPlan Int
  | 0, _ => .idle
  | turns + 1, lowest => .ask (lowest + 2 ^ turns - 1) (bisect turns lowest) (bisect turns (lowest + 2 ^ turns))

/-- Halving finds one secret less than there are ways for the answers to come out. -/
theorem finds_bisect (turns : Nat) (lowest secret : Int) (least : lowest ≤ secret)
    (most : secret < lowest + 2 ^ turns - 1) : (bisect turns lowest).Finds turns secret := by
  induction turns generalizing lowest with
  | zero =>
    -- There is no such secret.
    rw [pow_zero] at most
    omega
  | succ turns ih =>
    have twice : (2 : Int) ^ (turns + 1) = 2 * 2 ^ turns := by ring
    rw [twice] at most
    rcases lt_trichotomy secret (lowest + 2 ^ turns - 1) with less | same | more
    · exact Or.inr (Or.inl ⟨less, ih lowest least less⟩)
    · exact Or.inl same
    · exact Or.inr (Or.inr ⟨more, ih (lowest + 2 ^ turns) (by omega) (by omega)⟩)

/-- All guesses of a plan have a property. -/
def Asks (good : α → Prop) : GuessPlan α → Prop
  | .idle => True
  | .ask guess below above => good guess ∧ below.Asks good ∧ above.Asks good

/-- What all guesses have, they have in a weaker form. -/
theorem Asks.mono {plan : GuessPlan α} {good weak : α → Prop} (asks : plan.Asks good)
    (weaker : ∀ guess, good guess → weak guess) : plan.Asks weak := by
  induction plan with
  | idle => trivial
  | ask guess below above ihBelow ihAbove =>
    exact ⟨weaker guess asks.1, ihBelow asks.2.1, ihAbove asks.2.2⟩

/-- Halving asks for numbers of the interval only. -/
theorem asks_bisect (turns : Nat) (lowest : Int) :
    (bisect turns lowest).Asks fun guess => lowest ≤ guess ∧ guess < lowest + 2 ^ turns - 1 := by
  induction turns generalizing lowest with
  | zero => trivial
  | succ turns ih =>
    have twice : (2 : Int) ^ (turns + 1) = 2 * 2 ^ turns := by ring
    have positive : (0 : Int) < 2 ^ turns := pow_pos (by decide) turns
    rw [twice]
    -- The two halves are parts of the interval.
    refine ⟨⟨by omega, by omega⟩, (ih lowest).mono fun guess inside => ?_,
      (ih (lowest + 2 ^ turns)).mono fun guess inside => ?_⟩
    · omega
    · omega

end GuessPlan
