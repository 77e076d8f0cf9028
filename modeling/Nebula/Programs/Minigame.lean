import Mathlib.Data.Int.Interval
import Nebula.Library.Guessing
import Nebula.Library.Stdio

/-! The guessing game: its rounds, the players, and how many attempts it takes to be beaten. -/

namespace Nebula

open CText

/-- What the game has said when it reads the next line. -/
inductive Hint where
  | whoops
  | higher
  | lower
  | boom (secret : Int)
  /-- The last attempt was too low or too high, and the game is over. -/
  | kaboom (tooLow : Bool) (secret : Int)
  | newGame

/-- Somebody who types lines, each of which fgets stores whole, and reads what the game answers. -/
inductive Player where
  /-- The input is at its end. -/
  | leaves
  | types (line : Bytes) (next : Hint → Player)

/-- How a round ends, and how the player goes on. -/
inductive RoundEnd where
  | won (rest : Player)
  | lost (rest : Player)
  | left

/-- The loop over the attempts, of which some are left; a line that is no number does not take one. -/
def playRound (secret : Int) : Player → Nat → RoundEnd
  | .leaves, 0 => .lost .leaves
  | .leaves, _ + 1 => .left
  | .types line next, 0 => .lost (.types line next)
  | .types line next, guesses + 1 =>
    if charAt line 0 = ch 'q' ∨ charAt line 0 = ch 'Q' then .left
    else
      let g := atoi (cstring line)
      if g ≤ 0 then playRound secret (next .whoops) (guesses + 1)
      else if g = secret then .won (next (.boom secret))
      else if guesses = 0 then .lost (next (.kaboom (g < secret) secret))
      else playRound secret (next (if g < secret then .higher else .lower)) guesses

/-- Whether there is another round, and what comes of it. -/
def playAgain (game : Player → Nat) : Player → Nat
  | .leaves => 0
  | .types line next => if charAt line 0 = ch 'y' ∨ charAt line 0 = ch 'Y' then game (next .newGame) else 0

/-- The rounds that are won, for the secrets that rand gives. -/
def minigame (guesses : Nat) : List Int → Player → Nat
  | [], _ => 0
  | secret :: later, player =>
    match playRound secret player guesses with
    | .left => 0
    | .won rest => 1 + playAgain (minigame guesses later) rest
    | .lost rest => playAgain (minigame guesses later) rest

/-- The guesses that a player makes in a round, without what does not count. -/
def Player.plan : Player → GuessPlan Int
  | .leaves => .idle
  | .types line next =>
    if charAt line 0 = ch 'q' ∨ charAt line 0 = ch 'Q' then .idle
    else if atoi (cstring line) ≤ 0 then (next .whoops).plan
    else .ask (atoi (cstring line)) (next .lower).plan (next .higher).plan

/-- A round is won exactly if the guesses of the player come to the secret in time. -/
theorem playRound_won_iff (secret : Int) (player : Player) (guesses : Nat) :
    (∃ rest, playRound secret player guesses = .won rest) ↔ player.plan.Finds guesses secret := by
  induction player generalizing guesses with
  | leaves =>
    -- Nobody wins without a guess.
    refine iff_of_false ?_ id
    cases guesses <;> simp [playRound]
  | types line next ih =>
    cases guesses with
    | zero => exact iff_of_false (by simp [playRound]) (GuessPlan.not_finds_zero _ secret)
    | succ guesses =>
      rw [playRound, Player.plan]
      dsimp only
      split
      · exact iff_of_false (by simp) id
      · split
        · -- What is no number is asked for again.
          exact ih .whoops (guesses + 1)
        · rw [GuessPlan.Finds]
          split
          · rename_i same
            exact iff_of_true ⟨_, rfl⟩ (Or.inl same.symm)
          · rename_i apart
            have other : ¬ secret = atoi (cstring line) := fun same => apart same.symm
            rw [or_iff_right other]
            split
            · -- The last attempt has missed.
              rename_i last
              subst last
              refine iff_of_false (by simp) ?_
              rintro (⟨-, found⟩ | ⟨-, found⟩)
              · exact GuessPlan.not_finds_zero _ secret found
              · exact GuessPlan.not_finds_zero _ secret found
            · by_cases low : atoi (cstring line) < secret
              · rw [if_pos low, ih .higher guesses]
                simp [low, not_lt_of_gt low]
              · have high : secret < atoi (cstring line) := by omega
                rw [if_neg low, ih .lower guesses]
                simp [high, low]

/-- A line with a number in it, as it is typed. -/
def numberLine (number : Int) : Bytes := decimal number ++ [newline]

/-- The game reads the number in the line. -/
theorem atoi_numberLine {number : Int} (fits : InInt number) : atoi (cstring (numberLine number)) = number := by
  have plain : 0 ∉ numberLine number := by
    rw [numberLine, List.mem_append, List.mem_singleton]
    rintro (inside | last)
    · exact (decimal_plain number 0 inside).1 rfl
    · exact absurd last (by decide)
  rw [cstring_of_notMem plain, numberLine]
  obtain ⟨digits, nonempty, decimals, -, printed⟩ := decimal_eq number
  have stops : ∀ byte ∈ [newline].head?, isDigit byte = false := by
    intro byte first
    rw [← Option.some.inj first]
    decide
  have read := atoi_decimal fits
  -- The newline ends the digits as the end of the text would.
  by_cases negative : number < 0
  · rw [if_pos negative] at printed
    rw [printed, atoi, strtol, List.dropWhile_cons_of_neg (by decide), leadingInt, if_pos rfl] at read
    rw [printed, atoi, strtol, List.cons_append, List.dropWhile_cons_of_neg (by decide), leadingInt, if_pos rfl,
      leadingNat_append decimals stops, read]
  · rw [if_neg negative] at printed
    obtain ⟨first, others, rfl⟩ := List.exists_cons_of_ne_nil nonempty
    obtain ⟨blank, minus, plus, -, -⟩ := isDigit_apart (decimals first List.mem_cons_self)
    have number := leadingNat_append decimals stops
    rw [List.cons_append] at number
    rw [printed, atoi, strtol, List.dropWhile_cons_of_neg (by simp [blank]), leadingInt, if_neg minus,
      if_neg plus] at read
    rw [printed, atoi, strtol, List.cons_append, List.dropWhile_cons_of_neg (by simp [blank]), leadingInt,
      if_neg minus, if_neg plus, number, read]

/-- A player who follows a plan, and something else once the secret is found. -/
def follow (after : Player) : GuessPlan Int → Player
  | .idle => .leaves
  | .ask guess below above => .types (numberLine guess) fun
    | .higher => follow after above
    | .lower => follow after below
    | .boom _ => after
    | _ => .leaves

/-- Whoever follows a plan that finds the secret wins the round. -/
theorem playRound_follow {secret : Int} {after : Player} {plan : GuessPlan Int} {guesses : Nat}
    (asks : plan.Asks fun guess => 0 < guess ∧ InInt guess) (finds : plan.Finds guesses secret) :
    playRound secret (follow after plan) guesses = .won after := by
  induction plan generalizing guesses with
  | idle => exact finds.elim
  | ask guess below above ihBelow ihAbove =>
    obtain ⟨⟨positive, fits⟩, asksBelow, asksAbove⟩ := asks
    cases guesses with
    | zero => exact finds.elim
    | succ guesses =>
      have read := atoi_numberLine fits
      -- A number does not begin as the commands to quit do.
      have number : ¬ (charAt (numberLine guess) 0 = ch 'q' ∨ charAt (numberLine guess) 0 = ch 'Q') := by
        obtain ⟨digits, nonempty, decimals, -, printed⟩ := decimal_eq guess
        obtain ⟨first, others, rfl⟩ := List.exists_cons_of_ne_nil nonempty
        have digit := decimals first List.mem_cons_self
        rw [numberLine, printed, if_neg (by omega)]
        rintro (small | capital)
        · rw [show first = ch 'q' from small] at digit
          exact absurd digit (by decide)
        · rw [show first = ch 'Q' from capital] at digit
          exact absurd digit (by decide)
      rw [follow, playRound, if_neg number, read]
      dsimp only
      rw [if_neg (by omega)]
      rcases finds with same | ⟨less, found⟩ | ⟨more, found⟩
      · rw [if_pos same.symm]
      · have more : guesses ≠ 0 := fun none => GuessPlan.not_finds_zero _ secret (none ▸ found)
        rw [if_neg (by omega), if_neg more, if_neg (by omega)]
        exact ihBelow asksBelow found
      · have left : guesses ≠ 0 := fun none => GuessPlan.not_finds_zero _ secret (none ▸ found)
        rw [if_neg (by omega), if_neg left, if_pos more]
        exact ihAbove asksAbove found

/-- Halve the interval from 1 to 127 in each of some rounds. -/
def champion : Nat → Player
  | 0 => .leaves
  | rounds + 1 => follow (.types (ascii "y" ++ [newline]) fun _ => champion rounds) (.bisect 7 1)

/-- The champion wins every round that there are seven attempts in. -/
theorem minigame_champion {guesses : Nat} (enough : 7 ≤ guesses) {secrets : List Int}
    (inside : ∀ secret ∈ secrets, 1 ≤ secret ∧ secret ≤ 100) :
    minigame guesses secrets (champion secrets.length) = secrets.length := by
  induction secrets with
  | nil => rfl
  | cons secret later ih =>
    obtain ⟨least, most⟩ := inside secret List.mem_cons_self
    have asks : (GuessPlan.bisect 7 1).Asks fun guess => 0 < guess ∧ InInt guess := by
      refine GuessPlan.Asks.mono (GuessPlan.asks_bisect 7 1) fun guess inside => ?_
      unfold InInt intMin intMax
      omega
    have finds := (GuessPlan.finds_bisect 7 1 secret least (by omega)).mono enough
    have won : playRound secret (champion (later.length + 1)) guesses =
        .won (.types (ascii "y" ++ [newline]) fun _ => champion later.length) := playRound_follow asks finds
    rw [List.length_cons, minigame, won]
    dsimp only
    -- After the round the answer is yes.
    rw [playAgain, if_pos (by decide), ih fun other member => inside other (List.mem_cons_of_mem _ member)]
    omega

/-- No more rounds are won than there are. -/
theorem minigame_le (guesses : Nat) (secrets : List Int) (player : Player) :
    minigame guesses secrets player ≤ secrets.length := by
  induction secrets generalizing player with
  | nil => exact Nat.le_refl 0
  | cons secret later ih =>
    have again : ∀ rest, playAgain (minigame guesses later) rest ≤ later.length := by
      intro rest
      cases rest with
      | leaves => exact Nat.zero_le _
      | types line next =>
        rw [playAgain]
        split
        · exact ih _
        · exact Nat.zero_le _
    rw [minigame, List.length_cons]
    split
    · exact Nat.zero_le _
    · rename_i rest _
      have later := again rest
      omega
    · rename_i rest _
      have later := again rest
      omega

/--
There is a way to win every round, whatever the secrets are, exactly if there are seven attempts or
more: the game gives just enough of them.
-/
theorem beatable_iff (guesses rounds : Nat) :
    (∃ player, ∀ secrets : List Int, secrets.length = rounds + 1 → (∀ secret ∈ secrets, 1 ≤ secret ∧ secret ≤ 100) →
      minigame guesses secrets player = rounds + 1) ↔ 7 ≤ guesses := by
  constructor
  · rintro ⟨player, wins⟩
    -- Whatever the first secret is, the first round is won.
    have finds : ∀ secret ∈ Finset.Icc (1 : Int) 100, player.plan.Finds guesses secret := by
      intro secret member
      have inside := Finset.mem_Icc.mp member
      have all := wins (secret :: List.replicate rounds 1) (by simp) (by
        rw [List.forall_mem_cons]
        refine ⟨inside, fun other listed => ?_⟩
        rw [List.eq_of_mem_replicate listed]
        decide)
      rw [← playRound_won_iff]
      rw [minigame] at all
      split at all
      · exact absurd all (by omega)
      · rename_i rest won
        exact ⟨rest, won⟩
      · rename_i rest _
        -- A round that is lost cannot be made up for.
        have few : playAgain (minigame guesses (List.replicate rounds 1)) rest ≤ rounds := by
          cases rest with
          | leaves => exact Nat.zero_le _
          | types line next =>
            rw [playAgain]
            split
            · exact (minigame_le guesses _ _).trans (by simp)
            · exact Nat.zero_le _
        omega
    have many := player.plan.card_lt_of_finds guesses _ finds
    rw [Int.card_Icc] at many
    by_contra few
    have small : 2 ^ guesses ≤ 2 ^ 6 := Nat.pow_le_pow_right (by decide) (by omega)
    omega
  · intro enough
    refine ⟨champion (rounds + 1), fun secrets length inside => ?_⟩
    rw [← length]
    exact minigame_champion enough inside

end Nebula
