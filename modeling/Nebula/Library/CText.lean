import Mathlib.Data.List.GetD
import Mathlib.Data.List.Infix
import Mathlib.Data.List.TakeWhile
import Mathlib.Data.Int.Basic
import Mathlib.Tactic.Common

/-! Strings of a C program: bytes up to a terminator, and the library calls that read them. -/

namespace CText

/-- A byte string, without its terminator where it stands for the text of a C string. -/
abbrev Bytes := List UInt8

/-- A test of every byte of a text looks at the text, not at all values of a byte. -/
instance (priority := high) decidableBytes (test : UInt8 → Prop) [DecidablePred test] (text : Bytes) :
    Decidable (∀ byte ∈ text, test byte) := List.decidableBAll test text

/-- The byte of an ASCII character. -/
def ch (character : Char) : UInt8 := character.toUInt8

/-- The bytes of an ASCII literal. -/
def ascii (literal : String) : Bytes := literal.toList.map ch

/-- The byte at an index of a C string, its terminator included. -/
def charAt (text : Bytes) (index : Nat) : UInt8 := text.getD index 0

/-- The C string a buffer holds: its bytes before the first NUL. -/
def cstring (buffer : Bytes) : Bytes := buffer.takeWhile (· != 0)

/-- A copy loop that stops at the terminator or when a buffer of the given size is full. -/
def copyInto (size : Nat) (text : Bytes) : Bytes := (cstring text).take (size - 1)

/-- strncmp with the length of a literal: whether the text begins with it. -/
def startsWith (literal : String) (text : Bytes) : Bool := (ascii literal).isPrefixOf text

/-- strstr: whether a literal occurs in the text. -/
def contains (literal : String) (text : Bytes) : Bool := decide (ascii literal <:+: text)

/-- strchr: the text before the first occurrence of a byte and the text after it. -/
def strchr (byte : UInt8) : Bytes → Option (Bytes × Bytes)
  | [] => none
  | first :: rest =>
    if first = byte then some ([], rest)
    else (strchr byte rest).map fun (before, after) => (first :: before, after)

/-- The smallest and the largest value of a 32-bit int. -/
def intMin : Int := -2147483648
@[inherit_doc intMin] def intMax : Int := 2147483647

/-- A value that a 32-bit int can hold. -/
def InInt (value : Int) : Prop := intMin ≤ value ∧ value ≤ intMax

instance (value : Int) : Decidable (InInt value) := inferInstanceAs (Decidable (_ ∧ _))

def isSpace (byte : UInt8) : Bool := byte == ch ' ' || (9 ≤ byte && byte ≤ 13)

def isDigit (byte : UInt8) : Bool := ch '0' ≤ byte && byte ≤ ch '9'

/-- The number written by the leading decimal digits of a text. -/
def leadingNat (text : Bytes) : Nat :=
  (text.takeWhile isDigit).foldl (fun value digit => 10 * value + (digit - ch '0').toNat) 0

/-- The number written by an optional sign and the digits after it. -/
def leadingInt (text : Bytes) : Int :=
  match text with
  | [] => 0
  | first :: rest =>
    if first = ch '-' then -(leadingNat rest : Int)
    else if first = ch '+' then leadingNat rest
    else leadingNat text

/-- strtol in base ten: blanks, a sign and digits, held at the ends of the 64-bit range. -/
def strtol (text : Bytes) : Int :=
  max (-9223372036854775808) (min 9223372036854775807 (leadingInt (text.dropWhile isSpace)))

/-- atoi of the GNU library: the low 32 bits of what strtol reads, as an int. -/
def atoi (text : Bytes) : Int := (strtol text).bmod 4294967296

/-- The text a "%d" conversion prints. -/
def decimal (value : Int) : Bytes := ascii (toString value)

/-- A C string ends before the first terminator. -/
theorem zero_notMem_cstring (buffer : Bytes) : 0 ∉ cstring buffer := by
  intro member
  exact absurd (List.mem_takeWhile_imp member) (by decide)

theorem cstring_begins (buffer : Bytes) : cstring buffer <+: buffer := List.takeWhile_prefix _

/-- Bytes without a terminator are a C string as they are. -/
theorem cstring_of_notMem {buffer : Bytes} (plain : 0 ∉ buffer) : cstring buffer = buffer := by
  rw [cstring, List.takeWhile_eq_self_iff]
  exact fun byte member => bne_iff_ne.mpr fun zero => plain (zero ▸ member)

theorem length_of_charAt {text : Bytes} {index : Nat} (some : charAt text index ≠ 0) : index < text.length := by
  -- Behind the text there is nothing but its terminator.
  by_contra behind
  exact some (List.getD_eq_default _ _ (Nat.not_lt.mp behind))

/-- Nothing is read from an index on where the terminator is. -/
theorem cstring_drop_eq_nil {text : Bytes} {index : Nat} : cstring (text.drop index) = [] ↔ charAt text index = 0 := by
  -- The byte at the index is the first one of the rest, or the terminator if there is no rest.
  have first : charAt text index = charAt (text.drop index) 0 := by
    rw [charAt, charAt, List.getD_eq_getElem?_getD, List.getD_eq_getElem?_getD, List.getElem?_drop, Nat.add_zero]
  rw [first]
  cases text.drop index with
  | nil => exact iff_of_true rfl rfl
  | cons byte rest =>
    show (byte :: rest).takeWhile (· != 0) = [] ↔ byte = 0
    rw [List.takeWhile_cons]
    by_cases ended : byte = 0 <;> simp [ended]

/-- From an index in front of its terminator on, a C string is the rest of the C string. -/
theorem cstring_drop {text : Bytes} {index : Nat} (inside : index ≤ (cstring text).length) :
    cstring (text.drop index) = (cstring text).drop index := by
  -- Each byte that is dropped is one in front of the terminator.
  induction text generalizing index with
  | nil => simp [cstring]
  | cons byte rest ih =>
    cases index with
    | zero => rfl
    | succ index =>
      rw [cstring, List.takeWhile_cons] at inside
      split at inside
      · rename_i some
        rw [List.drop_succ_cons, ih (Nat.le_of_succ_le_succ inside)]
        simp [cstring, some]
      · exact absurd inside (Nat.not_succ_le_zero _)

/-- A C string reaches behind an index if it has no terminator up to there. -/
theorem lt_length_cstring {text : Bytes} {index : Nat} :
    index < (cstring text).length ↔ ∀ place ≤ index, charAt text place ≠ 0 := by
  constructor
  · intro inside place before ended
    have rest := cstring_drop (Nat.le_of_lt (Nat.lt_of_le_of_lt before inside))
    rw [cstring_drop_eq_nil.mpr ended] at rest
    have length := congrArg List.length rest
    rw [List.length_drop, List.length_nil] at length
    omega
  · intro plain
    -- Otherwise its own terminator would be one of those places.
    by_contra ends
    have rest := cstring_drop (Nat.le_refl (cstring text).length)
    rw [List.drop_length] at rest
    exact plain _ (Nat.not_lt.mp ends) (cstring_drop_eq_nil.mp rest)

/-- Looking for a separator that the text before it lacks finds that separator. -/
theorem strchr_append {byte : UInt8} {before : Bytes} (fresh : byte ∉ before) (after : Bytes) :
    strchr byte (before ++ byte :: after) = some (before, after) := by
  -- The search passes every byte before the separator, as none of them is one.
  induction before with
  | nil => simp [strchr]
  | cons first rest ih =>
    simp only [List.mem_cons, not_or] at fresh
    simp [strchr, Ne.symm fresh.1, ih fresh.2]

/-- What strchr finds is the first separator, with the text on both sides of it. -/
theorem strchr_eq_some {byte : UInt8} {text before after : Bytes} (found : strchr byte text = some (before, after)) :
    byte ∉ before ∧ text = before ++ byte :: after := by
  induction text generalizing before with
  | nil => cases found
  | cons first rest ih =>
    rw [strchr] at found
    split at found
    · rename_i here
      cases found
      exact ⟨List.not_mem_nil, congrArg (· :: after) here⟩
    · rename_i later
      -- The separator is one of the bytes behind.
      obtain ⟨⟨begins, ends⟩, inside, same⟩ := Option.map_eq_some_iff.mp found
      obtain ⟨rfl, rfl⟩ := Prod.mk.inj same
      obtain ⟨fresh, rfl⟩ := ih inside
      exact ⟨List.not_mem_cons_of_ne_of_not_mem (Ne.symm later) fresh, rfl⟩

/-- The byte of a decimal digit is a digit, and its value is that of the character. -/
theorem ch_digit {digit : Char} (isDecimal : digit.isDigit = true) :
    isDigit (ch digit) = true ∧ (ch digit - ch '0').toNat = digit.toNat - '0'.toNat := by
  -- The digits stand side by side in ASCII, and their bytes are their characters.
  have range : 48 ≤ digit.toNat ∧ digit.toNat ≤ 57 := Char.isDigit_iff_toNat.mp isDecimal
  have value : (ch digit).toNat = digit.toNat := by
    show digit.toNat % 256 = digit.toNat
    omega
  have zero : (ch '0').toNat = 48 := rfl
  have nine : (ch '9').toNat = 57 := rfl
  constructor
  · simp only [isDigit, Bool.and_eq_true, decide_eq_true_eq, UInt8.le_iff_toNat_le, value, zero, nine]
    exact range
  · rw [UInt8.toNat_sub_of_le _ _ (by rw [UInt8.le_iff_toNat_le]; omega), value, zero]
    rfl

/-- Digits are read as the number their characters write. -/
theorem leadingNat_digits {digits : List Char} (decimals : ∀ digit ∈ digits, digit.isDigit = true) :
    leadingNat (digits.map ch) = Nat.ofDigitChars 10 digits 0 := by
  -- No digit stops the reader, so it folds over the whole text.
  have whole : (digits.map ch).takeWhile isDigit = digits.map ch := by
    rw [List.takeWhile_eq_self_iff]
    intro byte member
    obtain ⟨digit, inside, rfl⟩ := List.mem_map.mp member
    exact (ch_digit (decimals digit inside)).1
  rw [leadingNat, whole, Nat.ofDigitChars_eq_foldl, List.foldl_map]
  apply List.foldl_ext _ _ 0
  intro value digit member
  rw [(ch_digit (decimals digit member)).2]

/-- A number is printed as a sign, if it is negative, and digits that leadingNat reads back. -/
theorem decimal_eq (value : Int) :
    ∃ digits : Bytes, digits ≠ [] ∧ (∀ byte ∈ digits, isDigit byte = true) ∧
      leadingNat digits = value.natAbs ∧
      decimal value = if value < 0 then ch '-' :: digits else digits := by
  -- The digits are those of the absolute value.
  refine ⟨(Nat.toDigits 10 value.natAbs).map ch, ?_, ?_, ?_, ?_⟩
  · simp [Nat.toDigits_ne_nil]
  · intro byte member
    obtain ⟨digit, inside, rfl⟩ := List.mem_map.mp member
    exact (ch_digit (Nat.isDigit_of_mem_toDigits (by decide) (by decide) inside)).1
  · rw [leadingNat_digits fun digit inside => Nat.isDigit_of_mem_toDigits (by decide) (by decide) inside]
    exact Nat.ofDigitChars_ten_toDigits
  · rw [decimal, ascii, Int.toString_eq_repr, Int.repr_eq_if]
    by_cases negative : value < 0
    · rw [if_neg (by omega), if_pos negative, String.toList_append, List.map_append,
        show (-value).toNat = value.natAbs by omega, Nat.toList_repr]
      rfl
    · rw [if_pos (by omega), if_neg negative, show value.toNat = value.natAbs by omega,
        Nat.toList_repr]

theorem isDigit_apart {byte : UInt8} (digit : isDigit byte = true) :
    isSpace byte = false ∧ byte ≠ ch '-' ∧ byte ≠ ch '+' ∧ byte ≠ ch ':' ∧ byte ≠ 0 := by
  have different : ∀ other, isDigit other = false → byte ≠ other := by
    intro other notDigit same
    rw [same, notDigit] at digit
    cases digit
  refine ⟨?_, different _ (by decide), different _ (by decide), different _ (by decide),
    different _ (by decide)⟩
  -- The blanks are below the digits.
  have lower : 48 ≤ byte.toNat := by
    simp only [isDigit, Bool.and_eq_true, decide_eq_true_eq, UInt8.le_iff_toNat_le] at digit
    exact digit.1
  have notBlank : (byte == ch ' ') = false := beq_eq_false_iff_ne.mpr (different _ (by decide))
  have above : ¬ byte ≤ 13 := by
    rw [UInt8.le_iff_toNat_le]
    show ¬ byte.toNat ≤ 13
    omega
  simp [isSpace, notBlank, above]

/-- A printed number contains no terminator and no separator. -/
theorem decimal_plain (value : Int) : ∀ byte ∈ decimal value, byte ≠ 0 ∧ byte ≠ ch ':' := by
  obtain ⟨digits, -, decimals, -, printed⟩ := decimal_eq value
  rw [printed]
  intro byte member
  -- The byte is the sign or a digit.
  split at member
  · rcases List.mem_cons.mp member with rfl | member
    · decide
    · obtain ⟨-, -, -, colon, terminator⟩ := isDigit_apart (decimals byte member)
      exact ⟨terminator, colon⟩
  · obtain ⟨-, -, -, colon, terminator⟩ := isDigit_apart (decimals byte member)
    exact ⟨terminator, colon⟩

/-- atoi reads back the int that "%d" printed. -/
theorem atoi_decimal {value : Int} (fits : InInt value) : atoi (decimal value) = value := by
  obtain ⟨digits, nonempty, decimals, read, printed⟩ := decimal_eq value
  have signed : leadingInt ((decimal value).dropWhile isSpace) = value := by
    rw [printed]
    -- No blank precedes the sign or the first digit.
    by_cases negative : value < 0
    · rw [if_pos negative, List.dropWhile_cons_of_neg (by decide), leadingInt, if_pos rfl, read]
      omega
    · rw [if_neg negative]
      cases digits with
      | nil => exact absurd rfl nonempty
      | cons first rest =>
        -- A number without a sign starts with a digit.
        obtain ⟨blank, minus, plus, -, -⟩ := isDigit_apart (decimals first List.mem_cons_self)
        rw [List.dropWhile_cons_of_neg (by simp [blank]), leadingInt, if_neg minus, if_neg plus, read]
        omega
  unfold InInt intMin intMax at fits
  -- No int reaches the ends where strtol holds its result.
  have held : max (-9223372036854775808) (min 9223372036854775807 value) = value := by omega
  rw [atoi, strtol, signed, held]
  exact Int.bmod_eq_of_le (by omega) (by omega)

/-- An int prints as at most ten digits after a sign. -/
theorem decimal_length {value : Int} (fits : InInt value) : (decimal value).length ≤ 11 := by
  unfold InInt intMin intMax at fits
  have digits : (Nat.toDigits 10 value.natAbs).length ≤ 10 :=
    (Nat.length_toDigits_le_iff (by decide) (by decide)).mpr (by omega)
  -- The sign adds one byte to the digits of the absolute value.
  rw [decimal, ascii, Int.toString_eq_repr, Int.repr_eq_if, List.length_map]
  by_cases negative : value < 0
  · rw [if_neg (by omega), String.toList_append, List.length_append,
      show (-value).toNat = value.natAbs by omega, Nat.toList_repr]
    have sign : "-".toList.length = 1 := rfl
    omega
  · rw [if_pos (by omega), show value.toNat = value.natAbs by omega, Nat.toList_repr]
    omega

example : atoi (ascii " -12x") = -12 := by decide

end CText
