import Mathlib.Data.List.Induction
import Nebula.Library.CText

/-! Lines read with fgets, and numbers read back with sscanf. -/

namespace CText

def newline : UInt8 := 10

/-- What a reader with some room takes from a stream, up to a newline, and what it leaves. -/
def lineOf : Nat → Bytes → Bytes × Bytes
  | 0, stream => ([], stream)
  | _ + 1, [] => ([], [])
  | room + 1, byte :: rest =>
    if byte = newline then ([byte], rest)
    else (byte :: (lineOf room rest).1, (lineOf room rest).2)

/-- fgets into a buffer of a size: the bytes it stores, or nothing at the end of the stream. -/
def fgets (size : Nat) (stream : Bytes) : Option (Bytes × Bytes) :=
  if stream = [] then none else some (lineOf (size - 1) stream)

/-- The lines of at most a number of calls of fgets. -/
def fgetsWithin (size : Nat) : Nat → Bytes → List Bytes
  | 0, _ => []
  | calls + 1, stream =>
    match fgets size stream with
    | none => []
    | some (line, rest) => line :: fgetsWithin size calls rest

/-- What fgets stores, call after call, until the end of a stream. -/
def fgetsAll (size : Nat) (stream : Bytes) : List Bytes := fgetsWithin size stream.length stream

/-- strstr: the text from the first occurrence of a literal on. -/
def strstr (literal : String) : Bytes → Option Bytes
  | [] => if ascii literal = [] then some [] else none
  | byte :: rest =>
    if startsWith literal (byte :: rest) then some (byte :: rest) else strstr literal rest

/-- One part of a format of sscanf. -/
inductive Directive where
  | text (literal : Bytes)
  | int
  deriving DecidableEq, Repr

/-- Match the bytes of a format, in which a blank stands for any number of blanks. -/
def scanText : Bytes → Bytes → Option Bytes
  | [], text => some text
  | byte :: format, text =>
    if isSpace byte then scanText format (text.dropWhile isSpace)
    else
      match text with
      | [] => none
      | first :: rest => if first = byte then scanText format rest else none

/-- The text behind an optional sign. -/
def afterSign : Bytes → Bytes
  | [] => []
  | first :: rest => if first = ch '-' ∨ first = ch '+' then rest else first :: rest

/-- The "%d" conversion: blanks, a sign and at least one digit. -/
def scanInt (text : Bytes) : Option (Int × Bytes) :=
  let number := text.dropWhile isSpace
  match afterSign number with
  | [] => none
  | first :: rest =>
    if isDigit first then some (atoi number, (first :: rest).dropWhile isDigit) else none

/-- sscanf: the numbers it has stored when the format ends or stops matching. -/
def sscanf : List Directive → Bytes → List Int
  | [], _ => []
  | .text literal :: format, text =>
    match scanText literal text with
    | none => []
    | some rest => sscanf format rest
  | .int :: format, text =>
    match scanInt text with
    | none => []
    | some (value, rest) => value :: sscanf format rest

/-- A text that is empty or ends a line. -/
def Ended (content : Bytes) : Prop := content = [] ∨ ∃ line, content = line ++ [newline]

/-- What is taken and what is left make up the stream. -/
theorem lineOf_append (room : Nat) (stream : Bytes) :
    (lineOf room stream).1 ++ (lineOf room stream).2 = stream := by
  -- The reader takes one byte after the other until its room is used up.
  induction room generalizing stream with
  | zero => rfl
  | succ room ih =>
    cases stream with
    | nil => rfl
    | cons byte rest =>
      rw [lineOf]
      split
      · rfl
      · exact congrArg (byte :: ·) (ih rest)

theorem length_lineOf_le (room : Nat) (stream : Bytes) : (lineOf room stream).1.length ≤ room := by
  -- Each byte that is taken uses up one place.
  induction room generalizing stream with
  | zero => exact Nat.le_refl _
  | succ room ih =>
    cases stream with
    | nil => exact Nat.zero_le _
    | cons byte rest =>
      rw [lineOf]
      split
      · exact Nat.succ_le_succ (Nat.zero_le _)
      · exact Nat.succ_le_succ (ih rest)

/-- fgets leaves room for a terminator. -/
theorem length_fgets {size : Nat} {stream line rest : Bytes} (read : fgets size stream = some (line, rest)) :
    line.length ≤ size - 1 := by
  rw [fgets] at read
  split at read
  · cases read
  · have taken := congrArg Prod.fst (Option.some.inj read)
    -- The bytes that are stored are those that the reader has taken.
    rw [← show (lineOf (size - 1) stream).1 = line from taken]
    exact length_lineOf_le _ _

/-- What fgets stores and what it leaves make up the stream. -/
theorem append_fgets {size : Nat} {stream line rest : Bytes} (read : fgets size stream = some (line, rest)) :
    line ++ rest = stream := by
  rw [fgets] at read
  split at read
  · cases read
  · have parts := lineOf_append (size - 1) stream
    rw [Option.some.inj read] at parts
    exact parts

/-- A line ends at its first newline, if it has one. -/
theorem newline_notMem_dropLast {size : Nat} {stream line rest : Bytes}
    (read : fgets size stream = some (line, rest)) : newline ∉ line.dropLast := by
  rw [fgets] at read
  split at read
  · cases read
  · rename_i more
    have taken := congrArg Prod.fst (Option.some.inj read)
    rw [← show (lineOf (size - 1) stream).1 = line from taken]
    generalize size - 1 = room
    clear read taken more
    induction room generalizing stream with
    | zero => exact List.not_mem_nil
    | succ room ih =>
      cases stream with
      | nil => exact List.not_mem_nil
      | cons byte bytes =>
        rw [lineOf]
        split
        · exact List.not_mem_nil
        · -- A byte before the last one is not the newline, or the reader would have stopped.
          rename_i apart
          by_cases last : (lineOf room bytes).1 = []
          · rw [last]
            exact List.not_mem_nil
          · rw [List.dropLast_cons_of_ne_nil last, List.mem_cons, not_or]
            exact ⟨Ne.symm apart, ih⟩

/-- What ends a line only as its last byte ends the C string of the line only so. -/
theorem notMem_dropLast_cstring {line : Bytes} {byte : UInt8} (ends : byte ∉ line.dropLast) :
    byte ∉ (cstring line).dropLast := by
  obtain ⟨behind, split⟩ := cstring_begins line
  intro member
  refine ends ?_
  -- The C string is the line, or there is more of the line behind it.
  by_cases last : behind = []
  · rw [last, List.append_nil] at split
    exact split ▸ member
  · rw [← split, List.dropLast_append_of_ne_nil last]
    exact List.mem_append_left _ (List.mem_of_mem_dropLast member)

/-- With room for it, a line is taken whole, its newline included. -/
theorem lineOf_line {line : Bytes} (plain : newline ∉ line) {room : Nat} (short : line.length < room)
    (rest : Bytes) : lineOf room (line ++ newline :: rest) = (line ++ [newline], rest) := by
  -- No byte before the newline stops the reader.
  induction line generalizing room with
  | nil =>
    obtain ⟨room, rfl⟩ := Nat.exists_eq_add_one_of_ne_zero (Nat.pos_iff_ne_zero.mp short)
    simp [lineOf]
  | cons byte line ih =>
    obtain ⟨first, later⟩ := not_or.mp (fun member => plain (List.mem_cons.mpr member))
    obtain ⟨room, rfl⟩ := Nat.exists_eq_add_one_of_ne_zero (Nat.pos_iff_ne_zero.mp
      (Nat.lt_of_le_of_lt (Nat.zero_le _) short))
    have rest := ih later (Nat.lt_of_succ_lt_succ short)
    rw [List.cons_append, lineOf, if_neg (Ne.symm first), rest]
    rfl

/-- A reader with room makes some progress in a stream that is not at its end. -/
theorem length_rest_lt {room : Nat} (positive : 0 < room) {stream : Bytes} (more : stream ≠ []) :
    (lineOf room stream).2.length < stream.length := by
  have parts := congrArg List.length (lineOf_append room stream)
  rw [List.length_append] at parts
  -- The part that is taken is not empty.
  have taken : 0 < (lineOf room stream).1.length := by
    obtain ⟨room, rfl⟩ := Nat.exists_eq_add_one_of_ne_zero (Nat.pos_iff_ne_zero.mp positive)
    cases stream with
    | nil => exact absurd rfl more
    | cons byte rest =>
      rw [lineOf]
      split
      · exact Nat.one_pos
      · exact Nat.succ_pos _
  omega

/-- A stream is read line by line, and each call leaves a shorter one. -/
theorem fgets_induction {size : Nat} (fits : 2 ≤ size) {motive : Bytes → Prop} (nil : motive [])
    (line : ∀ stream, stream ≠ [] → motive (lineOf (size - 1) stream).2 → motive stream) (stream : Bytes) :
    motive stream := by
  induction length : stream.length using Nat.strong_induction_on generalizing stream with
  | _ _ ih =>
    by_cases none : stream = []
    · rw [none]
      exact nil
    · have progress := length_rest_lt (by omega : 0 < size - 1) none
      exact line stream none (ih _ (length ▸ progress) _ rfl)

/-- Calls beyond the end of the stream read nothing. -/
private theorem fgetsWithin_enough {size : Nat} (fits : 2 ≤ size) {calls : Nat} {stream : Bytes}
    (enough : stream.length ≤ calls) : fgetsWithin size calls stream = fgetsAll size stream := by
  have general : ∀ calls more, stream.length ≤ calls → stream.length ≤ more →
      fgetsWithin size calls stream = fgetsWithin size more stream := by
    induction stream using fgets_induction fits with
    | nil =>
      intro calls more _ _
      cases calls <;> cases more <;> simp [fgetsWithin, fgets]
    | line stream some ih =>
      intro calls more enough enough'
      -- One call leaves less to read for the others.
      have progress := length_rest_lt (by omega : 0 < size - 1) some
      obtain ⟨calls, rfl⟩ := Nat.exists_eq_add_one_of_ne_zero (by omega : calls ≠ 0)
      obtain ⟨more, rfl⟩ := Nat.exists_eq_add_one_of_ne_zero (by omega : more ≠ 0)
      simp only [fgetsWithin, fgets, if_neg some]
      rw [ih (by omega) calls more (by omega) (by omega)]
  exact general calls stream.length enough (Nat.le_refl _)

@[simp] theorem fgetsAll_nil (size : Nat) : fgetsAll size [] = [] := rfl

/-- Reading a stream to its end is reading one line and then the rest. -/
theorem fgetsAll_cons {size : Nat} (fits : 2 ≤ size) {stream : Bytes} (more : stream ≠ []) :
    fgetsAll size stream =
      (lineOf (size - 1) stream).1 :: fgetsAll size (lineOf (size - 1) stream).2 := by
  have progress := length_rest_lt (by omega : 0 < size - 1) more
  have positive : stream.length ≠ 0 := fun none => more (List.length_eq_zero_iff.mp none)
  -- The bound on the calls is the length of the stream, so it is not used up before the end.
  obtain ⟨calls, length⟩ := Nat.exists_eq_add_one_of_ne_zero positive
  rw [fgetsAll, length, fgetsWithin, fgets, if_neg more]
  dsimp only
  rw [fgetsWithin_enough fits (by omega)]

/-- A line that fits is read by itself. -/
theorem fgetsAll_line {size : Nat} {line : Bytes} (plain : newline ∉ line)
    (short : line.length + 1 < size) (rest : Bytes) :
    fgetsAll size (line ++ newline :: rest) = (line ++ [newline]) :: fgetsAll size rest := by
  rw [fgetsAll_cons (by omega) (by simp), lineOf_line plain (by omega)]

/-- Behind an ended text, a reader takes from the text what it would take without what follows. -/
private theorem lineOf_ended {content : Bytes} (ended : Ended content) (more : content ≠ [])
    (room : Nat) (text : Bytes) :
    lineOf room (content ++ text) = ((lineOf room content).1, (lineOf room content).2 ++ text) ∧
      Ended (lineOf room content).2 := by
  induction room generalizing content with
  | zero => exact ⟨rfl, ended⟩
  | succ room ih =>
    cases content with
    | nil => exact absurd rfl more
    | cons byte rest =>
      -- Behind a byte that is no newline there is still the newline at the end.
      have restEnded : byte ≠ newline → Ended rest ∧ rest ≠ [] := by
        intro apart
        obtain none | ⟨line, whole⟩ := ended
        · cases none
        · cases line with
          | nil => exact absurd (List.cons.inj whole).1 apart
          | cons first line =>
            have tail := (List.cons.inj whole).2
            exact ⟨Or.inr ⟨line, tail⟩, by simp [tail]⟩
      by_cases ends : byte = newline
      · rw [List.cons_append, lineOf, lineOf, if_pos ends, if_pos ends]
        refine ⟨rfl, ?_⟩
        -- What follows the first newline is empty or ends with another one.
        obtain none | ⟨line, whole⟩ := ended
        · cases none
        · cases line with
          | nil => exact Or.inl (List.cons.inj whole).2
          | cons first line => exact Or.inr ⟨line, (List.cons.inj whole).2⟩
      · obtain ⟨here, later⟩ := ih (restEnded ends).1 (restEnded ends).2
        rw [List.cons_append, lineOf, lineOf, if_neg ends, if_neg ends, here]
        exact ⟨rfl, later⟩

/-- Behind an ended text the lines of what follows are read as they would be by themselves. -/
theorem fgetsAll_append {size : Nat} (fits : 2 ≤ size) {content : Bytes} (ended : Ended content)
    (text : Bytes) : fgetsAll size (content ++ text) = fgetsAll size content ++ fgetsAll size text := by
  induction content using fgets_induction fits with
  | nil => rfl
  | line content some ih =>
    -- The first line is the same, and the rest is ended again.
    obtain ⟨first, restEnded⟩ := lineOf_ended ended some (size - 1) text
    rw [fgetsAll_cons fits (List.append_ne_nil_of_left_ne_nil some text), first, fgetsAll_cons fits some,
      List.cons_append]
    dsimp only
    rw [ih restEnded]

/-- The lines read make up the stream. -/
theorem flatten_fgetsAll {size : Nat} (fits : 2 ≤ size) (stream : Bytes) :
    (fgetsAll size stream).flatten = stream := by
  induction stream using fgets_induction fits with
  | nil => rfl
  | line stream some ih => rw [fgetsAll_cons fits some, List.flatten_cons, ih, lineOf_append]

/-- Every line read is a part of the stream. -/
theorem infix_of_mem_fgetsAll {size : Nat} (fits : 2 ≤ size) {stream line : Bytes}
    (read : line ∈ fgetsAll size stream) : line <:+: stream := by
  rw [← flatten_fgetsAll fits stream]
  exact List.infix_of_mem_flatten read

/-- A line that a buffer of a size holds whole, its newline included. -/
def WholeLine (size : Nat) (line : Bytes) : Prop :=
  ∃ body, line = body ++ [newline] ∧ newline ∉ body ∧ body.length + 1 < size

/-- Ended texts that are written one behind the other are read one by one. -/
theorem fgetsAll_ended {size : Nat} (fits : 2 ≤ size) {texts : List Bytes}
    (ended : ∀ text ∈ texts, Ended text) :
    fgetsAll size texts.flatten = (texts.map (fgetsAll size)).flatten := by
  induction texts with
  | nil => rfl
  | cons text texts ih =>
    rw [List.flatten_cons, fgetsAll_append fits (ended text List.mem_cons_self),
      ih fun other member => ended other (List.mem_cons_of_mem _ member)]
    rfl

/-- What follows the first line of an ended text is ended too. -/
theorem Ended.rest {body rest : Bytes} (ended : Ended (body ++ newline :: rest)) : Ended rest := by
  -- The rest is empty, or has the last byte of the whole, which is a newline.
  cases rest using List.reverseRecOn with
  | nil => exact Or.inl rfl
  | append_singleton rest byte _ =>
    obtain none | ⟨line, whole⟩ := ended
    · cases body <;> cases none
    · have ends : (body ++ newline :: rest) ++ [byte] = line ++ [newline] := by
        rw [← whole, List.append_assoc, List.cons_append]
      have last := (List.append_inj' ends rfl).2
      exact Or.inr ⟨rest, by rw [last]⟩

/-- A short text that ends a line is read as whole lines. -/
theorem wholeLine_of_short {size bound : Nat} (large : 2 ≤ size) (fits : bound ≤ size) {content : Bytes}
    (ended : Ended content) (short : content.length < bound) :
    ∀ line ∈ fgetsAll size content, WholeLine bound line := by
  induction content using fgets_induction large with
  | nil => exact fun line read => absurd read List.not_mem_nil
  | line content some ih =>
    -- A text that is ended and not empty has a newline, and the first one ends the first line.
    have more : newline ∈ content := by
      obtain rfl | ⟨last, rfl⟩ := ended
      · exact absurd rfl some
      · exact List.mem_append_right last (List.mem_singleton_self newline)
    obtain ⟨body, rest, rfl, plain⟩ := List.eq_append_cons_of_mem more
    rw [List.length_append, List.length_cons] at short
    rw [lineOf_line plain (by omega)] at ih
    rw [fgetsAll_line plain (by omega)]
    intro line read
    rcases List.mem_cons.mp read with rfl | later
    · exact ⟨body, rfl, plain, by omega⟩
    · exact ih ended.rest (by dsimp only; omega) line later

/-- Whole lines that are written one behind the other are read as they were written. -/
theorem fgetsAll_flatten {size : Nat} {lines : List Bytes} (whole : ∀ line ∈ lines, WholeLine size line) :
    fgetsAll size lines.flatten = lines := by
  induction lines with
  | nil => rfl
  | cons line lines ih =>
    obtain ⟨body, rfl, plain, short⟩ := whole line List.mem_cons_self
    rw [List.flatten_cons, List.append_assoc, List.singleton_append, fgetsAll_line plain short,
      ih fun other member => whole other (List.mem_cons_of_mem _ member)]

/-- Texts that end lines end lines together. -/
theorem Ended.append {content text : Bytes} (ended : Ended content) (ended' : Ended text) :
    Ended (content ++ text) := by
  obtain rfl | ⟨line, rfl⟩ := ended'
  · rw [List.append_nil]
    exact ended
  · exact Or.inr ⟨content ++ line, by rw [List.append_assoc]⟩

theorem ended_nil : Ended [] := Or.inl rfl

theorem ended_line (line : Bytes) : Ended (line ++ [newline]) := Or.inr ⟨line, rfl⟩

/-- A number is read up to the first byte that is no digit. -/
theorem leadingNat_append {digits rest : Bytes} (decimals : ∀ byte ∈ digits, isDigit byte = true)
    (stops : ∀ byte ∈ rest.head?, isDigit byte = false) : leadingNat (digits ++ rest) = leadingNat digits := by
  -- Taking digits from the whole text ends where the digits end.
  have whole : (digits ++ rest).takeWhile isDigit = digits := by
    rw [List.takeWhile_append_of_pos decimals]
    cases rest with
    | nil => simp
    | cons byte rest => simp [stops byte rfl]
  have alone : digits.takeWhile isDigit = digits := List.takeWhile_eq_self_iff.mpr decimals
  rw [leadingNat, leadingNat, whole, alone]

/-- "%d" reads back a number that was printed, up to the first byte behind it that is no digit. -/
theorem scanInt_decimal {value : Int} (fits : InInt value) (rest : Bytes)
    (stops : ∀ byte ∈ rest.head?, isDigit byte = false) :
    scanInt (decimal value ++ rest) = some (value, rest) := by
  obtain ⟨digits, nonempty, decimals, -, printed⟩ := decimal_eq value
  obtain ⟨first, others, rfl⟩ := List.exists_cons_of_ne_nil nonempty
  obtain ⟨blank, minus, plus, -, -⟩ := isDigit_apart (decimals first List.mem_cons_self)
  -- The digits of the number are dropped, and nothing else.
  have behind : (first :: (others ++ rest)).dropWhile isDigit = rest := by
    rw [← List.cons_append, List.dropWhile_append_of_pos decimals]
    cases rest with
    | nil => rfl
    | cons byte rest => simp [stops byte rfl]
  have number := leadingNat_append decimals stops
  rw [List.cons_append] at number
  have digit := decimals first List.mem_cons_self
  have read := atoi_decimal fits
  -- The reader meets the sign, if there is one, and then the first digit.
  by_cases negative : value < 0
  · rw [if_pos negative] at printed
    rw [printed, atoi, strtol, List.dropWhile_cons_of_neg (by decide), leadingInt, if_pos rfl] at read
    rw [printed, scanInt, List.cons_append, List.cons_append, List.dropWhile_cons_of_neg (by decide)]
    simp only [afterSign, true_or, ↓reduceIte, digit, behind, atoi, strtol,
      List.dropWhile_cons_of_neg (show ¬ isSpace (ch '-') = true by decide), leadingInt, number, read]
  · rw [if_neg negative] at printed
    have skip : ∀ others, List.dropWhile isSpace (first :: others) = first :: others := by
      intro others
      exact List.dropWhile_cons_of_neg (by simp [blank])
    rw [printed, atoi, strtol, skip, leadingInt, if_neg minus, if_neg plus] at read
    rw [printed, scanInt, List.cons_append, skip]
    simp only [afterSign, minus, plus, or_self, ↓reduceIte, digit, behind, atoi, strtol, skip,
      leadingInt, number, read]

/-- A text that one line of a file can hold. -/
def Printable (text : Bytes) : Prop := ∀ byte ∈ text, byte ≠ 0 ∧ byte ≠ newline

instance (text : Bytes) : Decidable (Printable text) := inferInstanceAs (Decidable (∀ byte ∈ text, _))

theorem Printable.cons {byte : UInt8} (plain : byte ≠ 0 ∧ byte ≠ newline) {text : Bytes}
    (printable : Printable text) : Printable (byte :: text) :=
  List.forall_mem_cons.mpr ⟨plain, printable⟩

theorem Printable.append {text more : Bytes} (plain : Printable text) (plain' : Printable more) :
    Printable (text ++ more) := by
  intro byte member
  rcases List.mem_append.mp member with here | there
  · exact plain byte here
  · exact plain' byte there

/-- A printed number consists of a sign and digits. -/
theorem decimal_bytes (value : Int) : ∀ byte ∈ decimal value, byte = ch '-' ∨ isDigit byte = true := by
  obtain ⟨digits, -, decimals, -, printed⟩ := decimal_eq value
  rw [printed]
  intro byte member
  split at member
  · exact (List.mem_cons.mp member).imp id fun inDigits => decimals byte inDigits
  · exact Or.inr (decimals byte member)

theorem printable_decimal (value : Int) : Printable (decimal value) := by
  intro byte member
  refine ⟨(decimal_plain value byte member).1, ?_⟩
  rintro rfl
  exact absurd (decimal_bytes value newline member) (by decide)

/-- A text without a terminator in it is the C string that a buffer with it holds. -/
theorem cstring_plain {text : Bytes} (plain : ∀ byte ∈ text, byte ≠ 0) : cstring text = text :=
  cstring_of_notMem fun zero => plain 0 zero rfl

/-- A format text without blanks matches itself. -/
theorem scanText_self {literal : Bytes} (plain : ∀ byte ∈ literal, isSpace byte = false) (rest : Bytes) :
    scanText literal (literal ++ rest) = some rest := by
  induction literal with
  | nil => rfl
  | cons byte literal ih =>
    have here := plain byte List.mem_cons_self
    rw [List.cons_append, scanText, if_neg (by simp [here]), if_pos rfl]
    exact ih fun other member => plain other (List.mem_cons_of_mem _ member)

/-- A text without the first byte of a literal is passed over. -/
theorem strstr_skip {literal : String} (first : UInt8) (others : Bytes)
    (spelled : ascii literal = first :: others) {before : Bytes} (absent : first ∉ before)
    (text : Bytes) : strstr literal (before ++ text) = strstr literal text := by
  induction before with
  | nil => rfl
  | cons byte before ih =>
    obtain ⟨apart, later⟩ := not_or.mp (fun member => absent (List.mem_cons.mpr member))
    -- The literal does not start at a byte that is not its first.
    have misses : startsWith literal (byte :: (before ++ text)) = false := by
      rw [startsWith, spelled, List.isPrefixOf_cons_cons]
      simp [apart]
    rw [List.cons_append, strstr, misses]
    exact ih later

/-- A literal with no separator before its own occurs around a separator or behind it. -/
theorem infix_separated {separator : UInt8} {head tail before after : Bytes}
    (plain : separator ∉ before) (fresh : separator ∉ head) :
    head ++ separator :: tail <:+: before ++ separator :: after ↔
      (head <:+ before ∧ tail <+: after) ∨ head ++ separator :: tail <:+: after := by
  constructor
  · intro ⟨ahead, behind, whole⟩
    -- The separator of the literal is the first one there is, or one behind it.
    have joined : (ahead ++ head) ++ separator :: (tail ++ behind) = before ++ separator :: after := by
      simpa using whole
    -- Either side of the equation may reach further to the right.
    rcases List.append_eq_append_iff.mp joined with ⟨rest, front, back⟩ | ⟨rest, front, back⟩
    · cases rest with
      | nil =>
        have here := List.cons.inj back
        exact Or.inl ⟨⟨ahead, by simpa using front.symm⟩, ⟨behind, here.2⟩⟩
      | cons byte rest =>
        have first := (List.cons.inj back).1
        exact absurd (by rw [front, first]; simp) plain
    · cases rest with
      | nil =>
        have here := List.cons.inj back
        exact Or.inl ⟨⟨ahead, by simpa using front⟩, ⟨behind, here.2.symm⟩⟩
      | cons byte rest =>
        obtain ⟨rfl, later⟩ := List.cons.inj back
        have later : after = rest ++ separator :: (tail ++ behind) := later
        -- Without a separator in it, the head lies behind the first one.
        have split : ahead ++ head = (before ++ [separator]) ++ rest := by simpa using front
        refine Or.inr ?_
        rcases List.append_eq_append_iff.mp split with ⟨more, before', head'⟩ | ⟨more, ahead', rest'⟩
        · have empty : more = [] := by
            by_contra some
            have last := congrArg List.getLast? before'
            rw [List.getLast?_concat, List.getLast?_append_of_ne_nil _ some] at last
            exact fresh (by rw [head']; exact List.mem_append_left _ (List.mem_of_getLast? last.symm))
          rw [empty, List.nil_append] at head'
          exact ⟨[], behind, by rw [later, head']; simp⟩
        · exact ⟨more, behind, by rw [later, rest']; simp⟩
  · intro around
    rcases around with ⟨⟨ahead, front⟩, ⟨behind, back⟩⟩ | within
    · exact ⟨ahead, behind, by rw [← front, ← back]; simp⟩
    · refine within.trans ⟨before ++ [separator], [], by simp⟩

end CText
