import Mathlib.Data.List.DropRight
import Nebula.Library.Stdio

/-! The lines of a text, which a newline ends, and what a reader with a buffer makes of them. -/

namespace CText

/-- The lines of a text, each with its newline, which the last one may lack. -/
def linesOf : Bytes → List Bytes
  | [] => []
  | byte :: rest =>
    if byte = newline then [byte] :: linesOf rest
    else
      let lines := linesOf rest
      (byte :: lines.headD []) :: lines.tail

/-- A text without a newline is one line. -/
theorem linesOf_unended {body : Bytes} (plain : newline ∉ body) (some : body ≠ []) : linesOf body = [body] := by
  -- Each byte is put in front of the line that the others make, the last one of no line.
  induction body with
  | nil => exact absurd rfl some
  | cons byte rest ih =>
    obtain ⟨first, later⟩ := not_or.mp (fun member => plain (List.mem_cons.mpr member))
    rw [linesOf, if_neg (Ne.symm first)]
    by_cases last : rest = []
    · rw [last, linesOf]
      rfl
    · rw [ih later last]
      rfl

/-- The first newline ends the first line. -/
theorem linesOf_line {body : Bytes} (plain : newline ∉ body) (rest : Bytes) :
    linesOf (body ++ newline :: rest) = (body ++ [newline]) :: linesOf rest := by
  induction body with
  | nil => simp [linesOf]
  | cons byte body ih =>
    obtain ⟨first, later⟩ := not_or.mp (fun member => plain (List.mem_cons.mpr member))
    rw [List.cons_append, linesOf, if_neg (Ne.symm first), ih later]
    rfl

/-- A text is empty, or a last line without a newline, or a line with one before another text. -/
theorem lines_induction {motive : Bytes → Prop} (nil : motive [])
    (last : ∀ body, newline ∉ body → body ≠ [] → motive body)
    (line : ∀ body rest, newline ∉ body → motive rest → motive (body ++ newline :: rest)) (text : Bytes) :
    motive text := by
  -- The induction is on the length, since what follows a newline is shorter.
  induction length : text.length using Nat.strong_induction_on generalizing text with
  | _ _ ih =>
    by_cases ends : newline ∈ text
    · obtain ⟨body, rest, rfl, plain⟩ := List.eq_append_cons_of_mem ends
      refine line body rest plain (ih rest.length ?_ rest rfl)
      rw [← length, List.length_append, List.length_cons]
      omega
    · by_cases none : text = []
      · rw [none]
        exact nil
      · exact last text ends none

/-- The lines make up the text. -/
theorem flatten_linesOf (text : Bytes) : (linesOf text).flatten = text := by
  induction text using lines_induction with
  | nil => rfl
  | last body plain some => rw [linesOf_unended plain some, List.flatten_singleton]
  | line body rest plain ih =>
    rw [linesOf_line plain, List.flatten_cons, ih, List.append_assoc, List.singleton_append]

/-- No line is empty. -/
theorem ne_nil_of_mem_linesOf {text line : Bytes} (member : line ∈ linesOf text) : line ≠ [] := by
  -- A line has its newline at least, but for a last one, which is not empty either.
  induction text using lines_induction with
  | nil => exact absurd member List.not_mem_nil
  | last body plain some =>
    rw [linesOf_unended plain some, List.mem_singleton] at member
    exact member ▸ some
  | line body rest plain ih =>
    rw [linesOf_line plain] at member
    rcases List.mem_cons.mp member with rfl | later
    · exact List.append_ne_nil_of_right_ne_nil body (List.cons_ne_nil _ _)
    · exact ih later

/-- The later lines of a text are the lines of what they make up. -/
theorem linesOf_drop (text : Bytes) (number : Nat) :
    linesOf ((linesOf text).drop number).flatten = (linesOf text).drop number := by
  -- Nothing is left of a single line, and of several the first one goes.
  induction text using lines_induction generalizing number with
  | nil => simp [linesOf]
  | last body plain some =>
    rw [linesOf_unended plain some]
    cases number with
    | zero => rw [List.drop_zero, List.flatten_singleton, linesOf_unended plain some]
    | succ number => simp [linesOf]
  | line body rest plain ih =>
    cases number with
    | zero => rw [List.drop_zero, flatten_linesOf]
    | succ number => rw [linesOf_line plain, List.drop_succ_cons, ih]

/-- A reader takes the lines one by one, each in the pieces it would make of that line alone. -/
theorem fgetsAll_linesOf {size : Nat} (fits : 2 ≤ size) (text : Bytes) :
    fgetsAll size text = (linesOf text).flatMap (fgetsAll size) := by
  induction text using lines_induction with
  | nil => rfl
  | last body plain some => rw [linesOf_unended plain some, List.flatMap_singleton]
  | line body rest plain ih =>
    -- Behind a newline the reader starts as at the beginning of a stream.
    have split : body ++ newline :: rest = (body ++ [newline]) ++ rest := by
      rw [List.append_assoc, List.singleton_append]
    rw [linesOf_line plain, List.flatMap_cons, ← ih, split, fgetsAll_append fits (ended_line body)]

/-- Without a newline in it a stream that fits the room is taken to its end. -/
theorem lineOf_unended {line : Bytes} (plain : newline ∉ line) {room : Nat} (short : line.length ≤ room) :
    lineOf room line = (line, []) := by
  -- Byte by byte, neither a newline nor the end of the room is met.
  induction line generalizing room with
  | nil => cases room <;> rfl
  | cons byte rest ih =>
    obtain ⟨first, later⟩ := not_or.mp (fun member => plain (List.mem_cons.mpr member))
    cases room with
    | zero => exact absurd short (Nat.not_succ_le_zero _)
    | succ room => rw [lineOf, if_neg (Ne.symm first), ih later (Nat.le_of_succ_le_succ short)]

/-- Bytes that fill the room are taken, whatever stands behind them. -/
theorem lineOf_full {body : Bytes} (plain : newline ∉ body) (rest : Bytes) :
    lineOf body.length (body ++ rest) = (body, rest) := by
  -- The room ends together with the bytes.
  induction body with
  | nil => rfl
  | cons byte body ih =>
    obtain ⟨first, later⟩ := not_or.mp (fun member => plain (List.mem_cons.mpr member))
    rw [List.cons_append, List.length_cons, lineOf, if_neg (Ne.symm first), ih later]

/-- A line that the buffer holds is one piece. -/
theorem fgetsAll_short {size : Nat} {text line : Bytes} (member : line ∈ linesOf text)
    (short : line.length < size) : fgetsAll size line = [line] := by
  have some := ne_nil_of_mem_linesOf member
  have positive := List.length_pos_iff.mpr some
  -- The reader stops at the newline, or at the end of the stream.
  have taken : lineOf (size - 1) line = (line, []) := by
    induction text using lines_induction with
    | nil => exact absurd member List.not_mem_nil
    | last body plain more =>
      rw [linesOf_unended plain more, List.mem_singleton] at member
      exact lineOf_unended (member ▸ plain) (by omega)
    | line body rest plain ih =>
      rw [linesOf_line plain] at member
      rcases List.mem_cons.mp member with rfl | later
      · rw [List.length_append, List.length_singleton] at short
        exact lineOf_line plain (by omega) []
      · exact ih later
  rw [fgetsAll_cons (by omega) some, taken, fgetsAll_nil]

/-- Where each line fits the buffer, what a reader takes are the lines. -/
theorem fgetsAll_eq_linesOf {size : Nat} (fits : 2 ≤ size) {text : Bytes}
    (short : ∀ line ∈ linesOf text, line.length < size) : fgetsAll size text = linesOf text := by
  rw [fgetsAll_linesOf fits, List.flatMap_congr fun line member => fgetsAll_short member (short line member),
    List.flatMap_singleton']

/-- Each piece leaves room for a terminator in the buffer. -/
theorem length_of_mem_fgetsAll {size : Nat} (fits : 2 ≤ size) {stream piece : Bytes}
    (member : piece ∈ fgetsAll size stream) : piece.length < size := by
  -- It is what the next call takes, or a later one does.
  induction stream using fgets_induction fits with
  | nil => exact absurd member List.not_mem_nil
  | line stream some ih =>
    rw [fgetsAll_cons fits some] at member
    rcases List.mem_cons.mp member with rfl | later
    · have taken := length_lineOf_le (size - 1) stream
      omega
    · exact ih later

/-- Something is read of whatever there is. -/
theorem fgetsAll_ne_nil {size : Nat} (fits : 2 ≤ size) {stream : Bytes} (some : stream ≠ []) :
    fgetsAll size stream ≠ [] := by
  rw [fgetsAll_cons fits some]
  exact List.cons_ne_nil _ _

/-- What is read in one piece has room in the buffer. -/
theorem length_lt_of_single {size : Nat} (fits : 2 ≤ size) {stream : Bytes}
    (single : (fgetsAll size stream).length = 1) : stream.length < size := by
  obtain ⟨only, one⟩ := List.length_eq_one_iff.mp single
  have whole := flatten_fgetsAll fits stream
  rw [one, List.flatten_singleton] at whole
  rw [← whole]
  exact length_of_mem_fgetsAll fits (one ▸ List.mem_singleton_self only)

/-- What is somewhere in a stream is in one of its pieces. -/
theorem any_fgetsAll {size : Nat} (fits : 2 ≤ size) {stream : Bytes} {test : UInt8 → Bool}
    (some : stream.any test = true) : ∃ piece ∈ fgetsAll size stream, piece.any test = true := by
  obtain ⟨byte, inside, found⟩ := List.any_eq_true.mp some
  -- The pieces make up the stream.
  rw [← flatten_fgetsAll fits stream] at inside
  obtain ⟨piece, read, member⟩ := List.mem_flatten.mp inside
  exact ⟨piece, read, List.any_eq_true.mpr ⟨byte, member, found⟩⟩

/-- Only the last byte of a piece can be a newline. -/
theorem newline_notMem_of_mem_fgetsAll {size : Nat} (fits : 2 ≤ size) {stream piece : Bytes}
    (member : piece ∈ fgetsAll size stream) : newline ∉ piece.dropLast := by
  -- Each piece comes from one call, which stops behind a newline.
  induction stream using fgets_induction fits with
  | nil => exact absurd member List.not_mem_nil
  | line stream some ih =>
    rw [fgetsAll_cons fits some] at member
    rcases List.mem_cons.mp member with rfl | later
    · have read : fgets size stream = Option.some ((lineOf (size - 1) stream).1, (lineOf (size - 1) stream).2) := by
        rw [fgets, if_neg some]
      exact newline_notMem_dropLast read
    · exact ih later

/-- Bodies that are written with a newline behind each are read back as lines. -/
theorem linesOf_bodies {bodies : List Bytes} (plain : ∀ body ∈ bodies, newline ∉ body) :
    linesOf (bodies.map (· ++ [newline])).flatten = bodies.map (· ++ [newline]) := by
  induction bodies with
  | nil => rfl
  | cons body rest ih =>
    rw [List.map_cons, List.flatten_cons, List.append_assoc, List.singleton_append,
      linesOf_line (plain body List.mem_cons_self), ih fun other member => plain other (List.mem_cons_of_mem _ member)]

/-- The body of a line, without its newline. -/
def bodyOf (line : Bytes) : Bytes := line.takeWhile (· != newline)

/-- Newlines behind a text do not make its body longer. -/
theorem length_bodyOf_le (text : Bytes) {rest : Bytes} (newlines : ∀ byte ∈ rest, byte = newline) :
    (bodyOf (text ++ rest)).length ≤ text.length := by
  have none : rest.takeWhile (· != newline) = [] := by
    cases rest with
    | nil => rfl
    | cons byte rest => simp [newlines byte List.mem_cons_self]
  rw [bodyOf, List.takeWhile_append, none, List.append_nil]
  split
  · exact Nat.le_refl _
  · exact (List.takeWhile_prefix _).length_le

/-- If only newlines are read behind the first piece, the body of the line has room in the buffer. -/
theorem length_bodyOf_lt {size : Nat} (fits : 2 ≤ size) {line piece : Bytes} {others : List Bytes}
    (pieces : fgetsAll size line = piece :: others)
    (blanks : ∀ other ∈ others, other.any (· != newline) = false) : (bodyOf line).length < size := by
  -- What is behind the first piece makes the body no longer.
  have newlines : ∀ byte ∈ others.flatten, byte = newline := by
    intro byte member
    obtain ⟨other, listed, inside⟩ := List.mem_flatten.mp member
    by_contra differs
    exact List.any_eq_false.mp (blanks other listed) byte inside (bne_iff_ne.mpr differs)
  have whole := flatten_fgetsAll fits line
  rw [pieces, List.flatten_cons] at whole
  have bound := length_bodyOf_le piece newlines
  rw [whole] at bound
  have first := length_of_mem_fgetsAll fits (pieces ▸ List.mem_cons_self)
  exact Nat.lt_of_le_of_lt bound first

/-- A line is its body, and a newline behind it unless it is the last one. -/
theorem line_cases {text line : Bytes} (member : line ∈ linesOf text) :
    newline ∉ bodyOf line ∧ (line = bodyOf line ++ [newline] ∨ line = bodyOf line ∧ line ≠ []) := by
  have plain : newline ∉ bodyOf line := fun inside => absurd (List.mem_takeWhile_imp inside) (by decide)
  -- A text without a newline is its own body.
  have whole : ∀ body, newline ∉ body → bodyOf body = body := fun body fresh =>
    List.takeWhile_eq_self_iff.mpr fun byte inside => bne_iff_ne.mpr fun same => fresh (same ▸ inside)
  refine ⟨plain, ?_⟩
  induction text using lines_induction with
  | nil => exact absurd member List.not_mem_nil
  | last body fresh some =>
    rw [linesOf_unended fresh some, List.mem_singleton] at member
    subst member
    exact Or.inr ⟨(whole line fresh).symm, some⟩
  | line body rest fresh ih =>
    rw [linesOf_line fresh] at member
    rcases List.mem_cons.mp member with rfl | later
    · -- The body ends where the newline stands.
      have inside : ∀ byte ∈ body, (byte != newline) = true := fun byte inside =>
        bne_iff_ne.mpr fun same => fresh (same ▸ inside)
      refine Or.inl ?_
      rw [bodyOf, List.takeWhile_append_of_pos inside]
      simp
    · exact ih later

/-- A line whose newline finds no room in the buffer is read as its body, and then the newline alone. -/
theorem fgetsAll_full {size : Nat} (fits : 2 ≤ size) {text line : Bytes} (member : line ∈ linesOf text)
    (body : (bodyOf line).length < size) (long : size ≤ line.length) :
    fgetsAll size line = [bodyOf line, [newline]] := by
  obtain ⟨plain, cases⟩ := line_cases member
  -- A line that was all body would have had room.
  have ended : line = bodyOf line ++ [newline] := by
    rcases cases with ended | ⟨last, -⟩
    · exact ended
    · rw [← last] at body
      exact absurd body (Nat.not_lt.mpr long)
  have exact : (bodyOf line).length = size - 1 := by
    have length := congrArg List.length ended
    rw [List.length_append, List.length_singleton] at length
    omega
  -- The first call is full with the body.
  have full := lineOf_full plain [newline]
  rw [exact] at full
  -- The second call finds the newline first.
  obtain ⟨room, some⟩ := Nat.exists_eq_add_of_le fits
  have alone : lineOf (size - 1) [newline] = ([newline], []) := by
    rw [some, show 2 + room - 1 = room + 1 by omega, lineOf, if_pos rfl]
  conv_lhs => rw [ended, fgetsAll_cons fits (by simp), full, fgetsAll_cons fits (by simp), alone, fgetsAll_nil]

/-- A line without any other byte is a newline. -/
theorem line_blank {text line : Bytes} (member : line ∈ linesOf text) (blank : line.any (· != newline) = false) :
    line = [newline] := by
  obtain ⟨fresh, cases⟩ := line_cases member
  rw [List.any_eq_false] at blank
  -- Any byte of the body would be one that is no newline.
  have empty : bodyOf line = [] := by
    refine List.eq_nil_iff_forall_not_mem.mpr fun byte inside => blank byte ?_ ?_
    · exact (List.takeWhile_prefix _).subset inside
    · exact bne_iff_ne.mpr fun same => fresh (same ▸ inside)
  rw [empty] at cases
  exact cases.resolve_right fun last => last.2 last.1

section Numbers

variable {α : Type*} {test : α → Bool}

/-- The numbers of the entries that pass a test, counted on from a first number. -/
def numbered (test : α → Bool) : Nat → List α → List Nat
  | _, [] => []
  | first, entry :: rest =>
    if test entry then first :: numbered test (first + 1) rest else numbered test (first + 1) rest

theorem numbered_append (first : Nat) (entries more : List α) :
    numbered test first (entries ++ more) =
      numbered test first entries ++ numbered test (first + entries.length) more := by
  induction entries generalizing first with
  | nil => rfl
  | cons entry rest ih =>
    have place : first + 1 + rest.length = first + (entry :: rest).length := by
      rw [List.length_cons]
      omega
    rw [List.cons_append, numbered, numbered, ih, place]
    split <;> rfl

theorem length_numbered (first : Nat) (entries : List α) :
    (numbered test first entries).length = entries.countP test := by
  induction entries generalizing first with
  | nil => rfl
  | cons entry rest ih =>
    rw [numbered, List.countP_cons]
    split <;> simp [*]

/-- The entries with the numbers are those that pass. -/
theorem mem_numbered {first : Nat} {entries : List α} {number : Nat} :
    number ∈ numbered test first entries ↔
      first ≤ number ∧ ∃ entry, entries[number - first]? = some entry ∧ test entry = true := by
  induction entries generalizing first with
  | nil => simp [numbered]
  | cons entry rest ih =>
    by_cases here : number = first
    · -- The first number is the first entry's, as the later ones are larger.
      subst here
      rw [numbered, Nat.sub_self, List.getElem?_cons_zero]
      have later : number ∉ numbered test (number + 1) rest := fun member =>
        absurd (ih.mp member).1 (Nat.not_succ_le_self _)
      cases passes : test entry with
      | true => simp [passes]
      | false => simp [passes, later]
    · -- Any other number is one of those behind, counted from the next one.
      have behind : (number ∈ numbered test first (entry :: rest)) ↔ number ∈ numbered test (first + 1) rest := by
        rw [numbered]
        split <;> simp [here]
      rw [behind, ih]
      constructor
      · rintro ⟨above, other, found, passes⟩
        rw [show number - first = (number - (first + 1)) + 1 by omega, List.getElem?_cons_succ]
        exact ⟨by omega, other, found, passes⟩
      · rintro ⟨above, other, found, passes⟩
        rw [show number - first = (number - (first + 1)) + 1 by omega, List.getElem?_cons_succ] at found
        exact ⟨by omega, other, found, passes⟩

/-- No number is given twice. -/
theorem nodup_numbered (first : Nat) (entries : List α) : (numbered test first entries).Nodup := by
  induction entries generalizing first with
  | nil => exact List.nodup_nil
  | cons entry rest ih =>
    rw [numbered]
    split
    · exact List.nodup_cons.mpr ⟨fun member => absurd (mem_numbered.mp member).1 (Nat.not_succ_le_self _), ih _⟩
    · exact ih _

theorem numbered_congr {test' : α → Bool} {first : Nat} {entries : List α}
    (same : ∀ entry ∈ entries, test entry = test' entry) :
    numbered test first entries = numbered test' first entries := by
  induction entries generalizing first with
  | nil => rfl
  | cons entry rest ih =>
    have later : ∀ other ∈ rest, test other = test' other := fun other member =>
      same other (List.mem_cons_of_mem _ member)
    rw [numbered, numbered, same entry List.mem_cons_self, ih later]

/-- If an entry passes at all, there is a last one that does. -/
theorem exists_last {entries : List α} (some : ∃ entry ∈ entries, test entry = true) :
    ∃ before entry later,
      entries = before ++ entry :: later ∧ test entry = true ∧ ∀ other ∈ later, test other = false := by
  -- The last one is behind the first entry, unless nothing behind it passes.
  induction entries with
  | nil =>
    obtain ⟨entry, member, -⟩ := some
    exact absurd member List.not_mem_nil
  | cons entry rest ih =>
    by_cases more : ∃ other ∈ rest, test other = true
    · obtain ⟨before, last, later, rfl, passes, others⟩ := ih more
      exact ⟨entry :: before, last, later, rfl, passes, others⟩
    · obtain ⟨passing, member, passes⟩ := some
      have none : ∀ other ∈ rest, test other = false := fun other member =>
        Bool.eq_false_iff.mpr fun passes => more ⟨other, member, passes⟩
      rcases List.mem_cons.mp member with rfl | inside
      · exact ⟨[], passing, rest, rfl, passes, none⟩
      · exact absurd ⟨passing, inside, passes⟩ more

/-- Blocks that have no more entries than there are blocks have one each. -/
theorem length_flatMap_le {β : Type*} {blocks : List α} {entries : α → List β}
    (some : ∀ block ∈ blocks, entries block ≠ []) :
    blocks.length ≤ (blocks.flatMap entries).length ∧
      ((blocks.flatMap entries).length ≤ blocks.length → ∀ block ∈ blocks, (entries block).length = 1) := by
  -- A block with more than one entry would need another one with none.
  induction blocks with
  | nil => exact ⟨Nat.le_refl _, fun _ block member => absurd member List.not_mem_nil⟩
  | cons block rest ih =>
    obtain ⟨many, single⟩ := ih fun other member => some other (List.mem_cons_of_mem _ member)
    have positive := List.length_pos_iff.mpr (some block List.mem_cons_self)
    rw [List.flatMap_cons, List.length_append, List.length_cons]
    refine ⟨by omega, fun few other member => ?_⟩
    rcases List.mem_cons.mp member with rfl | later
    · omega
    · exact single (by omega) other later

end Numbers

end CText
