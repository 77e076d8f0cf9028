import Mathlib.Algebra.GroupWithZero.Nat
import Nebula.Library.TextLines
import Nebula.Programs.Confinement

/-! The text search: it numbers what fgets reads, which are lines as long as they fit its buffer. -/

namespace Nebula

open CText

/-- tolower, for ASCII. -/
def toLower (byte : UInt8) : UInt8 := if ch 'A' ≤ byte ∧ byte ≤ ch 'Z' then byte + 32 else byte

/-- strcasestr: whether a keyword occurs in a text, in upper or lower case. -/
def strcasestr (text keyword : Bytes) : Bool := decide (keyword.map toLower <:+: text.map toLower)

/-- What text_search prints about a file: its name, and a line with its number. -/
inductive Shown where
  | header (name : Bytes)
  | line (number : Nat) (text : Bytes)
  deriving DecidableEq, Repr

def Shown.number? : Shown → Option Nat
  | .header _ => none
  | .line number _ => some number

/-- What the loop over a file has counted and printed. -/
structure Search where
  lineNum : Nat
  shownHeader : Bool
  total : Nat
  shown : List Shown

namespace Search

/-- One turn of the loop, for what fgets has read. -/
def read (keyword name : Bytes) (s : Search) (piece : Bytes) : Search :=
  let s := { s with lineNum := s.lineNum + 1 }
  let line := cstring piece
  if strcasestr line keyword then
    let header := if s.shownHeader then [] else [.header name]
    { s with
      shownHeader := true
      total := s.total + 1
      shown := s.shown ++ header ++ [.line s.lineNum line] }
  else s

/-- The numbers that were printed. -/
def numbers (s : Search) : List Nat := s.shown.filterMap Shown.number?

end Search

/-- The loop over a file, from the total of the files before. -/
def searchFile (keyword name file : Bytes) (total : Nat) : Search :=
  (fgetsAll 256 file).foldl (Search.read keyword name) ⟨0, false, total, []⟩

/-- One turn of the loop over the directory, with what can be read at a path. -/
def searchEntry (content : Bytes → Option Bytes) (keyword : Bytes) (found : Nat × List Shown) (name : Bytes) :
    Nat × List Shown :=
  if contains ".txt" name then
    match content (snprintf 256 (hddPath name)) with
    | none => found
    | some file =>
      let s := searchFile keyword name file found.1
      (s.total, found.2 ++ s.shown)
  else found

/-- The loop over the names in the directory: the total, and what is printed before it. -/
def searchDirectory (content : Bytes → Option Bytes) (keyword : Bytes) (names : List Bytes) : Nat × List Shown :=
  names.foldl (searchEntry content keyword) (0, [])

/-- text_search, for what is typed; without a keyword nothing is searched. -/
def textSearch (content : Bytes → Option Bytes) (names : List Bytes) (typed : Bytes) : Option (Nat × List Shown) :=
  match fgets 64 typed with
  | none => none
  | some (line, _) =>
    let keyword := chopped line
    if keyword.length = 0 then none else some (searchDirectory content keyword names)

/-- What can be typed as a keyword. -/
structure Keyword (keyword : Bytes) : Prop where
  some : keyword ≠ []
  short : keyword.length ≤ 62
  text : 0 ∉ keyword
  line : newline ∉ keyword

/-- The line of a number contains the keyword. -/
def Matches (keyword file : Bytes) (number : Nat) : Prop :=
  1 ≤ number ∧ ∃ line, (linesOf file)[number - 1]? = some line ∧ strcasestr (bodyOf line) keyword = true

/-- The loop over a file prints the numbers of the lines with the keyword, and counts these lines. -/
structure ReportsLines (keyword name file : Bytes) (total : Nat) : Prop where
  once : (searchFile keyword name file total).numbers.Nodup
  reported : ∀ number, number ∈ (searchFile keyword name file total).numbers ↔ Matches keyword file number
  counted : (searchFile keyword name file total).total =
    total + (linesOf file).countP fun line => strcasestr (bodyOf line) keyword

/--
No line has more than 255 bytes before its newline, and only empty lines stand behind one that has
255 of them.
-/
structure PiecesAreLines (file : Bytes) : Prop where
  short : ∀ line ∈ linesOf file, (bodyOf line).length ≤ 255
  alone : (linesOf file).Pairwise fun line later => line.length ≤ 255 ∨ later = [newline]

/-- What is typed is a keyword, unless nothing is left of it. -/
theorem keyword_chopped {typed line rest : Bytes} (read : fgets 64 typed = some (line, rest))
    (some : chopped line ≠ []) : Keyword (chopped line) := by
  have length := length_fgets read
  refine ⟨some, ?_, fun zero => ?_, fun inside => ?_⟩
  · rw [chopped, List.length_dropLast]
    have fits := (cstring_begins line).length_le
    omega
  · exact zero_notMem_cstring line (List.mem_of_mem_dropLast zero)
  · -- Only the last byte of a line can be a newline.
    exact notMem_dropLast_cstring (newline_notMem_dropLast read) inside

/-- Only a newline is a newline in lower case. -/
theorem toLower_eq_newline {byte : UInt8} (lower : toLower byte = newline) : byte = newline := by
  unfold toLower at lower
  split at lower
  · -- A letter is moved to another letter, so not to the newline.
    rename_i upper
    have low : (ch 'A').toNat ≤ byte.toNat := UInt8.le_iff_toNat_le.mp upper.1
    have high : byte.toNat ≤ (ch 'Z').toNat := UInt8.le_iff_toNat_le.mp upper.2
    have value : (byte + 32).toNat = newline.toNat := congrArg UInt8.toNat lower
    rw [UInt8.toNat_add] at value
    have first : (ch 'A').toNat = 65 := rfl
    have last : (ch 'Z').toNat = 90 := rfl
    have ends : newline.toNat = 10 := rfl
    have offset : (32 : UInt8).toNat = 32 := rfl
    omega
  · exact lower

/-- A keyword in a line is before its newline. -/
theorem strcasestr_newline {keyword : Bytes} (plain : newline ∉ keyword) (some : keyword ≠ []) (body : Bytes) :
    strcasestr (body ++ [newline]) keyword = strcasestr body keyword := by
  have ends : toLower newline = newline := by decide
  have lower : newline ∉ keyword.map toLower := fun member => by
    obtain ⟨byte, inside, same⟩ := List.mem_map.mp member
    exact plain (toLower_eq_newline same ▸ inside)
  rw [strcasestr, strcasestr, decide_eq_decide, List.map_append, List.map_singleton, ends, List.infix_concat_iff]
  -- At the end of the line the keyword would be empty or end with the newline.
  refine or_iff_right fun atEnd => ?_
  rcases List.suffix_concat_iff.mp atEnd with empty | ⟨before, split, -⟩
  · exact some (List.map_eq_nil_iff.mp empty)
  · rw [split] at lower
    exact lower (List.mem_append_right _ (List.mem_singleton_self _))

theorem strcasestr_bodyOf {keyword file line : Bytes} (typed : Keyword keyword) (member : line ∈ linesOf file) :
    strcasestr (bodyOf line) keyword = strcasestr line keyword := by
  rcases (line_cases member).2 with ended | ⟨last, -⟩
  · conv_rhs => rw [ended, strcasestr_newline typed.line typed.some]
  · rw [← last]

/-- Nothing contains no keyword. -/
theorem strcasestr_nil {keyword : Bytes} (typed : Keyword keyword) : strcasestr [] keyword = false := by
  rw [strcasestr, decide_eq_false_iff_not, List.map_nil, List.infix_nil, List.map_eq_nil_iff]
  exact typed.some

/-- A newline alone contains no keyword. -/
theorem strcasestr_blank {keyword : Bytes} (typed : Keyword keyword) : strcasestr [newline] keyword = false :=
  (strcasestr_newline typed.line typed.some []).trans (strcasestr_nil typed)

/-- The loop goes on from what it has counted and printed. -/
theorem foldl_read (keyword name : Bytes) (pieces : List Bytes) (s : Search) :
    (pieces.foldl (Search.read keyword name) s).numbers =
        s.numbers ++ numbered (fun piece => strcasestr (cstring piece) keyword) (s.lineNum + 1) pieces ∧
      (pieces.foldl (Search.read keyword name) s).total =
        s.total + pieces.countP fun piece => strcasestr (cstring piece) keyword := by
  induction pieces generalizing s with
  | nil => simp [numbered]
  | cons piece rest ih =>
    -- One piece is read, and the loop goes on from there.
    obtain ⟨numbers, total⟩ := ih (s.read keyword name piece)
    have lineNum : (s.read keyword name piece).lineNum = s.lineNum + 1 := by
      unfold Search.read
      dsimp only
      split <;> rfl
    rw [List.foldl_cons, numbers, total, lineNum, numbered, List.countP_cons]
    by_cases found : strcasestr (cstring piece) keyword = true
    · -- A header has no number.
      have header : ∀ shown : Bool, (if shown then [] else [Shown.header name]).filterMap Shown.number? = [] := by
        intro shown
        cases shown <;> rfl
      have printed : (s.read keyword name piece).numbers = s.numbers ++ [s.lineNum + 1] := by
        simp only [Search.read, found, Search.numbers, ↓reduceIte, List.filterMap_append, header, List.append_nil]
        rfl
      have counted : (s.read keyword name piece).total = s.total + 1 := by simp [Search.read, found]
      rw [printed, counted, if_pos found, if_pos found, List.append_assoc, List.singleton_append]
      exact ⟨rfl, by omega⟩
    · have same : (s.read keyword name piece).numbers = s.numbers ∧ (s.read keyword name piece).total = s.total := by
        simp [Search.read, found, Search.numbers]
      rw [same.1, same.2, if_neg found, if_neg found]
      exact ⟨rfl, rfl⟩

/-- In a file of text, the numbers are those of the pieces with the keyword. -/
theorem searchFile_pieces (keyword name : Bytes) {file : Bytes} (plain : 0 ∉ file) (total : Nat) :
    (searchFile keyword name file total).numbers = numbered (strcasestr · keyword) 1 (fgetsAll 256 file) ∧
      (searchFile keyword name file total).total =
        total + (fgetsAll 256 file).countP (strcasestr · keyword) := by
  obtain ⟨numbers, counted⟩ := foldl_read keyword name (fgetsAll 256 file) ⟨0, false, total, []⟩
  -- Each piece is the C string that the search looks at.
  have whole : ∀ piece ∈ fgetsAll 256 file, cstring piece = piece := fun piece read =>
    cstring_of_notMem fun zero => plain ((infix_of_mem_fgetsAll (by decide) read).subset zero)
  rw [searchFile, numbers, counted]
  constructor
  · exact numbered_congr fun piece read => by rw [whole piece read]
  · exact congrArg (total + ·) (List.countP_congr fun piece read => by rw [whole piece read])

/-- Where the pieces are the lines, the numbers of the pieces with a keyword are those of the lines. -/
theorem numbered_pieces {keyword : Bytes} (typed : Keyword keyword) {file : Bytes} {lines : List Bytes}
    (inside : ∀ line ∈ lines, line ∈ linesOf file) (short : ∀ line ∈ lines, (bodyOf line).length ≤ 255)
    (alone : lines.Pairwise fun line later => line.length ≤ 255 ∨ later = [newline]) (first : Nat) :
    numbered (strcasestr · keyword) first (lines.flatMap (fgetsAll 256)) =
      numbered (strcasestr · keyword) first lines := by
  induction lines generalizing first with
  | nil => rfl
  | cons line later ih =>
    obtain ⟨behind, alone⟩ := List.pairwise_cons.mp alone
    have next := ih (fun other member => inside other (List.mem_cons_of_mem _ member))
      (fun other member => short other (List.mem_cons_of_mem _ member)) alone
    have here := inside line List.mem_cons_self
    by_cases fits : line.length ≤ 255
    · -- The line is read as one piece.
      rw [List.flatMap_cons, fgetsAll_short here (Nat.lt_succ_of_le fits), List.singleton_append, numbered, numbered,
        next]
    · -- The newline is read alone, and so are those of the empty lines behind.
      have pieces : fgetsAll 256 line = [bodyOf line, [newline]] :=
        fgetsAll_full (by decide) here (Nat.lt_succ_of_le (short line List.mem_cons_self)) (Nat.not_le.mp fits)
      have blanks : ∀ other ∈ later, other = [newline] := fun other member => (behind other member).resolve_left fits
      have none : ∀ number, numbered (strcasestr · keyword) number later = [] := by
        intro number
        rw [← List.length_eq_zero_iff, length_numbered, List.countP_eq_zero]
        intro other member
        rw [blanks other member, strcasestr_blank typed]
        decide
      have found := strcasestr_bodyOf typed here
      rw [List.flatMap_cons, pieces, List.cons_append, List.cons_append, List.nil_append, numbered, numbered, numbered,
        next, none, none, strcasestr_blank typed, found]
      rfl

/-- Pieces that are lines are searched as lines. -/
theorem PiecesAreLines.reportsLines {file : Bytes} (pieces : PiecesAreLines file) (plain : 0 ∉ file) {keyword : Bytes}
    (typed : Keyword keyword) (name : Bytes) (total : Nat) : ReportsLines keyword name file total := by
  -- The numbers are those of the pieces, which are the lines one by one.
  obtain ⟨numbers, counted⟩ := searchFile_pieces keyword name plain total
  have same := numbered_pieces typed (fun _ member => member) pieces.short pieces.alone 1
  rw [← fgetsAll_linesOf (by decide)] at same
  have bodies : ∀ line ∈ linesOf file, strcasestr line keyword = strcasestr (bodyOf line) keyword :=
    fun line member => (strcasestr_bodyOf typed member).symm
  refine ⟨?_, fun number => ?_, ?_⟩
  · rw [numbers]
    exact nodup_numbered 1 _
  · rw [numbers, same, numbered_congr bodies]
    exact mem_numbered
  · rw [counted, ← length_numbered 1, same, length_numbered]
    exact congrArg (total + ·) (List.countP_congr fun line member => by rw [bodies line member])

/-- How many lines with the keyword the file of a name has, if it is searched. -/
def linesFound (content : Bytes → Option Bytes) (keyword name : Bytes) : Nat :=
  if contains ".txt" name then
    match content (snprintf 256 (hddPath name)) with
    | none => 0
    | some file => (linesOf file).countP fun line => strcasestr (bodyOf line) keyword
  else 0

/-- The total of a directory of such files is the number of all lines with the keyword. -/
theorem searchDirectory_total {content : Bytes → Option Bytes} {keyword : Bytes} (typed : Keyword keyword)
    (texts : ∀ path file, content path = some file → 0 ∉ file ∧ PiecesAreLines file) (names : List Bytes) :
    (searchDirectory content keyword names).1 = (names.map (linesFound content keyword)).sum := by
  -- The induction is on the names, behind any total so far.
  have general : ∀ found : Nat × List Shown, (names.foldl (searchEntry content keyword) found).1 =
      found.1 + (names.map (linesFound content keyword)).sum := by
    induction names with
    | nil => exact fun _ => rfl
    | cons name rest ih =>
      intro found
      have here : (searchEntry content keyword found name).1 = found.1 + linesFound content keyword name := by
        unfold searchEntry linesFound
        split
        · cases opened : content (snprintf 256 (hddPath name)) with
          | none => rfl
          | some file =>
            obtain ⟨plain, pieces⟩ := texts _ _ opened
            exact (pieces.reportsLines plain typed name found.1).counted
        · rfl
      rw [List.foldl_cons, ih, here, List.map_cons, List.sum_cons, Nat.add_assoc]
  exact (general (0, [])).trans (Nat.zero_add _)

/-- What is typed is a keyword of such files, whose lines with it text_search counts, or nothing is searched. -/
theorem textSearch_total {content : Bytes → Option Bytes}
    (texts : ∀ path file, content path = some file → 0 ∉ file ∧ PiecesAreLines file) (names : List Bytes)
    {typed : Bytes} {found : Nat × List Shown} (searched : textSearch content names typed = some found) :
    ∃ keyword, Keyword keyword ∧ found = searchDirectory content keyword names ∧
      found.1 = (names.map (linesFound content keyword)).sum := by
  unfold textSearch at searched
  cases read : fgets 64 typed with
  | none =>
    rw [read] at searched
    cases searched
  | some pair =>
    obtain ⟨line, rest⟩ := pair
    rw [read] at searched
    dsimp only at searched
    split at searched
    · cases searched
    · rename_i some
      have keyword := keyword_chopped read fun none => some (congrArg List.length none)
      obtain rfl := Option.some.inj searched
      exact ⟨_, keyword, rfl, searchDirectory_total keyword texts names⟩

/-- A byte is a keyword that occurs where the byte does. -/
theorem strcasestr_byte {byte : UInt8} {text : Bytes} (member : byte ∈ text) : strcasestr text [byte] = true := by
  obtain ⟨before, behind, rfl⟩ := List.append_of_mem member
  exact decide_eq_true ⟨before.map toLower, behind.map toLower, by simp⟩

/-- A byte of the file that is no newline can be typed as a keyword. -/
theorem keyword_byte {file : Bytes} (plain : 0 ∉ file) {byte : UInt8} (inside : byte ∈ file) (apart : byte ≠ newline) :
    Keyword [byte] where
  some := List.cons_ne_nil _ _
  short := by simp
  text := fun zero => plain (List.mem_singleton.mp zero ▸ inside)
  line := fun ends => apart (List.mem_singleton.mp ends).symm

/-- The number of a piece with a byte is printed when the byte is searched. -/
theorem printed_piece {file : Bytes} (plain : 0 ∉ file) (name : Bytes) (total : Nat) {before later : List Bytes}
    {line : Bytes} (split : linesOf file = before ++ line :: later) {pre post : List Bytes} {piece : Bytes}
    (pieces : fgetsAll 256 line = pre ++ piece :: post) {byte : UInt8} (inside : byte ∈ piece) :
    1 + (before.flatMap (fgetsAll 256)).length + pre.length ∈ (searchFile [byte] name file total).numbers := by
  -- The pieces before it are those of the lines before, and the earlier ones of its own line.
  rw [(searchFile_pieces [byte] name plain total).1, fgetsAll_linesOf (by decide), split, List.flatMap_append,
    List.flatMap_cons, pieces, numbered_append, List.append_assoc, numbered_append, List.cons_append, numbered,
    if_pos (strcasestr_byte inside)]
  exact List.mem_append_right _ (List.mem_append_right _ List.mem_cons_self)

/-- No line with a keyword is behind the last one that has more than a newline. -/
theorem matches_early {keyword file : Bytes} (typed : Keyword keyword) {before later : List Bytes} {line : Bytes}
    (split : linesOf file = before ++ line :: later) (blanks : ∀ other ∈ later, other = [newline]) {number : Nat}
    (contains : Matches keyword file number) : number ≤ before.length + 1 := by
  obtain ⟨-, found, here, contains⟩ := contains
  by_contra late
  -- Such a line would be one of the empty ones.
  rw [split, show number - 1 = before.length + (number - before.length - 2 + 1) by omega,
    List.getElem?_append_right (Nat.le_add_right _ _), Nat.add_sub_cancel_left, List.getElem?_cons_succ] at here
  rw [blanks found (List.mem_of_getElem? here)] at contains
  exact absurd ((strcasestr_nil typed).symm.trans contains) Bool.false_ne_true

/-- The pieces are the lines if all lines before one are short, its body is, and only empty lines are behind it. -/
theorem PiecesAreLines.of_split {file : Bytes} {before later : List Bytes} {line : Bytes}
    (split : linesOf file = before ++ line :: later) (shortBefore : ∀ other ∈ before, other.length ≤ 255)
    (shortBody : (bodyOf line).length ≤ 255) (blanks : ∀ other ∈ later, other = [newline]) : PiecesAreLines file := by
  refine ⟨fun other member => ?_, ?_⟩
  · rw [split, List.mem_append, List.mem_cons] at member
    rcases member with member | rfl | member
    · exact Nat.le_trans (List.takeWhile_prefix _).length_le (shortBefore other member)
    · exact shortBody
    · rw [blanks other member]
      decide
  · -- Of two lines, the first is one of those before, or the second is one of those behind.
    rw [split, List.pairwise_append, List.pairwise_cons]
    refine ⟨?_, ⟨fun other member => Or.inr (blanks other member), ?_⟩, fun other member _ _ =>
      Or.inl (shortBefore other member)⟩
    · exact List.pairwise_of_forall_mem_list fun other member _ _ => Or.inl (shortBefore other member)
    · exact List.pairwise_of_forall_mem_list fun _ _ other member => Or.inr (blanks other member)

/--
Where all keywords are reported with their lines, the pieces are the lines.

A byte of the last piece that has more than a newline is reported with the number of that piece, and
no line behind the one of the piece contains it.
-/
theorem piecesAreLines_of_reportsLines {name : Bytes} {total : Nat} {file : Bytes} (plain : 0 ∉ file)
    (reports : ∀ keyword, Keyword keyword → ReportsLines keyword name file total) : PiecesAreLines file := by
  have large : 2 ≤ 256 := by decide
  by_cases some : ∃ line ∈ linesOf file, (line.any (· != newline)) = true
  · obtain ⟨before, line, later, split, more, blanks⟩ := exists_last some
    have inLines : ∀ other, other ∈ before ∨ other = line ∨ other ∈ later → other ∈ linesOf file := by
      intro other member
      rw [split, List.mem_append, List.mem_cons]
      exact member
    have blankLater : ∀ other ∈ later, other = [newline] := fun other member =>
      line_blank (inLines other (Or.inr (Or.inr member))) (blanks other member)
    -- In the last piece of that line with more than a newline there is a byte to search for.
    obtain ⟨pre, piece, post, pieces, has, rest⟩ := exists_last (any_fgetsAll large more)
    obtain ⟨byte, inPiece, apart⟩ := List.any_eq_true.mp has
    have read : piece ∈ fgetsAll 256 line := by
      rw [pieces]
      exact List.mem_append_right _ List.mem_cons_self
    have inFile : byte ∈ file := by
      rw [← flatten_linesOf file]
      exact List.mem_flatten.mpr ⟨line, inLines line (Or.inr (Or.inl rfl)),
        (infix_of_mem_fgetsAll large read).subset inPiece⟩
    have typed := keyword_byte plain inFile (bne_iff_ne.mp apart)
    -- The piece's number is printed, so it is not behind the line's.
    have printed := printed_piece plain name total split pieces inPiece
    have early := matches_early typed split blankLater (((reports [byte] typed).reported _).mp printed)
    -- Hence there is one piece to each line before, and none before this one.
    have someRead : ∀ other ∈ before, fgetsAll 256 other ≠ [] := fun other member =>
      fgetsAll_ne_nil large (ne_nil_of_mem_linesOf (inLines other (Or.inl member)))
    obtain ⟨many, single⟩ := length_flatMap_le someRead
    have first : pre = [] := List.length_eq_zero_iff.mp (by omega)
    rw [first, List.nil_append] at pieces
    exact .of_split split
      (fun other member => Nat.le_of_lt_succ (length_lt_of_single large (single (by omega) other member)))
      (Nat.le_of_lt_succ (length_bodyOf_lt large pieces rest)) blankLater
  · -- There are only empty lines.
    have blank : ∀ line ∈ linesOf file, line = [newline] := fun line member =>
      line_blank member (Bool.eq_false_iff.mpr fun more => some ⟨line, member, more⟩)
    refine ⟨fun line member => ?_, List.pairwise_of_forall_mem_list fun _ _ later member => Or.inr (blank later member)⟩
    rw [blank line member]
    decide

/--
A text file is searched right for every keyword exactly when none of its lines is longer than 255
bytes, and only empty lines stand behind one of 255 bytes and a newline.
-/
theorem reportsLines_iff (name : Bytes) (total : Nat) {file : Bytes} (plain : 0 ∉ file) :
    (∀ keyword, Keyword keyword → ReportsLines keyword name file total) ↔ PiecesAreLines file :=
  ⟨piecesAreLines_of_reportsLines plain, fun pieces _ typed => pieces.reportsLines plain typed name total⟩

theorem reportsLines_milk :
    (∀ keyword, Keyword keyword → ReportsLines keyword (ascii "list.txt") (ascii "Milk" ++ [newline]) 0) ↔
      PiecesAreLines (ascii "Milk" ++ [newline]) :=
  reportsLines_iff (ascii "list.txt") 0 (by decide)

/-- Behind the longest line that notepad keeps, the next line is reported as the third one. -/
theorem long_line_counted_twice :
    ¬ ReportsLines (ascii "milk") (ascii "list.txt")
      (List.replicate 255 (ch 'a') ++ newline :: (ascii "Milk" ++ [newline])) 0 := by
  intro reports
  have third := (reports.reported 3).mp (by decide +kernel)
  obtain ⟨-, line, here, -⟩ := third
  revert here
  have lines : (linesOf (List.replicate 255 (ch 'a') ++ newline :: (ascii "Milk" ++ [newline])))[3 - 1]? = none := by
    decide +kernel
  rw [lines]
  exact nofun

end Nebula
