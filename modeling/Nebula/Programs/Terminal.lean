import Nebula.Programs.Confinement

/-! The mini terminal's commands that name a file, and the room that their buffers have for its path. -/

namespace Nebula

open CText

/-- The size of each of the three path buffers. -/
abbrev pathSize : Nat := 128

/-- What echo with a redirect passes to fopen, and what it writes there. -/
def echoed (line : Bytes) : Option (Bytes × Bytes) :=
  let input := trimNewline line
  if startsWith "echo " input then
    match strchr (ch '>') (input.drop 5) with
    | some (text, filename) => some (hddPath (filename.dropWhile (· == ch ' ')), text ++ [newline])
    | none => none
  else none

/-- Every path that a line makes fits its buffer, the terminator included. -/
def PathsFit (line : Bytes) : Prop := ∀ path ∈ (Typed.terminal line).paths, path.length + 1 ≤ pathSize

/-- How a trimmed line names a file. -/
inductive NamesFile : Bytes → Bytes → Prop where
  | cat (name : Bytes) : NamesFile (ascii "cat " ++ name) name
  | mkdir (name : Bytes) : NamesFile (ascii "mkdir " ++ name) name
  /-- The redirect is the first one, and the blanks behind it are skipped. -/
  | echo {text blanks name : Bytes} (first : ch '>' ∉ text) (skipped : ∀ blank ∈ blanks, blank = ch ' ')
    (starts : name.head? ≠ some (ch ' ')) :
    NamesFile (ascii "echo " ++ (text ++ ch '>' :: (blanks ++ name))) name

/--
The line is short for its command, before its newline.

A line of cat has at most 120 bytes, one of mkdir at most 122, and one of echo at most 116 bytes behind
its first redirect and the blanks that follow.
-/
structure ShortLine (line : Bytes) : Prop where
  cat : startsWith "cat " (trimNewline line) = true → (trimNewline line).length ≤ 120
  mkdir : startsWith "mkdir " (trimNewline line) = true → (trimNewline line).length ≤ 122
  echo : ∀ text blanks name, trimNewline line = ascii "echo " ++ (text ++ ch '>' :: (blanks ++ name)) →
    ch '>' ∉ text → (∀ blank ∈ blanks, blank = ch ' ') → name.head? ≠ some (ch ' ') →
    (trimNewline line).length ≤ 5 + text.length + 1 + blanks.length + 116

/-- A text begins with a literal if it is the literal and something more. -/
theorem startsWith_iff {literal : String} {text : Bytes} :
    startsWith literal text = true ↔ ∃ rest, text = ascii literal ++ rest := by
  -- A beginning is what something can be appended to.
  rw [startsWith, List.isPrefixOf_iff_prefix]
  exact exists_congr fun rest => eq_comm

/-- Blanks are skipped up to the first byte that is none. -/
theorem dropWhile_blanks {blanks name : Bytes} (skipped : ∀ blank ∈ blanks, blank = ch ' ')
    (starts : name.head? ≠ some (ch ' ')) : (blanks ++ name).dropWhile (· == ch ' ') = name := by
  -- All of the blanks pass the test, and what is behind them does not begin with one.
  rw [List.dropWhile_append_of_pos fun blank member => beq_iff_eq.mpr (skipped blank member)]
  cases name with
  | nil => rfl
  | cons byte rest =>
    have other : byte ≠ ch ' ' := fun same => starts (congrArg some same)
    exact List.dropWhile_cons_of_neg (by simp [other])

/-- What mini_terminal takes for the name of a file. -/
theorem terminalName_eq_some {line name : Bytes} :
    terminalName line = some name ↔ NamesFile (trimNewline line) name := by
  unfold terminalName
  generalize trimNewline line = input
  dsimp only
  constructor
  · intro named
    split_ifs at named with empty exit ls pwd cat mkdir echo
    · -- The prefix is cut off, whatever follows it.
      obtain ⟨rest, rfl⟩ := startsWith_iff.mp cat
      obtain rfl := Option.some.inj named
      exact .cat rest
    · obtain ⟨rest, rfl⟩ := startsWith_iff.mp mkdir
      obtain rfl := Option.some.inj named
      exact .mkdir rest
    · obtain ⟨rest, rfl⟩ := startsWith_iff.mp echo
      split at named
      · rename_i text filename found
        obtain ⟨first, split⟩ := strchr_eq_some found
        obtain rfl := Option.some.inj named
        -- What was skipped are the blanks, and the name begins where they end.
        have parts := List.takeWhile_append_dropWhile (p := (· == ch ' ')) (l := filename)
        have skipped : ∀ blank ∈ filename.takeWhile (· == ch ' '), blank = ch ' ' := by
          intro blank member
          simpa using List.mem_takeWhile_imp member
        have starts : (filename.dropWhile (· == ch ' ')).head? ≠ some (ch ' ') := by
          intro blank
          have other := List.head?_dropWhile_not (· == ch ' ') filename
          rw [blank] at other
          exact absurd other (by decide)
        have whole : rest =
            text ++ ch '>' :: (filename.takeWhile (· == ch ' ') ++ filename.dropWhile (· == ch ' ')) := by
          rw [parts]
          exact split
        rw [whole]
        exact .echo first skipped starts
      · cases named
  · intro names
    cases names with
    | cat => rfl
    | mkdir => rfl
    | @echo text blanks name first skipped starts =>
      -- The first redirect is found, and the blanks behind it are skipped.
      have found := strchr_append first (blanks ++ name)
      generalize text ++ ch '>' :: (blanks ++ name) = rest at found ⊢
      have behind : (ascii "echo " ++ rest).drop 5 = rest := rfl
      have cat : startsWith "cat " (ascii "echo " ++ rest) = false := rfl
      have mkdir : startsWith "mkdir " (ascii "echo " ++ rest) = false := rfl
      have echo : startsWith "echo " (ascii "echo " ++ rest) = true := rfl
      -- No other command has the second letter of echo.
      have apart : ∀ other, charAt other 1 ≠ ch 'c' → ascii "echo " ++ rest ≠ other := by
        rintro other different rfl
        exact different rfl
      rw [if_neg (apart [] (by decide)), if_neg (apart (ascii "exit") (by decide)),
        if_neg (apart (ascii "ls") (by decide)), if_neg (apart (ascii "pwd") (by decide)),
        if_neg (Bool.eq_false_iff.mp cat), if_neg (Bool.eq_false_iff.mp mkdir), if_pos echo, behind, found]
      exact congrArg some (dropWhile_blanks skipped starts)

/-- The path of a name has eleven bytes more than the name. -/
theorem length_hddPath (name : Bytes) : (hddPath name).length = name.length + 11 := by
  -- They are those of the directory and of the slash.
  have directory : hddName.length = 10 := rfl
  rw [hddPath, List.length_append, List.length_cons, directory]
  omega

/-- The path fits where the name has at most 116 bytes. -/
theorem pathsFit_iff_names (line : Bytes) :
    PathsFit line ↔ ∀ name, NamesFile (trimNewline line) name → name.length ≤ 116 := by
  -- A line makes one path at most, that of the name in it.
  have paths : (Typed.terminal line).paths = (terminalName line).toList.map hddPath := rfl
  rw [PathsFit, paths, List.forall_mem_map]
  refine forall_congr' fun name => ?_
  rw [Option.mem_toList, terminalName_eq_some, length_hddPath]
  have size : pathSize = 128 := rfl
  exact imp_congr_right fun _ => by omega

/--
The path of a line of cat, mkdir or echo fits its buffer of 128 bytes, the terminator included, exactly
if the line is short for its command.
-/
theorem pathsFit_iff (line : Bytes) : PathsFit line ↔ ShortLine line := by
  rw [pathsFit_iff_names]
  constructor
  · intro fits
    refine ⟨fun cat => ?_, fun mkdir => ?_, fun text blanks name whole first skipped starts => ?_⟩
    · obtain ⟨name, whole⟩ := startsWith_iff.mp cat
      rw [whole] at fits ⊢
      have short := fits name (.cat name)
      have command : (ascii "cat ").length = 4 := rfl
      rw [List.length_append]
      omega
    · obtain ⟨name, whole⟩ := startsWith_iff.mp mkdir
      rw [whole] at fits ⊢
      have short := fits name (.mkdir name)
      have command : (ascii "mkdir ").length = 6 := rfl
      rw [List.length_append]
      omega
    · rw [whole] at fits ⊢
      have short := fits name (.echo first skipped starts)
      have command : (ascii "echo ").length = 5 := rfl
      simp only [List.length_append, List.length_cons]
      omega
  · -- The bytes before the name are what the bounds on the lines allow for.
    intro short name names
    generalize input : trimNewline line = text at names
    cases names with
    | cat =>
      have bound := short.cat (startsWith_iff.mpr ⟨name, input⟩)
      have command : (ascii "cat ").length = 4 := rfl
      rw [input, List.length_append] at bound
      omega
    | mkdir =>
      have bound := short.mkdir (startsWith_iff.mpr ⟨name, input⟩)
      have command : (ascii "mkdir ").length = 6 := rfl
      rw [input, List.length_append] at bound
      omega
    | @echo text blanks name first skipped starts =>
      have bound := short.echo text blanks name input first skipped starts
      have command : (ascii "echo ").length = 5 := rfl
      rw [input] at bound
      simp only [List.length_append, List.length_cons] at bound
      omega

/-- A name of 117 letters fits the line, but not with the directory before it into the buffer. -/
theorem cat_overflows_path :
    let line := ascii "cat " ++ List.replicate 117 (ch 'a') ++ [newline]
    line.length ≤ 255 ∧ ¬ PathsFit line := by
  refine ⟨by decide, fun fits => ?_⟩
  exact absurd (fits (hddPath (List.replicate 117 (ch 'a'))) (by decide +kernel)) (by decide +kernel)

end Nebula
