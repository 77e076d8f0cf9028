import Nebula.Log.Dashboard

/-! What each kind of line does to the amounts that the dashboard works out. -/

namespace Nebula

open CText

/-- A printed number of two digits consists of digits. -/
theorem twoDigits_digits {value : Nat} (small : value < 100) :
    ∀ byte ∈ twoDigits value, isDigit byte = true := by
  have all : ∀ value : Fin 100, ∀ byte ∈ twoDigits value, isDigit byte = true := by decide
  exact all ⟨value, small⟩

/-- Digits contain no byte that is none. -/
private theorem digits_lack {digits : Bytes} (decimals : ∀ byte ∈ digits, isDigit byte = true)
    {byte : UInt8} (other : isDigit byte = false) : byte ∉ digits := by
  intro member
  rw [decimals byte member] at other
  cases other

/-- What starts with a digit does not start with a blank. -/
private theorem digits_start {digits : Bytes} (decimals : ∀ byte ∈ digits, isDigit byte = true)
    (nonempty : digits ≠ []) (tail rest : Bytes) : ¬ ch ' ' :: tail <+: digits ++ rest := by
  obtain ⟨first, others, rfl⟩ := List.exists_cons_of_ne_nil nonempty
  intro ⟨behind, whole⟩
  have blank : ch ' ' = first := (List.cons.inj whole).1
  have digit := decimals first List.mem_cons_self
  rw [← blank] at digit
  revert digit
  decide

/-- The mark that ends every text the dashboard looks for amounts behind. -/
def amountMark : Bytes := ascii ": RAM="

/-- In the line of a message, a text with a colon and a blank occurs around or behind the message's own. -/
theorem infix_logLine {head body : Bytes} (time : ClockTime) (plain : ch ':' ∉ head) {word : Bytes}
    (fresh : ch ':' ∉ word) (tail : Bytes) :
    word ++ ch ':' :: ch ' ' :: tail <:+: logLine time (head ++ ch ':' :: body) ↔
      (word <:+ twoDigits time.second ++ ascii "]  " ++ head ∧ ch ' ' :: tail <+: body ++ [newline]) ∨
        word ++ ch ':' :: ch ' ' :: tail <:+: body ++ [newline] := by
  have hour := twoDigits_digits (show time.hour.val < 100 by omega)
  have minute := twoDigits_digits (show time.minute.val < 100 by omega)
  have second := twoDigits_digits (show time.second.val < 100 by omega)
  have colon : isDigit (ch ':') = false := by decide
  have split : logLine time (head ++ ch ':' :: body) =
      (ch '[' :: twoDigits time.hour) ++ ch ':' :: (twoDigits time.minute ++ ch ':' ::
        ((twoDigits time.second ++ ascii "]  " ++ head) ++ ch ':' :: (body ++ [newline]))) := by
    simp [logLine, ClockTime.text]
  -- The first two colons of the line are followed by digits.
  rw [split, infix_separated (List.not_mem_cons_of_ne_of_not_mem (by decide) (digits_lack hour colon)) fresh,
    infix_separated (digits_lack minute colon) fresh, infix_separated _ fresh]
  · rw [or_iff_right fun here => digits_start minute (by simp [twoDigits]) _ _ here.2, or_iff_right]
    intro here
    rw [List.append_assoc, List.append_assoc] at here
    exact digits_start second (by simp [twoDigits]) _ _ here.2
  · intro member
    rw [List.mem_append, List.mem_append] at member
    rcases member with (inSecond | inMark) | inHead
    · exact digits_lack second colon inSecond
    · revert inMark
      decide
    · exact plain inHead

/-- A line without the mark does nothing to the gauge. -/
theorem readGauge_quiet (stack : Amounts) (gauge : Gauge) {buf : Bytes}
    (quiet : ¬ amountMark <:+: buf) : readGauge stack gauge buf = gauge := by
  -- Each text that is looked for ends with the mark.
  have misses : ∀ literal, amountMark <:+ ascii literal → contains literal buf = false := by
    intro literal ends
    rw [contains, decide_eq_false_iff_not]
    exact fun within => quiet (ends.isInfix.trans within)
  have sizes := misses "Resources: RAM=" (by decide)
  have allocated := misses "Resources allocated: RAM=" (by decide)
  have reclaimed := misses "Resources reclaimed: RAM=" (by decide)
  simp [readGauge, readSizes, readAllocated, readReclaimed, sizes, allocated, reclaimed]

/-- A body that begins otherwise and has no colon makes a quiet line. -/
theorem quiet_logLine {head body : Bytes} (time : ClockTime) (plain : ch ':' ∉ head)
    (plain' : ch ':' ∉ body) (starts : ¬ ascii " RAM=" <+: body ++ [newline]) :
    ¬ amountMark <:+: logLine time (head ++ ch ':' :: body) := by
  intro within
  have around := (infix_logLine time plain List.not_mem_nil (ascii "RAM=")).mp within
  rcases around with ⟨-, begins⟩ | ⟨ahead, behind, whole⟩
  · exact starts begins
  · -- There is no colon in the body.
    have member : ch ':' ∈ body ++ [newline] := by
      rw [← whole]
      simp
    rw [List.mem_append] at member
    rcases member with inBody | last
    · exact plain' inBody
    · revert last
      decide

/-- Which literal occurs in a line with amounts is decided by the words before the mark. -/
theorem contains_logLine {literal : String} {word head rest : Bytes} (time : ClockTime)
    (spelled : ascii literal = word ++ amountMark) (fresh : ch ':' ∉ word) (plain : ch ':' ∉ head)
    (sized : word.length ≤ head.length ∨ head.length + 5 < word.length) (plain' : ch ':' ∉ rest) :
    contains literal (logLine time (head ++ amountMark ++ rest)) = decide (word <:+ head) := by
  have message : head ++ amountMark ++ rest = head ++ ch ':' :: (ascii " RAM=" ++ rest) := by
    simp [amountMark, ascii]
  rw [contains, decide_eq_decide, spelled, message]
  refine (infix_logLine time plain fresh (ascii "RAM=")).trans ?_
  constructor
  · intro around
    rcases around with ⟨ends, -⟩ | ⟨ahead, behind, whole⟩
    · refine List.suffix_of_suffix_length_le ends (List.suffix_append _ _) (sized.resolve_right ?_)
      -- A word longer than the line up to the mark does not end there.
      have fits := ends.length_le
      simp [twoDigits, ascii] at fits
      omega
    · -- There is no colon behind the mark.
      have member : ch ':' ∈ ascii " RAM=" ++ rest ++ [newline] := by
        rw [← whole]
        simp
      rw [List.mem_append, List.mem_append] at member
      rcases member with (inMark | inRest) | last
      · exact absurd inMark (by decide)
      · exact absurd inRest plain'
      · exact absurd last (by decide)
  · intro ends
    refine Or.inl ⟨ends.trans (List.suffix_append _ _), ?_⟩
    rw [List.append_assoc]
    exact List.prefix_append _ _

/-- The amounts behind the mark are found where the mark is. -/
theorem strstr_logLine (time : ClockTime) {head rest : Bytes} (text : Bytes)
    (found : strstr "RAM=" (head ++ rest ++ [newline]) = some text) :
    strstr "RAM=" (logLine time (head ++ rest)) = some text := by
  have split : logLine time (head ++ rest) =
      (ch '[' :: (time.text ++ ascii "]  ")) ++ (head ++ rest ++ [newline]) := by
    simp [logLine]
  rw [split, strstr_skip (ch 'R') (ascii "AM=") rfl, found]
  intro member
  -- A time consists of digits and colons.
  have hour := twoDigits_digits (show time.hour.val < 100 by omega)
  have minute := twoDigits_digits (show time.minute.val < 100 by omega)
  have second := twoDigits_digits (show time.second.val < 100 by omega)
  have letter : isDigit (ch 'R') = false := by decide
  simp only [ClockTime.text, List.mem_cons, List.mem_append] at member
  rcases member with bracket | ((inHour | colon | (inMinute | colon | inSecond)) | inMark)
  · revert bracket; decide
  · exact digits_lack hour letter inHour
  · revert colon; decide
  · exact digits_lack minute letter inMinute
  · revert colon; decide
  · exact digits_lack second letter inSecond
  · revert inMark; decide

/-- The numbers of a printed pair of amounts are read back. -/
theorem scanAmounts_printed (stack : Amounts) {buf : Bytes} {ram hdd : Int} (ramFits : InInt ram)
    (hddFits : InInt hdd)
    (found : strstr "RAM=" buf =
      some (ascii "RAM=" ++ (decimal ram ++ (ascii ", HDD=" ++ (decimal hdd ++ [newline]))))) :
    scanAmounts stack buf = (ram, hdd) := by
  have first : scanText (ascii "RAM=") (ascii "RAM=" ++ (decimal ram ++ (ascii ", HDD=" ++
      (decimal hdd ++ [newline])))) = some (decimal ram ++ (ascii ", HDD=" ++ (decimal hdd ++ [newline]))) :=
    scanText_self (by decide) _
  have second : scanText (ascii ", HDD=") (ascii ", HDD=" ++ (decimal hdd ++ [newline])) =
      some (decimal hdd ++ [newline]) := rfl
  -- A number ends at the comma, the other one at the newline.
  have ramRead := scanInt_decimal ramFits (ascii ", HDD=" ++ (decimal hdd ++ [newline])) (by
    intro byte here
    obtain rfl : ch ',' = byte := Option.some.inj here
    decide)
  have hddRead := scanInt_decimal hddFits [newline] (by
    intro byte here
    obtain rfl : newline = byte := Option.some.inj here
    decide)
  simp only [scanAmounts, found, Option.getD_some, sscanf, first, second, ramRead, hddRead]
  rfl

theorem printable_twoDigits {value : Nat} (small : value < 100) : Printable (twoDigits value) := by
  have digits := twoDigits_digits small
  exact fun byte member => ⟨fun zero => digits_lack digits (by decide) (zero ▸ member),
    fun ends => digits_lack digits (by decide) (ends ▸ member)⟩

theorem printable_time (time : ClockTime) : Printable time.text := by
  have colon : Printable [ch ':'] := by decide
  have hour := printable_twoDigits (show time.hour.val < 100 by omega)
  have minute := printable_twoDigits (show time.minute.val < 100 by omega)
  have second := printable_twoDigits (show time.second.val < 100 by omega)
  simpa [ClockTime.text] using hour.append (colon.append (minute.append (colon.append second)))

theorem printable_stamp (time : ClockTime) : Printable (ch '[' :: (time.text ++ ascii "]  ")) := by
  have start : Printable [ch '['] := by decide
  exact start.append ((printable_time time).append (by decide))

/-- A message of one short line is read as one line. -/
theorem dashboardLines_logLine {log : Bytes} (ended : Ended log) (time : ClockTime) {message : Bytes}
    (plain : Printable message) (short : message.length ≤ 200) :
    dashboardLines (log ++ logLine time message) = dashboardLines log ++ [logLine time message] := by
  have stamp := printable_stamp time
  have whole := stamp.append plain
  have line : logLine time message = (ch '[' :: (time.text ++ ascii "]  ") ++ message) ++ newline :: [] := by
    simp [logLine]
  have length : (ch '[' :: (time.text ++ ascii "]  ") ++ message).length = message.length + 12 := by
    simp [ClockTime.text, twoDigits, ascii]
  -- The line has no newline before its end and no terminator, and it fits the buffer.
  rw [dashboardLines, fgetsAll_append (by decide) ended, List.map_append, line,
    fgetsAll_line (fun member => (whole newline member).2 rfl) (by omega), fgetsAll_nil]
  rw [List.map_cons, List.map_nil, cstring_plain]
  · rfl
  · intro byte member
    rw [List.mem_append, List.mem_singleton] at member
    rcases member with inLine | rfl
    · exact (whole byte inLine).1
    · decide

/-- Whatever lines a quiet text is read as, they do nothing to the gauge. -/
theorem replayGauge_quiet (stack : Amounts) {log text : Bytes} (ended : Ended log)
    (quiet : ¬ amountMark <:+: text) : replayGauge stack (log ++ text) = replayGauge stack log := by
  rw [replayGauge, dashboardLines, fgetsAll_append (by decide) ended, List.map_append, List.foldl_append]
  have all : ∀ buf ∈ (fgetsAll 256 text).map cstring, ¬ amountMark <:+: buf := by
    intro buf member within
    obtain ⟨line, read, rfl⟩ := List.mem_map.mp member
    -- A C string is a part of its buffer, and a line is a part of the text.
    exact quiet ((within.trans (cstring_begins _).isInfix).trans
      (infix_of_mem_fgetsAll (by decide) read))
  generalize (fgetsAll 256 text).map cstring = lines at all
  show lines.foldl (readGauge stack) (replayGauge stack log) = _
  induction lines with
  | nil => rfl
  | cons line lines ih =>
    rw [List.foldl_cons, readGauge_quiet _ _ (all line List.mem_cons_self)]
    exact ih fun buf member => all buf (List.mem_cons_of_mem _ member)

namespace LogEntry

/-- What an entry says about the machine. -/
def effect (gauge : Gauge) : LogEntry → Gauge
  | .resources ramMb hddMb _ => ⟨ramMb, hddMb, ramMb, hddMb⟩
  | .allocated (ram, hdd) =>
    { gauge with freeRam := wrapped (gauge.freeRam - ram), freeHdd := wrapped (gauge.freeHdd - hdd) }
  | .reclaimed (ram, hdd) =>
    { gauge with freeRam := wrapped (gauge.freeRam + ram), freeHdd := wrapped (gauge.freeHdd + hdd) }
  | _ => gauge

/-- The numbers of an entry are ints, and its name has no colon. -/
def Clean : LogEntry → Prop
  | .resources ramMb hddMb cores => InInt ramMb ∧ InInt hddMb ∧ InInt cores
  | .allocated (ram, hdd) | .reclaimed (ram, hdd) => InInt ram ∧ InInt hdd
  | .created _ name | .contextSwitch _ name _ => ch ':' ∉ name
  | .terminated _ | .interruptResolved _ => True

/-- An entry that the kernel can log once its sizes are set. -/
def Late (entry : LogEntry) : Prop := entry.Clean ∧ ∀ ramMb hddMb cores, entry ≠ .resources ramMb hddMb cores

end LogEntry

/-- The numbers of a printed pair, as they follow the mark. -/
def amountsText (ram hdd : Int) : Bytes := decimal ram ++ (ascii ", HDD=" ++ decimal hdd)

/-- A printed number has no colon. -/
theorem decimal_colon (value : Int) : ch ':' ∉ decimal value :=
  fun member => (decimal_plain value _ member).2 rfl

theorem amountsText_plain (ram hdd : Int) : ch ':' ∉ amountsText ram hdd :=
  List.not_mem_append (decimal_colon ram) (List.not_mem_append (by decide) (decimal_colon hdd))

/-- The literals the dashboard looks for, with the words before the mark in them. -/
def amountWords : List (String × Bytes) :=
  [("Resources: RAM=", ascii "Resources"), ("Resources allocated: RAM=", ascii "Resources allocated"),
    ("Resources reclaimed: RAM=", ascii "Resources reclaimed")]

/-- A line with amounts is of the one kind that its words before the mark name. -/
theorem contains_amounts (time : ClockTime) {literal : String} {head : Bytes}
    (printed : (literal, head) ∈ amountWords) {rest : Bytes} (plain : ch ':' ∉ rest) :
    ∀ asked ∈ amountWords,
      contains asked.1 (logLine time (head ++ amountMark ++ rest)) = decide (asked.2 = head) := by
  -- None of the three words is the end of another one.
  have table : ∀ asked ∈ amountWords, ascii asked.1 = asked.2 ++ amountMark ∧ ch ':' ∉ asked.2 ∧
      ∀ printed ∈ amountWords, (asked.2.length ≤ printed.2.length ∨
        printed.2.length + 5 < asked.2.length) ∧ (asked.2 <:+ printed.2 ↔ asked.2 = printed.2) := by
    decide
  intro asked member
  obtain ⟨spelled, fresh, pairs⟩ := table asked member
  obtain ⟨sized, ends⟩ := pairs _ printed
  rw [contains_logLine time spelled fresh (table _ printed).2.1 sized plain, decide_eq_decide]
  exact ends

/-- Printed amounts are read back from the line that they are in. -/
theorem scanAmounts_logLine (stack : Amounts) (time : ClockTime) {head : Bytes} {ram hdd : Int}
    (ramFits : InInt ram) (hddFits : InInt hdd)
    (found : ∀ rest, strstr "RAM=" (head ++ amountMark ++ rest) = some (ascii "RAM=" ++ rest)) :
    scanAmounts stack (logLine time (head ++ amountMark ++ amountsText ram hdd)) = (ram, hdd) := by
  refine scanAmounts_printed stack ramFits hddFits ?_
  rw [List.append_assoc]
  refine strstr_logLine time _ ?_
  rw [List.append_assoc, List.append_assoc, ← List.append_assoc head, found]
  simp [amountsText]

theorem message_allocated (ram hdd : Int) : (LogEntry.allocated (ram, hdd)).message =
    ascii "Resources allocated" ++ amountMark ++ amountsText ram hdd := by
  simp [LogEntry.message, amountsText, amountMark, ascii]

/-- The line about an allocation is of this kind only. -/
theorem contains_allocated (time : ClockTime) (amounts : Amounts) :
    let line := logLine time (LogEntry.allocated amounts).message
    contains "Resources: RAM=" line = false ∧ contains "Resources allocated: RAM=" line = true ∧
      contains "Resources reclaimed: RAM=" line = false := by
  obtain ⟨ram, hdd⟩ := amounts
  have kinds := contains_amounts time
    (show ("Resources allocated: RAM=", ascii "Resources allocated") ∈ amountWords by decide)
    (amountsText_plain ram hdd)
  simp only [amountWords, List.forall_mem_cons, ← message_allocated] at kinds
  obtain ⟨sizes, allocated, reclaimed, -⟩ := kinds
  exact ⟨sizes.trans (by decide), allocated.trans (by decide), reclaimed.trans (by decide)⟩

theorem message_reclaimed (ram hdd : Int) : (LogEntry.reclaimed (ram, hdd)).message =
    ascii "Resources reclaimed" ++ amountMark ++ amountsText ram hdd := by
  simp [LogEntry.message, amountsText, amountMark, ascii]

/-- The line about a reclamation is of this kind only. -/
theorem contains_reclaimed (time : ClockTime) (amounts : Amounts) :
    let line := logLine time (LogEntry.reclaimed amounts).message
    contains "Resources: RAM=" line = false ∧ contains "Resources allocated: RAM=" line = false ∧
      contains "Resources reclaimed: RAM=" line = true := by
  obtain ⟨ram, hdd⟩ := amounts
  have kinds := contains_amounts time
    (show ("Resources reclaimed: RAM=", ascii "Resources reclaimed") ∈ amountWords by decide)
    (amountsText_plain ram hdd)
  simp only [amountWords, List.forall_mem_cons, ← message_reclaimed] at kinds
  obtain ⟨sizes, allocated, reclaimed, -⟩ := kinds
  exact ⟨sizes.trans (by decide), allocated.trans (by decide), reclaimed.trans (by decide)⟩

/-- The line about an allocation takes its amounts from the free ones. -/
theorem readGauge_allocated (stack : Amounts) (gauge : Gauge) (time : ClockTime) {ram hdd : Int}
    (ramFits : InInt ram) (hddFits : InInt hdd) :
    readGauge stack gauge (logLine time (LogEntry.allocated (ram, hdd)).message) =
      LogEntry.effect gauge (.allocated (ram, hdd)) := by
  obtain ⟨sizes, allocated, reclaimed⟩ := contains_allocated time (ram, hdd)
  have amounts := scanAmounts_logLine stack time ramFits hddFits
    (fun _ => rfl : ∀ rest, strstr "RAM=" (ascii "Resources allocated" ++ amountMark ++ rest) = _)
  rw [← message_allocated] at amounts
  simp only [readGauge, readSizes, readAllocated, readReclaimed, sizes, allocated, reclaimed, amounts,
    Bool.false_eq_true, ↓reduceIte, LogEntry.effect]

/-- The line about a reclamation gives its amounts back to the free ones. -/
theorem readGauge_reclaimed (stack : Amounts) (gauge : Gauge) (time : ClockTime) {ram hdd : Int}
    (ramFits : InInt ram) (hddFits : InInt hdd) :
    readGauge stack gauge (logLine time (LogEntry.reclaimed (ram, hdd)).message) =
      LogEntry.effect gauge (.reclaimed (ram, hdd)) := by
  obtain ⟨sizes, allocated, reclaimed⟩ := contains_reclaimed time (ram, hdd)
  have amounts := scanAmounts_logLine stack time ramFits hddFits
    (fun _ => rfl : ∀ rest, strstr "RAM=" (ascii "Resources reclaimed" ++ amountMark ++ rest) = _)
  rw [← message_reclaimed] at amounts
  simp only [readGauge, readSizes, readAllocated, readReclaimed, sizes, allocated, reclaimed, amounts,
    Bool.false_eq_true, ↓reduceIte, LogEntry.effect]

/-- The numbers of the machine's line, as they follow the mark. -/
def sizesText (ramMb hddMb cores : Int) : Bytes :=
  decimal ramMb ++ (ascii "MB, HDD=" ++ (decimal hddMb ++ (ascii "MB, Cores=" ++ decimal cores)))

theorem sizesText_plain (ramMb hddMb cores : Int) : ch ':' ∉ sizesText ramMb hddMb cores := by
  have sizes := List.not_mem_append (show ch ':' ∉ ascii "MB, Cores=" by decide) (decimal_colon cores)
  have hdd := List.not_mem_append (show ch ':' ∉ ascii "MB, HDD=" by decide)
    (List.not_mem_append (decimal_colon hddMb) sizes)
  exact List.not_mem_append (decimal_colon ramMb) hdd

/-- The sizes are read back, each with its unit behind it. -/
theorem sscanf_sizes {ramMb hddMb : Int} (cores : Int) (ramFits : InInt ramMb) (hddFits : InInt hddMb) :
    sscanf [.text (ascii "RAM="), .int, .text (ascii "MB, HDD="), .int, .text (ascii "MB")]
      (ascii "RAM=" ++ (sizesText ramMb hddMb cores ++ [newline])) = [ramMb, hddMb] := by
  -- The numbers end at the units behind them.
  let behind := ascii "MB, Cores=" ++ (decimal cores ++ [newline])
  have whole : sizesText ramMb hddMb cores ++ [newline] =
      decimal ramMb ++ (ascii "MB, HDD=" ++ (decimal hddMb ++ behind)) := by
    simp [sizesText, behind]
  have first : scanText (ascii "RAM=") (ascii "RAM=" ++ (decimal ramMb ++ (ascii "MB, HDD=" ++
      (decimal hddMb ++ behind)))) = some (decimal ramMb ++ (ascii "MB, HDD=" ++ (decimal hddMb ++ behind))) :=
    scanText_self (by decide) _
  have ramRead := scanInt_decimal ramFits (ascii "MB, HDD=" ++ (decimal hddMb ++ behind)) (by
    intro byte here
    obtain rfl : ch 'M' = byte := Option.some.inj here
    decide)
  have second : scanText (ascii "MB, HDD=") (ascii "MB, HDD=" ++ (decimal hddMb ++ behind)) =
      some (decimal hddMb ++ behind) := rfl
  have hddRead := scanInt_decimal hddFits behind (by
    intro byte here
    obtain rfl : ch 'M' = byte := Option.some.inj here
    decide)
  have third : scanText (ascii "MB") behind = some (ascii ", Cores=" ++ (decimal cores ++ [newline])) := rfl
  rw [whole]
  simp only [sscanf, first, ramRead, second, hddRead, third]

theorem message_resources (ramMb hddMb cores : Int) : (LogEntry.resources ramMb hddMb cores).message =
    ascii "Resources" ++ amountMark ++ sizesText ramMb hddMb cores := by
  simp [LogEntry.message, sizesText, amountMark, ascii]

/-- The line about the sizes of the machine is of this kind only. -/
theorem contains_resources (time : ClockTime) (ramMb hddMb cores : Int) :
    let line := logLine time (LogEntry.resources ramMb hddMb cores).message
    contains "Resources: RAM=" line = true ∧ contains "Resources allocated: RAM=" line = false ∧
      contains "Resources reclaimed: RAM=" line = false := by
  have kinds := contains_amounts time
    (show ("Resources: RAM=", ascii "Resources") ∈ amountWords by decide) (sizesText_plain ramMb hddMb cores)
  simp only [amountWords, List.forall_mem_cons, ← message_resources] at kinds
  obtain ⟨sizes, allocated, reclaimed, -⟩ := kinds
  exact ⟨sizes.trans (by decide), allocated.trans (by decide), reclaimed.trans (by decide)⟩

/-- The line about the sizes of the machine sets the totals, all of them free. -/
theorem readGauge_resources (stack : Amounts) (gauge : Gauge) (time : ClockTime) {ramMb hddMb : Int}
    (cores : Int) (ramFits : InInt ramMb) (hddFits : InInt hddMb) :
    readGauge stack gauge (logLine time (LogEntry.resources ramMb hddMb cores).message) =
      LogEntry.effect gauge (.resources ramMb hddMb cores) := by
  -- Of the three texts that the dashboard looks for only that of the sizes is in the line.
  obtain ⟨sizes, allocated, reclaimed⟩ := contains_resources time ramMb hddMb cores
  have found : strstr "RAM=" (logLine time (LogEntry.resources ramMb hddMb cores).message) =
      some (ascii "RAM=" ++ (sizesText ramMb hddMb cores ++ [newline])) := by
    rw [message_resources, List.append_assoc]
    exact strstr_logLine time _ (by rw [List.append_assoc, List.append_assoc]; rfl)
  have values := sscanf_sizes cores ramFits hddFits
  simp only [readGauge, readSizes, readAllocated, readReclaimed, sizes, allocated, reclaimed, found,
    Bool.false_eq_true, ↓reduceIte, Option.getD_some, values, LogEntry.effect]
  rfl

/-- The sizes of the machine are printed as one short line. -/
theorem printable_resources {ramMb hddMb cores : Int} (ramFits : InInt ramMb) (hddFits : InInt hddMb)
    (coresFit : InInt cores) :
    Printable (LogEntry.resources ramMb hddMb cores).message ∧
      (LogEntry.resources ramMb hddMb cores).message.length ≤ 66 := by
  have lengths := And.intro (decimal_length ramFits) (And.intro (decimal_length hddFits)
    (decimal_length coresFit))
  constructor
  · exact Printable.append (Printable.append (Printable.append (Printable.append (Printable.append
      (by decide) (printable_decimal _)) (by decide)) (printable_decimal _)) (by decide))
      (printable_decimal _)
  · simp [LogEntry.message, ascii]
    omega

/-- A message about a pid is quiet if nothing behind the pid has a colon. -/
theorem quiet_pid (time : ClockTime) {head behind : Bytes} (pid : Int) (plain : ch ':' ∉ head)
    (plain' : ch ':' ∉ behind) :
    ¬ amountMark <:+: logLine time (head ++ ascii ": PID=" ++ decimal pid ++ behind) := by
  have message : head ++ ascii ": PID=" ++ decimal pid ++ behind =
      head ++ ch ':' :: (ascii " PID=" ++ (decimal pid ++ behind)) := by
    simp [ascii]
  rw [message]
  have rest := List.not_mem_append (show ch ':' ∉ ascii " PID=" by decide)
    (List.not_mem_append (decimal_colon pid) plain')
  refine quiet_logLine time plain rest ?_
  -- The letters behind the blank differ.
  rintro ⟨other, whole⟩
  exact absurd (List.cons.inj (List.cons.inj whole).2).1 (by decide)

theorem quiet_created (time : ClockTime) (pid : Int) {name : Bytes} (plain : ch ':' ∉ name) :
    ¬ amountMark <:+: logLine time (LogEntry.created pid name).message := by
  have message : (LogEntry.created pid name).message =
      ascii "Process created" ++ ascii ": PID=" ++ decimal pid ++ (ascii " (" ++ (name ++ ascii ")")) := by
    simp [LogEntry.message, ascii]
  rw [message]
  have named := List.not_mem_append plain (show ch ':' ∉ ascii ")" by decide)
  exact quiet_pid time pid (by decide) (List.not_mem_append (by decide) named)

theorem quiet_terminated (time : ClockTime) (pid : Int) :
    ¬ amountMark <:+: logLine time (LogEntry.terminated pid).message := by
  have message : (LogEntry.terminated pid).message =
      ascii "Process terminated" ++ ascii ": PID=" ++ decimal pid ++ [] := by
    simp [LogEntry.message, ascii]
  rw [message]
  exact quiet_pid time pid (by decide) List.not_mem_nil

theorem quiet_contextSwitch (time : ClockTime) (pid core : Int) {name : Bytes} (plain : ch ':' ∉ name) :
    ¬ amountMark <:+: logLine time (LogEntry.contextSwitch pid name core).message := by
  have message : (LogEntry.contextSwitch pid name core).message =
      ascii "Context switch" ++ ascii ": PID=" ++ decimal pid ++
        (ascii " (" ++ (name ++ (ascii ") -> Core " ++ decimal core))) := by
    simp [LogEntry.message, ascii]
  rw [message]
  have behind := List.not_mem_append (show ch ':' ∉ ascii ") -> Core " by decide) (decimal_colon core)
  exact quiet_pid time pid (by decide)
    (List.not_mem_append (by decide) (List.not_mem_append plain behind))

theorem quiet_interruptResolved (time : ClockTime) (pid : Int) :
    ¬ amountMark <:+: logLine time (LogEntry.interruptResolved pid).message := by
  have message : (LogEntry.interruptResolved pid).message =
      ascii "Interrupt resolved" ++ ascii ": PID=" ++ decimal pid ++ ascii " -> READY" := by
    simp [LogEntry.message, ascii]
  rw [message]
  exact quiet_pid time pid (by decide) (by decide)

/-- What a blank and a number follow is not the mark. -/
private theorem blank_decimal (value : Int) (rest : Bytes) :
    ¬ ascii " RAM=" <+: ascii " " ++ (decimal value ++ rest) := by
  -- A number does not begin with the letter of the mark, as it has no letters.
  intro ⟨behind, whole⟩
  have tail : ascii "RAM=" ++ behind = decimal value ++ rest := (List.cons.inj whole).2
  obtain ⟨digits, nonempty, -, -, printed⟩ := decimal_eq value
  have first : ch 'R' ∈ decimal value := by
    cases number : decimal value with
    | nil =>
      rw [number] at printed
      split at printed
      · cases printed
      · exact absurd printed.symm nonempty
    | cons byte others =>
      rw [number] at tail
      rw [← (List.cons.inj tail).1]
      exact List.mem_cons_self
  exact absurd (decimal_bytes value _ first) (by decide)

/-- A printed date has no colon. -/
theorem date_colon (date : ClockDate) : ch ':' ∉ date.text := by
  have month := twoDigits_digits (show date.month.val < 100 by omega)
  have day := twoDigits_digits (show date.day.val < 100 by omega)
  have colon : isDigit (ch ':') = false := by decide
  have dash : ch ':' ≠ ch '-' := by decide
  have behind := List.not_mem_append (digits_lack month colon)
    (List.not_mem_cons_of_ne_of_not_mem dash (digits_lack day colon))
  exact List.not_mem_append (decimal_colon date.year) (List.not_mem_cons_of_ne_of_not_mem dash behind)

/-- The line of a snapshot is quiet. -/
theorem quiet_snapshot (date : ClockDate) (time : ClockTime) (active pid : Int) :
    ¬ amountMark <:+: snapshotLine date time active pid := by
  have hour := twoDigits_digits (show time.hour.val < 100 by omega)
  have minute := twoDigits_digits (show time.minute.val < 100 by omega)
  have second := twoDigits_digits (show time.second.val < 100 by omega)
  have colon : isDigit (ch ':') = false := by decide
  have mark : amountMark = [] ++ ch ':' :: ascii " RAM=" := rfl
  have split : snapshotLine date time active pid =
      (ch '[' :: (date.text ++ ascii " " ++ twoDigits time.hour)) ++ ch ':' ::
        (twoDigits time.minute ++ ch ':' ::
          ((twoDigits time.second ++ ascii "] [SysMonitor] Active tasks") ++ ch ':' ::
            ((ascii " " ++ (decimal active ++ ascii " | PID")) ++ ch ':' ::
              (ascii " " ++ (decimal pid ++ [newline]))))) := by
    simp [snapshotLine, ClockTime.text, ascii]
  -- Between the colons there are none.
  have stamp : ch ':' ∉ ch '[' :: (date.text ++ ascii " " ++ twoDigits time.hour) :=
    List.not_mem_cons_of_ne_of_not_mem (by decide)
      (List.not_mem_append (List.not_mem_append (date_colon date) (by decide)) (digits_lack hour colon))
  have label : ch ':' ∉ twoDigits time.second ++ ascii "] [SysMonitor] Active tasks" :=
    List.not_mem_append (digits_lack second colon) (by decide)
  have tasks : ch ':' ∉ ascii " " ++ (decimal active ++ ascii " | PID") :=
    List.not_mem_append (by decide) (List.not_mem_append (decimal_colon active) (by decide))
  have last : ch ':' ∉ ascii " " ++ (decimal pid ++ [newline]) :=
    List.not_mem_append (by decide) (List.not_mem_append (decimal_colon pid) (by decide))
  rw [split, mark, infix_separated stamp List.not_mem_nil,
    infix_separated (digits_lack minute colon) List.not_mem_nil, infix_separated label List.not_mem_nil,
    infix_separated tasks List.not_mem_nil]
  -- Each of the four colons is followed by a digit, or by a blank and a number.
  intro around
  rcases around with ⟨-, here⟩ | ⟨-, here⟩ | ⟨-, here⟩ | ⟨-, here⟩ | ⟨ahead, behind, whole⟩
  · exact digits_start minute (by simp [twoDigits]) _ _ here
  · rw [List.append_assoc] at here
    exact digits_start second (by simp [twoDigits]) _ _ here
  · rw [List.append_assoc, List.append_assoc] at here
    exact blank_decimal active _ here
  · exact blank_decimal pid _ here
  · refine last ?_
    rw [← whole]
    simp

theorem ended_logLine (time : ClockTime) (message : Bytes) : Ended (logLine time message) := by
  have line : logLine time message = (ch '[' :: (time.text ++ ascii "]  " ++ message)) ++ [newline] := by
    simp [logLine]
  rw [line]
  exact ended_line _

theorem ended_snapshotLine (date : ClockDate) (time : ClockTime) (active pid : Int) :
    Ended (snapshotLine date time active pid) := by
  have line : snapshotLine date time active pid =
      (ch '[' :: (date.text ++ ascii " " ++ time.text ++ ascii "] [SysMonitor] Active tasks: " ++
        decimal active ++ ascii " | PID: " ++ decimal pid)) ++ [newline] := by
    simp [snapshotLine]
  rw [line]
  exact ended_line _

/-- A line with amounts behind an ended log is read last, by itself. -/
private theorem replayGauge_line (stack : Amounts) {log : Bytes} (ended : Ended log) (time : ClockTime)
    {message : Bytes} (plain : Printable message) (short : message.length ≤ 200) :
    replayGauge stack (log ++ logLine time message) =
      readGauge stack (replayGauge stack log) (logLine time message) := by
  rw [replayGauge, dashboardLines_logLine ended time plain short, List.foldl_append]
  rfl

/-- Appending the line of an entry does to the gauge what the entry says. -/
theorem replayGauge_entry (stack : Amounts) {log : Bytes} (ended : Ended log) (time : ClockTime)
    {entry : LogEntry} (clean : entry.Clean) :
    replayGauge stack (log ++ logLine time entry.message) =
      LogEntry.effect (replayGauge stack log) entry := by
  cases entry with
  | resources ramMb hddMb cores =>
    obtain ⟨ramFits, hddFits, coresFit⟩ := clean
    obtain ⟨plain, short⟩ := printable_resources ramFits hddFits coresFit
    rw [replayGauge_line stack ended time plain (by omega), readGauge_resources stack _ time cores ramFits hddFits]
  | allocated amounts =>
    obtain ⟨ramFits, hddFits⟩ := clean
    have lengths := And.intro (decimal_length ramFits) (decimal_length hddFits)
    rw [replayGauge_line stack ended time, readGauge_allocated stack _ time ramFits hddFits]
    · exact Printable.append (Printable.append (Printable.append (by decide) (printable_decimal _))
        (by decide)) (printable_decimal _)
    · simp [LogEntry.message, ascii]
      omega
  | reclaimed amounts =>
    obtain ⟨ramFits, hddFits⟩ := clean
    have lengths := And.intro (decimal_length ramFits) (decimal_length hddFits)
    rw [replayGauge_line stack ended time, readGauge_reclaimed stack _ time ramFits hddFits]
    · exact Printable.append (Printable.append (Printable.append (by decide) (printable_decimal _))
        (by decide)) (printable_decimal _)
    · simp [LogEntry.message, ascii]
      omega
  -- The other entries have a pid behind their colon, and no other colon.
  | created pid name => exact replayGauge_quiet stack ended (quiet_created time pid clean)
  | terminated pid => exact replayGauge_quiet stack ended (quiet_terminated time pid)
  | contextSwitch pid name core => exact replayGauge_quiet stack ended (quiet_contextSwitch time pid core clean)
  | interruptResolved pid => exact replayGauge_quiet stack ended (quiet_interruptResolved time pid)

/-- A snapshot of the system monitor does nothing to the gauge. -/
theorem replayGauge_snapshot (stack : Amounts) {log : Bytes} (ended : Ended log) (date : ClockDate)
    (time : ClockTime) (active pid : Int) :
    replayGauge stack (log ++ snapshotLine date time active pid) = replayGauge stack log :=
  replayGauge_quiet stack ended (quiet_snapshot date time active pid)

end Nebula
