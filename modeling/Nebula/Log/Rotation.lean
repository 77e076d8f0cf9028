import Nebula.Library.LastRows
import Nebula.Library.TextLines
import Nebula.Log.Readings

/-! What rotating the log does to the dashboard, which works everything out from its beginning. -/

namespace Nebula

open CText

/--
The C string in a row of lines after strncpy of at most 255 bytes.

A line that fills all of them gets no terminator, so it runs on into what is behind the row.
-/
def storedLine (beyond line : Bytes) : Bytes :=
  let text := cstring line
  if text.length < 255 then text else text ++ cstring beyond

/-- The line that stands for what a rotation has dropped. -/
def rotationHeader : Bytes := ascii "[Log Daemon] Log rotated" ++ [newline]

/-- There are rows to keep lines in. -/
instance keptRows : NeZero 100 := ⟨by decide⟩

/-- What rotate_log makes of a log. -/
def rotateLog (beyond log : Bytes) : Bytes :=
  let lines : LastRows Bytes 100 :=
    ((fgetsAll 256 log).map (storedLine beyond)).foldl LastRows.store ⟨Vector.replicate 100 [], 0⟩
  rotationHeader ++ lines.toList.flatten

/-- The log that a kernel has written: the sizes of the machine, and an entry at a time after them. -/
def kernelLog (time : ClockTime) (ramMb hddMb cores : Int) (entries : List (ClockTime × LogEntry)) : Bytes :=
  logLine time (LogEntry.resources ramMb hddMb cores).message ++
    (entries.map fun entry => logLine entry.1 entry.2.message).flatten

namespace LogEntry

/-- The message of an entry is a C string that fits the buffer it is printed into. -/
def Fits (entry : LogEntry) : Prop := entry.message.length < 128 ∧ 0 ∉ entry.message

end LogEntry

/-- What one line gives back to the free amounts, less what it takes from them. -/
def lineNet (stack : Amounts) (buf : Bytes) : Amounts :=
  let amounts := scanAmounts stack buf
  let given := if contains "Resources reclaimed: RAM=" buf then amounts else (0, 0)
  let taken := if contains "Resources allocated: RAM=" buf then amounts else (0, 0)
  (given.1 - taken.1, given.2 - taken.2)

/-- How many more processes one line says are created than terminated. -/
def lineActive (buf : Bytes) : Int :=
  (if contains "Process created" buf then 1 else 0) - if contains "Process terminated" buf then 1 else 0

/-- What some lines give back, less what they take. -/
def netRam (stack : Amounts) (lines : List Bytes) : Int := (lines.map fun buf => (lineNet stack buf).1).sum
@[inherit_doc netRam] def netHdd (stack : Amounts) (lines : List Bytes) : Int :=
  (lines.map fun buf => (lineNet stack buf).2).sum

/-- How many more processes some lines say are created than terminated. -/
def netActive (lines : List Bytes) : Int := (lines.map lineActive).sum

/--
The log has at most as many lines as a rotation keeps, or the machine has just the sizes that the
dashboard starts from, and what the other lines say cancels out in its ints.
-/
def RotationUnseen (stack : Amounts) (ramMb hddMb : Int) (log : Bytes) : Prop :=
  let lines := dashboardLines log
  let cut := lines.take (lines.length - 100)
  lines.length ≤ 100 ∨ (ramMb = 1024 ∧ hddMb = 1024 ∧
    4294967296 ∣ netRam stack cut ∧ 4294967296 ∣ netHdd stack cut ∧ 4294967296 ∣ netActive cut)

/-- Two values with a part in common are the same int exactly if the other part is a multiple of its width. -/
theorem wrapped_eq_iff (start cut kept : Int) :
    wrapped (start + kept) = wrapped (start + (cut + kept)) ↔ 4294967296 ∣ cut := by
  unfold wrapped
  rw [eq_comm, Int.bmod_eq_bmod_iff_bmod_sub_eq_zero, show start + (cut + kept) - (start + kept) = cut by omega]
  exact Int.dvd_iff_bmod_eq_zero.symm

/-- A line that does not give the sizes adds to the free amounts what it says is given back. -/
theorem readGauge_unsized (stack : Amounts) (gauge : Gauge) {buf : Bytes}
    (unsized : contains "Resources: RAM=" buf = false) (ram : wrapped gauge.freeRam = gauge.freeRam)
    (hdd : wrapped gauge.freeHdd = gauge.freeHdd) :
    readGauge stack gauge buf =
      { gauge with
        freeRam := wrapped (gauge.freeRam + (lineNet stack buf).1)
        freeHdd := wrapped (gauge.freeHdd + (lineNet stack buf).2) } := by
  -- Only the lines about amounts can move the gauge.
  have still : readSizes gauge buf = gauge := by simp [readSizes, unsized]
  simp only [readGauge, still, readAllocated, readReclaimed, lineNet]
  -- A line may be taken for an allocation and for a return at once, in this order.
  by_cases allocated : contains "Resources allocated: RAM=" buf = true <;>
    by_cases reclaimed : contains "Resources reclaimed: RAM=" buf = true
  · simp only [allocated, reclaimed, ↓reduceIte, wrapped_add]
    refine Gauge.mk.injEq .. |>.mpr ⟨rfl, rfl, ?_, ?_⟩ <;> exact congrArg wrapped (by omega)
  · simp only [allocated, reclaimed, ↓reduceIte]
    refine Gauge.mk.injEq .. |>.mpr ⟨rfl, rfl, ?_, ?_⟩ <;> exact congrArg wrapped (by simp; omega)
  · simp [allocated, reclaimed]
  · simp [allocated, reclaimed, ram, hdd]

/-- Lines that do not give the sizes add up. -/
theorem foldl_readGauge (stack : Amounts) {lines : List Bytes}
    (unsized : ∀ buf ∈ lines, contains "Resources: RAM=" buf = false) (gauge : Gauge)
    (ram : wrapped gauge.freeRam = gauge.freeRam) (hdd : wrapped gauge.freeHdd = gauge.freeHdd) :
    lines.foldl (readGauge stack) gauge =
      { gauge with
        freeRam := wrapped (gauge.freeRam + netRam stack lines)
        freeHdd := wrapped (gauge.freeHdd + netHdd stack lines) } := by
  -- Whatever the lines before have made of the amounts, they fit an int.
  induction lines generalizing gauge with
  | nil => simp [netRam, netHdd, ram, hdd]
  | cons buf lines ih =>
    have step := readGauge_unsized stack gauge (unsized buf List.mem_cons_self) ram hdd
    have later := fun other member => unsized other (List.mem_cons_of_mem _ member)
    have ram' := wrapped_wrapped (gauge.freeRam + (lineNet stack buf).1)
    have hdd' := wrapped_wrapped (gauge.freeHdd + (lineNet stack buf).2)
    rw [List.foldl_cons, step, ih later ⟨gauge.totalRam, gauge.totalHdd,
      wrapped (gauge.freeRam + (lineNet stack buf).1), wrapped (gauge.freeHdd + (lineNet stack buf).2)⟩ ram' hdd']
    simp only [wrapped_add, netRam, netHdd, List.map_cons, List.sum_cons, Int.add_assoc]

/-- One line adds to the active processes what it says. -/
theorem readActive_line {active : Int} (fits : wrapped active = active) (buf : Bytes) :
    readActive active buf = wrapped (active + lineActive buf) := by
  unfold readActive lineActive
  -- A line can say that a process was created, that one ended, both or neither.
  by_cases created : contains "Process created" buf = true <;>
    by_cases ended : contains "Process terminated" buf = true
  · simp only [created, ended, ↓reduceIte, wrapped_sub]
    exact congrArg wrapped (by omega)
  · simp [created, ended]
  · simp only [created, ended, ↓reduceIte]
    exact congrArg wrapped (by simp; omega)
  · simp [created, ended, fits]

/-- The lines of a log add up to the active processes. -/
theorem foldl_readActive (lines : List Bytes) {active : Int} (fits : wrapped active = active) :
    lines.foldl readActive active = wrapped (active + netActive lines) := by
  induction lines generalizing active with
  | nil => simp [netActive, fits]
  | cons buf lines ih =>
    rw [List.foldl_cons, readActive_line fits, ih (wrapped_wrapped _), wrapped_add]
    simp only [netActive, List.map_cons, List.sum_cons, Int.add_assoc]

/-- The line of a rotation says nothing to the dashboard. -/
theorem readGauge_rotationHeader (stack : Amounts) (gauge : Gauge) :
    readGauge stack gauge rotationHeader = gauge :=
  readGauge_quiet stack gauge (by decide)

theorem lineActive_rotationHeader : lineActive rotationHeader = 0 := by decide

/-- A line that a rotation carries over as it is: short, ended and without a terminator inside. -/
def Carried (line : Bytes) : Prop := WholeLine 255 line ∧ 0 ∉ line

theorem Carried.storedLine {line : Bytes} (carried : Carried line) (beyond : Bytes) :
    storedLine beyond line = line := by
  obtain ⟨⟨body, rfl, -, short⟩, plain⟩ := carried
  have text := cstring_of_notMem plain
  -- The row has room for the line and its terminator.
  have room : (body ++ [newline]).length < 255 := by
    rw [List.length_append, List.length_singleton]
    exact short
  simp only [Nebula.storedLine, text, if_pos room]

theorem carried_rotationHeader : Carried rotationHeader :=
  ⟨⟨ascii "[Log Daemon] Log rotated", rfl, by decide, by decide⟩, by decide⟩

/-- Lines that are carried over are read by the dashboard as they were written. -/
theorem dashboardLines_flatten {lines : List Bytes} (carried : ∀ line ∈ lines, Carried line) :
    dashboardLines lines.flatten = lines := by
  have whole : ∀ line ∈ lines, WholeLine 256 line := by
    intro line member
    obtain ⟨⟨body, split, plain, short⟩, -⟩ := carried line member
    exact ⟨body, split, plain, by omega⟩
  rw [dashboardLines, fgetsAll_flatten whole]
  refine (List.map_congr_left fun line member => ?_).trans (List.map_id lines)
  exact cstring_of_notMem (carried line member).2

/-- A rotation keeps the last hundred lines behind its own. -/
theorem rotateLog_eq (beyond : Bytes) {log : Bytes} (carried : ∀ line ∈ fgetsAll 256 log, Carried line) :
    rotateLog beyond log =
      (rotationHeader :: (fgetsAll 256 log).drop ((fgetsAll 256 log).length - 100)).flatten := by
  -- Every line is stored as it was read.
  have stored : (fgetsAll 256 log).map (storedLine beyond) = fgetsAll 256 log :=
    (List.map_congr_left fun line member => (carried line member).storedLine beyond).trans (List.map_id _)
  rw [rotateLog, stored, LastRows.toList_stored, List.flatten_cons]

/-- What the dashboard reads of a rotated log. -/
theorem dashboardLines_rotateLog (beyond : Bytes) {log : Bytes}
    (carried : ∀ line ∈ fgetsAll 256 log, Carried line) :
    dashboardLines (rotateLog beyond log) =
      rotationHeader :: (dashboardLines log).drop ((dashboardLines log).length - 100) := by
  -- The lines that are carried over have no terminator, so they are the C strings that the dashboard sees.
  have before : dashboardLines log = fgetsAll 256 log := by
    conv_rhs => rw [← dashboardLines_flatten carried, flatten_fgetsAll (by decide)]
  rw [before, rotateLog_eq beyond carried, dashboardLines_flatten]
  intro line member
  rcases List.mem_cons.mp member with rfl | kept
  · exact carried_rotationHeader
  · exact carried line (List.mem_of_mem_drop kept)

/-- A log line has no terminator that its message does not have. -/
theorem logLine_plain (time : ClockTime) {message : Bytes} (plain : 0 ∉ message) :
    0 ∉ logLine time message := by
  -- The stamp consists of digits and signs.
  have stamp : 0 ∉ time.text := fun member => (printable_time time 0 member).1 rfl
  simp only [logLine, List.mem_cons, List.mem_append, not_or]
  exact ⟨by decide, ⟨⟨stamp, by decide⟩, plain⟩, by decide⟩

theorem length_logLine (time : ClockTime) (message : Bytes) :
    (logLine time message).length = message.length + 13 := by
  simp [logLine, ClockTime.text, twoDigits, ascii]

/-- However the line of a fitting entry is read, the parts are carried over. -/
theorem carried_logLine (time : ClockTime) {entry : LogEntry} (fits : entry.Fits) :
    ∀ line ∈ fgetsAll 256 (logLine time entry.message), Carried line := by
  intro line read
  have length := length_logLine time entry.message
  refine ⟨wholeLine_of_short (by decide) (by decide) (ended_logLine time _) (by have := fits.1; omega) line read, ?_⟩
  exact fun member =>
    logLine_plain time fits.2 ((infix_of_mem_fgetsAll (by decide) read).subset member)

/-- Only the first entry of a log gives the sizes. -/
theorem unsized_logLine (time : ClockTime) {entry : LogEntry} (late : entry.Late) :
    ¬ ascii "Resources: RAM=" <:+: logLine time entry.message := by
  obtain ⟨clean, others⟩ := late
  have marked : amountMark <:+: ascii "Resources: RAM=" := by decide
  cases entry with
  | resources ramMb hddMb cores => exact absurd rfl (others ramMb hddMb cores)
  -- A line with amounts is told apart by the words before the mark.
  | allocated amounts => exact of_decide_eq_false (contains_allocated time amounts).1
  | reclaimed amounts => exact of_decide_eq_false (contains_reclaimed time amounts).1
  -- The others have no mark.
  | created pid name => exact fun within => quiet_created time pid clean (marked.trans within)
  | terminated pid => exact fun within => quiet_terminated time pid (marked.trans within)
  | contextSwitch pid name core =>
    exact fun within => quiet_contextSwitch time pid core clean (marked.trans within)
  | interruptResolved pid => exact fun within => quiet_interruptResolved time pid (marked.trans within)

/-- The line of the sizes says nothing of amounts in use. -/
theorem lineNet_resources (stack : Amounts) (time : ClockTime) (ramMb hddMb cores : Int) :
    lineNet stack (logLine time (LogEntry.resources ramMb hddMb cores).message) = (0, 0) := by
  obtain ⟨-, allocated, reclaimed⟩ := contains_resources time ramMb hddMb cores
  simp [lineNet, allocated, reclaimed]

/-- Each line that is read of a log of the kernel belongs to the text of one entry. -/
theorem fgetsAll_kernelLog (time : ClockTime) (ramMb hddMb cores : Int)
    (entries : List (ClockTime × LogEntry)) :
    ∃ later, fgetsAll 256 (kernelLog time ramMb hddMb cores entries) =
        fgetsAll 256 (logLine time (LogEntry.resources ramMb hddMb cores).message) ++ later ∧
      ∀ line ∈ later, ∃ entry ∈ entries, line ∈ fgetsAll 256 (logLine entry.1 entry.2.message) := by
  have firstEnded := ended_logLine time (LogEntry.resources ramMb hddMb cores).message
  have ended : ∀ text ∈ entries.map fun entry => logLine entry.1 entry.2.message, Ended text := by
    intro text member
    obtain ⟨entry, -, rfl⟩ := List.mem_map.mp member
    exact ended_logLine _ _
  -- All texts are ended, so none of them is read together with the next.
  rw [kernelLog, fgetsAll_append (by decide) firstEnded, fgetsAll_ended (by decide) ended]
  refine ⟨_, rfl, fun line member => ?_⟩
  obtain ⟨lines, listed, inside⟩ := List.mem_flatten.mp member
  rw [List.map_map] at listed
  obtain ⟨entry, logged, rfl⟩ := List.mem_map.mp listed
  exact ⟨entry, logged, inside⟩

/-- What the dashboard reads of a log of the kernel. -/
theorem kernelLog_lines (time : ClockTime) {ramMb hddMb cores : Int} (ramFits : InInt ramMb)
    (hddFits : InInt hddMb) (coresFit : InInt cores) {entries : List (ClockTime × LogEntry)}
    (fair : ∀ entry ∈ entries, entry.2.Late ∧ entry.2.Fits) :
    (∀ line ∈ fgetsAll 256 (kernelLog time ramMb hddMb cores entries), Carried line) ∧
      ∃ rest, dashboardLines (kernelLog time ramMb hddMb cores entries) =
        logLine time (LogEntry.resources ramMb hddMb cores).message :: rest ∧
        ∀ buf ∈ rest, contains "Resources: RAM=" buf = false := by
  obtain ⟨plain, short⟩ := printable_resources ramFits hddFits coresFit
  have sizesFit : (LogEntry.resources ramMb hddMb cores).Fits :=
    ⟨by omega, fun zero => (plain 0 zero).1 rfl⟩
  obtain ⟨later, split, origin⟩ := fgetsAll_kernelLog time ramMb hddMb cores entries
  refine ⟨fun line member => ?_, later.map cstring, ?_, fun buf member => ?_⟩
  · rw [split, List.mem_append] at member
    rcases member with first | behind
    · exact carried_logLine time sizesFit line first
    · obtain ⟨entry, logged, inside⟩ := origin line behind
      exact carried_logLine entry.1 (fair entry logged).2 line inside
  · have first : dashboardLines ([] ++ logLine time (LogEntry.resources ramMb hddMb cores).message) =
        dashboardLines [] ++ [logLine time (LogEntry.resources ramMb hddMb cores).message] :=
      dashboardLines_logLine ended_nil time plain (by omega)
    rw [dashboardLines, split, List.map_append]
    exact congrArg (· ++ _) first
  · obtain ⟨line, read, rfl⟩ := List.mem_map.mp member
    obtain ⟨entry, logged, inside⟩ := origin line read
    -- A C string is a part of its line, and the line is a part of the entry's text.
    rw [contains, decide_eq_false_iff_not]
    exact fun within => unsized_logLine entry.1 (fair entry logged).1
      ((within.trans (cstring_begins _).isInfix).trans (infix_of_mem_fgetsAll (by decide) inside))

/-- What some lines say and what the lines behind them say adds up. -/
theorem netRam_append (stack : Amounts) (lines later : List Bytes) :
    netRam stack (lines ++ later) = netRam stack lines + netRam stack later := by
  simp [netRam, List.sum_append]

@[inherit_doc netRam_append] theorem netHdd_append (stack : Amounts) (lines later : List Bytes) :
    netHdd stack (lines ++ later) = netHdd stack lines + netHdd stack later := by
  simp [netHdd, List.sum_append]

@[inherit_doc netRam_append] theorem netActive_append (lines later : List Bytes) :
    netActive (lines ++ later) = netActive lines + netActive later := by
  simp [netActive, List.sum_append]

/-- What the loop of the dashboard comes to after lines that do not give the sizes. -/
theorem replay_unsized (stack : Amounts) {log : Bytes} {lines : List Bytes}
    (read : dashboardLines log = rotationHeader :: lines)
    (unsized : ∀ buf ∈ lines, contains "Resources: RAM=" buf = false) :
    replayGauge stack log =
        ⟨1024, 1024, wrapped (1024 + netRam stack lines), wrapped (1024 + netHdd stack lines)⟩ ∧
      replayActive log = wrapped (netActive lines) := by
  constructor
  · rw [replayGauge, read, List.foldl_cons, readGauge_rotationHeader, foldl_readGauge stack unsized] <;> rfl
  · rw [replayActive, read, foldl_readActive _ rfl, netActive, List.map_cons, List.sum_cons,
      lineActive_rotationHeader, Int.zero_add, Int.zero_add]
    rfl

/-- What it comes to after the line of the sizes and lines that do not give them. -/
theorem replay_sized (stack : Amounts) {log first : Bytes} {rest : List Bytes} {ramMb hddMb : Int}
    (read : dashboardLines log = first :: rest)
    (sizes : readGauge stack .initial first = ⟨ramMb, hddMb, ramMb, hddMb⟩)
    (silent : lineNet stack first = (0, 0)) (ramFits : InInt ramMb) (hddFits : InInt hddMb)
    (unsized : ∀ buf ∈ rest, contains "Resources: RAM=" buf = false) :
    replayGauge stack log =
        ⟨ramMb, hddMb, wrapped (ramMb + netRam stack (dashboardLines log)),
          wrapped (hddMb + netHdd stack (dashboardLines log))⟩ ∧
      replayActive log = wrapped (netActive (dashboardLines log)) := by
  -- The first line sets the gauge, and the others add what they are worth.
  have ram : netRam stack (dashboardLines log) = netRam stack rest := by simp [read, netRam, silent]
  have hdd : netHdd stack (dashboardLines log) = netHdd stack rest := by simp [read, netHdd, silent]
  constructor
  · rw [ram, hdd, replayGauge, read, List.foldl_cons, sizes,
      foldl_readGauge stack unsized _ (wrapped_of_inInt ramFits) (wrapped_of_inInt hddFits)]
  · rw [replayActive, foldl_readActive _ rfl, Int.zero_add]

/--
A rotation of a log of the kernel leaves alone what the loop of the dashboard comes to exactly if it drops
no line, or the dashboard's own sizes are those of the machine and the dropped lines cancel out.
-/
theorem replay_rotateLog_iff (beyond : Bytes) (stack : Amounts) (time : ClockTime) {ramMb hddMb cores : Int}
    (ramFits : InInt ramMb) (hddFits : InInt hddMb) (coresFit : InInt cores)
    {entries : List (ClockTime × LogEntry)} (fair : ∀ entry ∈ entries, entry.2.Late ∧ entry.2.Fits) :
    let log := kernelLog time ramMb hddMb cores entries
    (replayGauge stack (rotateLog beyond log) = replayGauge stack log ∧
        replayActive (rotateLog beyond log) = replayActive log) ↔
      RotationUnseen stack ramMb hddMb log := by
  intro log
  obtain ⟨carried, rest, read, unsized⟩ := kernelLog_lines time ramFits hddFits coresFit fair
  have rotated := dashboardLines_rotateLog beyond carried
  obtain ⟨gauge, active⟩ := replay_sized stack read (readGauge_resources stack _ time cores ramFits hddFits)
    (lineNet_resources stack time ramMb hddMb cores) ramFits hddFits unsized
  unfold RotationUnseen
  dsimp only
  by_cases few : (dashboardLines log).length ≤ 100
  · -- Nothing is dropped, so the rotated log only has the rotation's own line in front.
    rw [Nat.sub_eq_zero_of_le few, List.drop_zero] at rotated
    refine iff_of_true ⟨?_, ?_⟩ (Or.inl few)
    · rw [replayGauge, replayGauge, rotated, List.foldl_cons, readGauge_rotationHeader]
    · rw [replayActive, replayActive, rotated, List.foldl_cons]
      rfl
  · -- The first line is among those that are dropped, and the sizes with it.
    generalize dashboardLines log = all at *
    obtain ⟨dropped, more⟩ := Nat.exists_eq_add_of_lt (Nat.not_le.mp few)
    have parts := List.take_append_drop (all.length - 100) all
    have later : ∀ buf ∈ all.drop (all.length - 100), contains "Resources: RAM=" buf = false := by
      intro buf member
      rw [show all.length - 100 = dropped + 1 by omega, read, List.drop_succ_cons] at member
      exact unsized buf (List.mem_of_mem_drop member)
    obtain ⟨gauge', active'⟩ := replay_unsized stack rotated later
    generalize all.take (all.length - 100) = cut at *
    generalize all.drop (all.length - 100) = kept at *
    -- What all the lines say is what the dropped ones and the kept ones say.
    rw [← parts, netRam_append, netHdd_append] at gauge
    rw [← parts, netActive_append] at active
    have activeSame := wrapped_eq_iff 0 (netActive cut) (netActive kept)
    rw [Int.zero_add, Int.zero_add] at activeSame
    rw [gauge, gauge', active, active', Gauge.mk.injEq, or_iff_right few, activeSame]
    constructor
    · rintro ⟨⟨rfl, rfl, ram, hdd⟩, same⟩
      exact ⟨rfl, rfl, (wrapped_eq_iff 1024 _ _).mp ram, (wrapped_eq_iff 1024 _ _).mp hdd, same⟩
    · rintro ⟨rfl, rfl, ram, hdd, same⟩
      exact ⟨⟨rfl, rfl, (wrapped_eq_iff 1024 _ _).mpr ram, (wrapped_eq_iff 1024 _ _).mpr hdd⟩, same⟩

/-- A short log of a machine is replayed the same after a rotation. -/
theorem replay_rotateLog_short :
    let log := kernelLog ⟨9, 0, 0⟩ 2048 512 4 [(⟨9, 0, 1⟩, .allocated (40, 3))]
    (replayGauge (0, 0) (rotateLog [] log) = replayGauge (0, 0) log ∧
        replayActive (rotateLog [] log) = replayActive log) ↔ RotationUnseen (0, 0) 2048 512 log :=
  replay_rotateLog_iff [] (0, 0) ⟨9, 0, 0⟩ (by decide) (by decide) (by decide)
    (fun entry member => by
      rw [List.mem_singleton.mp member]
      exact ⟨⟨⟨by decide, by decide⟩, by simp⟩, by decide, by decide⟩)

/-- On a machine of other sizes a long log is misread once it has been rotated. -/
theorem rotation_forgets_sizes :
    let entries := List.replicate 100 ((⟨9, 0, 2⟩ : ClockTime), LogEntry.contextSwitch 101 (ascii "Clock") 0)
    let log := kernelLog ⟨9, 0, 0⟩ 2048 512 4 entries
    (∀ entry ∈ entries, entry.2.Late ∧ entry.2.Fits) ∧
      (replayGauge (0, 0) log).totalRam = 2048 ∧ (replayGauge (0, 0) (rotateLog [] log)).totalRam = 1024 := by
  intro entries log
  have fair : ∀ entry ∈ entries, entry.2.Late ∧ entry.2.Fits := by
    intro entry member
    rw [List.eq_of_mem_replicate member]
    refine ⟨⟨?_, by simp⟩, by decide, by decide⟩
    show ch ':' ∉ ascii "Clock"
    decide
  obtain ⟨carried, rest, read, unsized⟩ :=
    kernelLog_lines ⟨9, 0, 0⟩ (show InInt 2048 by decide) (show InInt 512 by decide) (show InInt 4 by decide) fair
  have rotated := dashboardLines_rotateLog [] carried
  -- A hundred and one lines are read, and the line of the sizes is dropped.
  have count : (dashboardLines log).length = 101 := by decide +kernel
  refine ⟨fair, ?_, ?_⟩
  · rw [(replay_sized (0, 0) read (readGauge_resources (0, 0) _ _ 4 (by decide) (by decide))
      (lineNet_resources _ _ _ _ _) (by decide) (by decide) unsized).1]
  · rw [count, read] at rotated
    rw [(replay_unsized (0, 0) rotated unsized).1]

/-- A rotation stores a line of at most 254 bytes as it is. -/
theorem storedLine_short (beyond : Bytes) {line : Bytes} (plain : 0 ∉ line) (short : line.length ≤ 254) :
    storedLine beyond line = line := by
  have text := cstring_of_notMem plain
  simp only [storedLine, text, if_pos (Nat.lt_succ_of_le short)]

/-- A rotation keeps the last hundred lines of a log of short lines. -/
theorem rotateLog_short (beyond : Bytes) {log : Bytes} (plain : 0 ∉ log)
    (short : ∀ line ∈ linesOf log, line.length ≤ 254) :
    rotateLog beyond log = rotationHeader ++ ((linesOf log).rtake 100).flatten := by
  have read : fgetsAll 256 log = linesOf log :=
    fgetsAll_eq_linesOf (by decide) fun line member => Nat.lt_of_le_of_lt (short line member) (by decide)
  have stored : (linesOf log).map (storedLine beyond) = linesOf log := by
    refine (List.map_congr_left fun line member => ?_).trans (List.map_id _)
    -- What is in a line is in the log.
    refine storedLine_short beyond (fun zero => plain ?_) (short line member)
    rw [← flatten_linesOf log]
    exact List.mem_flatten.mpr ⟨line, member, zero⟩
  rw [rotateLog, read, stored, LastRows.toList_stored, List.rtake]

/-- The lines of a rotated log are its header and the lines that were kept. -/
theorem linesOf_rotated (log : Bytes) (number : Nat) :
    linesOf (rotationHeader ++ ((linesOf log).rtake number).flatten) =
      rotationHeader :: (linesOf log).rtake number := by
  have header : newline ∉ ascii "[Log Daemon] Log rotated" := by decide
  rw [rotationHeader, List.append_assoc, List.singleton_append, linesOf_line header, List.rtake, linesOf_drop]

/-- What a log does not hold, the lines kept of it do not hold either. -/
theorem zero_notMem_rotated {log : Bytes} (plain : 0 ∉ log) (number : Nat) :
    0 ∉ rotationHeader ++ ((linesOf log).rtake number).flatten := by
  intro member
  rcases List.mem_append.mp member with header | inside
  · exact absurd header (by decide)
  · obtain ⟨line, listed, zero⟩ := List.mem_flatten.mp inside
    rw [← flatten_linesOf log] at plain
    exact plain (List.mem_flatten.mpr ⟨line, List.mem_of_mem_drop listed, zero⟩)

/-- The lines of a rotated log are as short as those of the log. -/
theorem short_rotated {log : Bytes} (short : ∀ line ∈ linesOf log, line.length ≤ 254) (number : Nat) :
    ∀ line ∈ linesOf (rotationHeader ++ ((linesOf log).rtake number).flatten), line.length ≤ 254 := by
  intro line member
  rw [linesOf_rotated] at member
  rcases List.mem_cons.mp member with rfl | listed
  · decide
  · exact short line (List.mem_of_mem_drop listed)

/--
A rotation keeps the newest lines, at most a hundred of them, unchanged and in their order behind its
header, and from a hundred lines on another rotation changes nothing.
-/
theorem rotateLog_newest (beyond : Bytes) {log : Bytes} (plain : 0 ∉ log)
    (short : ∀ line ∈ linesOf log, line.length ≤ 254) :
    rotateLog beyond log = rotationHeader ++ ((linesOf log).rtake (min (linesOf log).length 100)).flatten ∧
      (100 ≤ (linesOf log).length → ∀ beyond', rotateLog beyond' (rotateLog beyond log) = rotateLog beyond log) := by
  have once := rotateLog_short beyond plain short
  constructor
  · rw [once, List.rtake, List.rtake]
    congr 3
    omega
  · intro full beyond'
    have hundred : ((linesOf log).rtake 100).length = 100 := by
      rw [List.rtake, List.length_drop]
      omega
    -- Of the hundred and one lines it is the header that is dropped.
    have again : (rotationHeader :: (linesOf log).rtake 100).rtake 100 = (linesOf log).rtake 100 := by
      rw [List.rtake, List.length_cons, hundred]
      rfl
    -- A rotated log is again one that a rotation keeps.
    have twice := rotateLog_short beyond' (zero_notMem_rotated plain 100) (short_rotated short 100)
    rw [once, twice, linesOf_rotated, again]

/-- Of a log of a hundred and two lines, the last one unfinished, the first two are dropped. -/
theorem rotateLog_newest_two_dropped :
    let log := ascii "first" ++ newline :: ((List.replicate 100 (ascii "a" ++ [newline])).flatten ++ ascii "b")
    (linesOf log).length = 102 ∧
      rotateLog [] log = rotationHeader ++ ((linesOf log).rtake (min (linesOf log).length 100)).flatten ∧
      ((linesOf log).rtake (min (linesOf log).length 100)).flatten =
        (List.replicate 99 (ascii "a" ++ [newline])).flatten ++ ascii "b" ∧
      ∀ beyond, rotateLog beyond (rotateLog [] log) = rotateLog [] log := by
  intro log
  have count : (linesOf log).length = 102 := by decide +kernel
  obtain ⟨newest, again⟩ := rotateLog_newest [] (show 0 ∉ log by decide +kernel)
    (show ∀ line ∈ linesOf log, line.length ≤ 254 by decide +kernel)
  exact ⟨count, newest, by decide +kernel, again (by omega)⟩

end Nebula
