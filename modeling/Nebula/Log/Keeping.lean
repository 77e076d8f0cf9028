import Nebula.Log.Rewriting

/-! The log while the kernel and the system monitor write to it and the log daemon keeps it short. -/

namespace Nebula

open CText

/-- The size in bytes from which on the log is rotated. -/
abbrev maxLogSize : Nat := 1048576

/-- What happens to the log, one program at a time. -/
inductive LogWork where
  /-- log_event -/
  | event (time : ClockTime) (message : Bytes)
  /-- write_snapshot -/
  | snapshot (date : ClockDate) (time : ClockTime) (active pid : Int)
  /-- A turn of the log daemon's loop, with what is on its stack behind each row. -/
  | check (beyond : Bytes)

namespace LogWork

/-- What is written to the log. -/
def text : LogWork → Bytes
  | .event time message => logLine time message
  | .snapshot date time active pid => snapshotLine date time active pid
  | .check _ => []

/-- The lines of it, one call of fgets each. -/
def lines (work : LogWork) : List Bytes := fgetsAll 256 work.text

/-- The log afterwards. -/
def run (log : Bytes) : LogWork → Bytes
  | .check beyond => if log.length > maxLogSize then rotateLog beyond log else log
  | work => log ++ work.text

/-- One for a rotation. -/
def rotations (log : Bytes) : LogWork → Nat
  | .check _ => if log.length > maxLogSize then 1 else 0
  | _ => 0

/-- The message has room in a line of the readers and no terminator, and all numbers are ints. -/
def Fair : LogWork → Prop
  | .event _ message => message.length ≤ 241 ∧ 0 ∉ message
  | .snapshot date _ active pid => InInt date.year ∧ InInt active ∧ InInt pid
  | .check _ => True

theorem run_check (log beyond : Bytes) :
    run log (.check beyond) = if log.length > maxLogSize then rotateLog beyond log else log := rfl

theorem rotations_check (log beyond : Bytes) :
    rotations log (.check beyond) = if log.length > maxLogSize then 1 else 0 := rfl

/-- The lines that are written are carried over by a rotation. -/
theorem Fair.carried {work : LogWork} (fair : work.Fair) : ∀ line ∈ work.lines, Carried line := by
  intro line read
  cases work with
  | event time message =>
    obtain ⟨short, plain⟩ := fair
    have length := length_logLine time message
    -- However the message is broken into lines, the parts are short and have no terminator.
    refine ⟨wholeLine_of_short (by decide) (by decide) (ended_logLine time message) (by omega) line read, ?_⟩
    exact fun member => logLine_plain time plain ((infix_of_mem_fgetsAll (by decide) read).subset member)
  | snapshot date time active pid =>
    obtain ⟨year, activeFits, pidFits⟩ := fair
    have carried := carried_snapshotLine year time activeFits pidFits
    -- The snapshot is one line.
    obtain ⟨⟨body, whole, single, short⟩, -⟩ := id carried
    rw [lines, text, whole, fgetsAll_line single (by omega), fgetsAll_nil, List.mem_singleton, ← whole] at read
    rw [read]
    exact carried
  | check beyond => exact absurd read List.not_mem_nil

end LogWork

/-- A line that is carried over has at most 254 bytes. -/
theorem Carried.length_le {line : Bytes} (carried : Carried line) : line.length ≤ 254 := by
  -- The newline is one of them.
  obtain ⟨⟨body, rfl, -, short⟩, -⟩ := carried
  rw [List.length_append, List.length_singleton]
  omega

/-- Lines that are carried over take no more than 254 bytes each. -/
theorem length_flatten_carried {lines : List Bytes} (carried : ∀ line ∈ lines, Carried line) :
    lines.flatten.length ≤ 254 * lines.length := by
  induction lines with
  | nil => exact Nat.zero_le _
  | cons line lines ih =>
    have first := (carried line List.mem_cons_self).length_le
    have later := ih fun other member => carried other (List.mem_cons_of_mem _ member)
    rw [List.flatten_cons, List.length_append, List.length_cons]
    omega

/-- Lines that are carried over are read back as they were written. -/
theorem fgetsAll_carried {lines : List Bytes} (carried : ∀ line ∈ lines, Carried line) :
    fgetsAll 256 lines.flatten = lines := by
  apply fgetsAll_flatten
  intro line member
  obtain ⟨⟨body, whole, single, short⟩, -⟩ := carried line member
  -- They fit a smaller buffer than the one they are read into.
  exact ⟨body, whole, single, by omega⟩

/-- A log that consists of lines which are carried over. -/
def Lined (log : Bytes) : Prop := ∃ lines, log = List.flatten lines ∧ ∀ line ∈ lines, Carried line

/-- A rotation of such a log leaves the daemon's line and the last hundred. -/
theorem rotateLog_flatten (beyond : Bytes) {lines : List Bytes} (carried : ∀ line ∈ lines, Carried line) :
    rotateLog beyond lines.flatten = (rotationHeader :: lines.drop (lines.length - 100)).flatten := by
  have read := fgetsAll_carried carried
  -- What is read are the lines themselves.
  rw [rotateLog_eq beyond (by rw [read]; exact carried), read]

/-- After a rotation the log has the daemon's line and a hundred others at the most. -/
theorem length_rotateLog (beyond : Bytes) {log : Bytes} (lined : Lined log) :
    (rotateLog beyond log).length ≤ 25425 := by
  obtain ⟨lines, rfl, carried⟩ := lined
  have kept : ∀ line ∈ lines.drop (lines.length - 100), Carried line :=
    fun line member => carried line (List.mem_of_mem_drop member)
  have size := length_flatten_carried kept
  -- The daemon's line has 25 bytes.
  have header : rotationHeader.length = 25 := by decide
  rw [rotateLog_flatten beyond carried, List.flatten_cons, List.length_append, header]
  rw [List.length_drop] at size
  omega

/-- One program after the other leaves the log a list of lines. -/
theorem Lined.run {log : Bytes} (lined : Lined log) {work : LogWork} (fair : work.Fair) : Lined (work.run log) := by
  obtain ⟨lines, rfl, carried⟩ := lined
  -- A writer adds the lines of its text behind the others.
  have more : Lined (lines.flatten ++ work.text) := by
    refine ⟨lines ++ work.lines, ?_, fun line member => ?_⟩
    · rw [List.flatten_append, LogWork.lines, flatten_fgetsAll (by decide)]
    · exact (List.mem_append.mp member).elim (carried line) (fair.carried line)
  cases work with
  | event time message => exact more
  | snapshot date time active pid => exact more
  | check beyond =>
    rw [LogWork.run_check]
    split
    · refine ⟨rotationHeader :: lines.drop (lines.length - 100), rotateLog_flatten beyond carried, ?_⟩
      rw [List.forall_mem_cons]
      exact ⟨carried_rotationHeader, fun line member => carried line (List.mem_of_mem_drop member)⟩
    · exact ⟨lines, rfl, carried⟩

/-- What the log has of the lines that were written, after some rotations. -/
structure KeepsLast (log : Bytes) (written : List Bytes) (rotations : Nat) : Prop where
  /-- Before the first rotation nothing is lost. -/
  all : rotations = 0 → log = written.flatten
  /-- After it, the daemon's line is followed by the last ones, a hundred at least, in their order. -/
  last : 0 < rotations → ∃ kept, kept <:+ written ∧ 100 ≤ kept.length ∧ log = (rotationHeader :: kept).flatten

/-- One program more keeps the last lines. -/
theorem KeepsLast.run {log : Bytes} {written : List Bytes} {rotations : Nat} (keeps : KeepsLast log written rotations)
    (carried : ∀ line ∈ written, Carried line) (work : LogWork) :
    KeepsLast (work.run log) (written ++ work.lines) (rotations + work.rotations log) := by
  -- Behind the lines of the log a writer adds its own.
  have added : KeepsLast (log ++ work.text) (written ++ work.lines) rotations := by
    have text : work.lines.flatten = work.text := flatten_fgetsAll (by decide) _
    refine ⟨fun none => ?_, fun some => ?_⟩
    · rw [keeps.all none, List.flatten_append, text]
    · obtain ⟨kept, ⟨before, split⟩, many, same⟩ := keeps.last some
      refine ⟨kept ++ work.lines, ⟨before, by rw [← split, List.append_assoc]⟩, ?_, ?_⟩
      · rw [List.length_append]
        omega
      · rw [same, ← List.cons_append, List.flatten_append, text]
  cases work with
  | event time message => exact added
  | snapshot date time active pid => exact added
  | check beyond =>
    have limit : maxLogSize = 1048576 := rfl
    rw [LogWork.run_check, LogWork.rotations_check]
    by_cases full : log.length > maxLogSize
    · rw [if_pos full, if_pos full]
      refine ⟨fun none => absurd none (by omega), fun _ => ?_⟩
      have nothing : written ++ (LogWork.check beyond).lines = written := List.append_nil written
      rw [nothing]
      by_cases some : 0 < rotations
      · obtain ⟨kept, suffix, many, rfl⟩ := keeps.last some
        have lines : ∀ line ∈ rotationHeader :: kept, Carried line :=
          List.forall_mem_cons.mpr
            ⟨carried_rotationHeader, fun line member => carried line (suffix.subset member)⟩
        have size := length_flatten_carried lines
        rw [List.length_cons] at size
        -- So many lines are needed for the size that the daemon's own is not among the last hundred.
        have much : 100 < kept.length := by omega
        refine ⟨kept.drop (kept.length - 100), (List.drop_suffix _ _).trans suffix, ?_, ?_⟩
        · rw [List.length_drop]
          omega
        · rw [rotateLog_flatten beyond lines, List.length_cons,
            show kept.length + 1 - 100 = kept.length - 100 + 1 by omega, List.drop_succ_cons]
      · have first := keeps.all (by omega)
        subst first
        have size := length_flatten_carried carried
        refine ⟨written.drop (written.length - 100), List.drop_suffix _ _, ?_, rotateLog_flatten beyond carried⟩
        rw [List.length_drop]
        omega
    · rw [if_neg full, if_neg full]
      simpa [LogWork.text] using added

/-- The lines that are written while some programs run. -/
def writtenLines (works : List LogWork) : List Bytes := works.flatMap LogWork.lines

/-- How often the log is rotated meanwhile. -/
def rotationCount (works : List LogWork) : Nat :=
  Machine.total LogWork.run LogWork.rotations [] works

/-- Programs that write something do not rotate the log. -/
theorem rotationCount_writers {works : List LogWork} (writers : ∀ work ∈ works, work.text ≠ []) :
    rotationCount works = 0 := by
  -- That holds whatever is in the log already.
  suffices silent : ∀ log, Machine.total LogWork.run LogWork.rotations log works = 0 from silent []
  induction works with
  | nil => exact fun log => rfl
  | cons work works ih =>
    intro log
    have later := ih fun other member => writers other (List.mem_cons_of_mem _ member)
    rw [Machine.total, later, Nat.add_zero]
    cases work with
    | event time message => rfl
    | snapshot date time active pid => rfl
    | check beyond => exact absurd rfl (writers _ List.mem_cons_self)

/-- However the programs alternate, the log keeps the last lines. -/
theorem keepsLast_run {works : List LogWork} (fair : ∀ work ∈ works, work.Fair) :
    KeepsLast (Machine.run LogWork.run [] works) (writtenLines works) (rotationCount works) := by
  -- The last program comes to the log that the others have left.
  induction works using List.reverseRecOn with
  | nil => exact ⟨fun _ => rfl, fun some => absurd some (Nat.lt_irrefl 0)⟩
  | append_singleton works work ih =>
    have before := ih fun other member => fair other (List.mem_append_left _ member)
    have carried : ∀ line ∈ writtenLines works, Carried line := by
      intro line member
      obtain ⟨other, listed, read⟩ := List.mem_flatMap.mp member
      exact (fair other (List.mem_append_left _ listed)).carried line read
    rw [Machine.run_append, rotationCount, Machine.total_append, writtenLines, List.flatMap_append,
      List.flatMap_singleton]
    exact before.run carried work

/-- The lines that are written are all that is written. -/
theorem length_writtenLines (works : List LogWork) :
    (writtenLines works).flatten.length = (works.map fun work => work.text.length).sum := by
  induction works with
  | nil => rfl
  | cons work works ih =>
    have lines : writtenLines (work :: works) = work.lines ++ writtenLines works := List.flatMap_cons
    rw [List.map_cons, List.sum_cons, ← ih, lines, List.flatten_append, List.length_append, LogWork.lines,
      flatten_fgetsAll (by decide)]

/-- What is written between two rotations is more than what a rotation leaves. -/
theorem rotations_paid {works : List LogWork} (fair : ∀ work ∈ works, work.Fair) :
    1023152 * rotationCount works + (Machine.run LogWork.run [] works).length ≤
      (writtenLines works).flatten.length := by
  -- The size of the log is the potential: a rotation takes what it costs from it.
  have balanced : ∀ (log : Bytes) (work : LogWork), Lined log → work.Fair →
      1023152 * work.rotations log + (work.run log).length ≤ log.length + work.text.length := by
    intro log work lined fair
    cases work with
    | event time message => simp [LogWork.run, LogWork.rotations]
    | snapshot date time active pid => simp [LogWork.run, LogWork.rotations]
    | check beyond =>
      rw [LogWork.run_check, LogWork.rotations_check]
      have small := length_rotateLog beyond lined
      have limit : maxLogSize = 1048576 := rfl
      split <;> omega
  have empty : Lined [] := ⟨[], rfl, fun line member => absurd member List.not_mem_nil⟩
  have paid := Machine.total_add_potential_le (fun log work lined fair => Lined.run lined fair) balanced empty fair
  rw [← length_writtenLines, List.length_nil, Nat.zero_add] at paid
  exact paid

/--
However the kernel, the system monitor and the log daemon take turns, the log has all lines that were
written, or the daemon's line and the last ones, a hundred at least; it is no larger than the daemon
allows after each of its turns, and it is rotated at most once for each 1023152 bytes that are written.
-/
theorem log_is_kept (works : List LogWork) (fair : ∀ work ∈ works, work.Fair) :
    KeepsLast (Machine.run LogWork.run [] works) (writtenLines works) (rotationCount works) ∧
      (∀ beyond, works.getLast? = some (.check beyond) →
        (Machine.run LogWork.run [] works).length ≤ maxLogSize) ∧
      1023152 * rotationCount works ≤ (writtenLines works).flatten.length := by
  refine ⟨keepsLast_run fair, fun beyond last => ?_, Nat.le_trans (Nat.le_add_right _ _) (rotations_paid fair)⟩
  obtain ⟨before, rfl⟩ := List.getLast?_eq_some_iff.mp last
  have lined : Lined (Machine.run LogWork.run [] before) := by
    have each := fun work member => fair work (List.mem_append_left _ member)
    clear last fair
    induction before using List.reverseRecOn with
    | nil => exact ⟨[], rfl, fun line member => absurd member List.not_mem_nil⟩
    | append_singleton before work ih =>
      rw [Machine.run_append]
      exact (ih fun other member => each other (List.mem_append_left _ member)).run
        (each work (List.mem_append_right _ (List.mem_singleton_self work)))
  rw [Machine.run_append, Machine.run_cons, Machine.run_nil, LogWork.run_check]
  -- Either the log was small enough, or it has just been rotated.
  split
  · have small := length_rotateLog beyond lined
    have limit : maxLogSize = 1048576 := rfl
    omega
  · omega

/-- The log grows past what the daemon allows, the monitor looks once, and the daemon rotates it. -/
theorem log_is_kept_rotated :
    let writers := List.replicate 4129 (LogWork.event ⟨9, 0, 0⟩ (List.replicate 241 (ch 'm'))) ++
      [.snapshot ⟨2025, 6, 1⟩ ⟨9, 0, 1⟩ 3 120]
    let works := writers ++ [.check []]
    rotationCount works = 1 ∧ KeepsLast (Machine.run LogWork.run [] works) (writtenLines works) 1 ∧
      (Machine.run LogWork.run [] works).length ≤ maxLogSize := by
  intro writers works
  have fair : ∀ work ∈ works, work.Fair := by
    intro work member
    simp only [works, writers, List.mem_append, List.mem_replicate, List.mem_singleton] at member
    obtain (⟨-, rfl⟩ | rfl) | rfl := member
    · exact ⟨List.length_replicate.le, by decide +kernel⟩
    · exact ⟨by decide, by decide, by decide⟩
    · trivial
  have unrotated : rotationCount writers = 0 := by
    refine rotationCount_writers fun work member => ?_
    simp only [writers, List.mem_append, List.mem_replicate, List.mem_singleton] at member
    obtain ⟨-, rfl⟩ | rfl := member <;> exact List.cons_ne_nil _ _
  -- So the daemon finds all that was written, which is too much.
  have full : (Machine.run LogWork.run [] writers).length > maxLogSize := by
    have before := keepsLast_run fun work member => fair work (List.mem_append_left _ member)
    have line : (LogWork.event ⟨9, 0, 0⟩ (List.replicate 241 (ch 'm'))).text.length = 254 := by decide +kernel
    rw [before.all unrotated, length_writtenLines, List.map_append, List.map_replicate, List.sum_append,
      List.sum_replicate, line]
    exact Nat.lt_of_lt_of_le (by decide) (Nat.le_add_right _ _)
  have once : rotationCount works = 1 := by
    rw [rotationCount, Machine.total_append, ← rotationCount, unrotated, Machine.total, LogWork.rotations_check,
      if_pos full]
    rfl
  obtain ⟨keeps, small, -⟩ := log_is_kept works fair
  exact ⟨once, once ▸ keeps, small [] List.getLast?_concat⟩

end Nebula
