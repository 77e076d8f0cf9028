import Nebula.Library.Machine
import Nebula.Library.Records
import Nebula.Log.Rotation

/-! One rotation of the log, call by call, while the kernel and the system monitor append lines to it. -/

namespace Nebula

open CText

/-- A byte of the log, with the number of the appended line that it was written for. -/
abbrev LogCell := Cell UInt8

/-- What fgets stores, call after call, of a text whose bytes have origins. -/
def cellLines (cells : List LogCell) : List (List LogCell) :=
  ((fgetsAll 256 (cells.map Cell.byte)).map List.length).splitLengths cells

/-- The C string in a row of lines, as storedLine has it, with the origins of its bytes. -/
def storedCells (beyond : Bytes) (line : List LogCell) : List LogCell :=
  let text := line.takeWhile (·.byte != 0)
  if text.length < 255 then text else text ++ Cell.plain (cstring beyond)

/-- What rotate_log writes back for the text that it has read. -/
def rotatedCells (beyond : Bytes) (cells : List LogCell) : List LogCell :=
  let lines : LastRows (List LogCell) 100 :=
    ((cellLines cells).map (storedCells beyond)).foldl LastRows.store ⟨Vector.replicate 100 [], 0⟩
  Cell.plain rotationHeader ++ lines.toList.flatten

/-- Where rotate_log is: what it has read so far, or what it has yet to write and where. -/
inductive RotationStage where
  | begun
  | reading (taken : List LogCell)
  /-- The file is read and closed; so many lines had been appended when its end was met. -/
  | closed (text : List LogCell) (seen : Nat)
  | writing (offset : Nat) (unwritten : List LogCell)
  | finished
  deriving DecidableEq

/-- The log while it is rotated, with the lines appended since. -/
structure SharedLog where
  content : List LogCell
  appended : List Bytes
  stage : RotationStage

/-- What happens to the log: a write of log_event or write_snapshot, or the next call of rotate_log. -/
inductive LogOp where
  | append (lines : List Bytes)
  /-- A call of fopen succeeds or not, and read and write pass at most so many bytes, and one more. -/
  | rotate (opened : Bool) (bytes : Nat)

namespace SharedLog

/-- A rotation of a log begins. -/
def start (log : Bytes) : SharedLog := ⟨Cell.plain log, [], .begun⟩

/-- The next call of rotate_log. -/
def advance (beyond : Bytes) (s : SharedLog) (opened : Bool) (bytes : Nat) : SharedLog :=
  match s.stage with
  | .begun => { s with stage := if opened then .reading [] else .finished }
  | .reading taken =>
    let more := (s.content.drop taken.length).take (bytes + 1)
    -- A read of nothing is the end of the file.
    if more = [] then { s with stage := .closed (rotatedCells beyond taken) s.appended.length }
    else { s with stage := .reading (taken ++ more) }
  | .closed text _ =>
    if opened then { s with content := [], stage := .writing 0 text } else { s with stage := .finished }
  | .writing offset unwritten =>
    if unwritten = [] then { s with stage := .finished }
    else
      let chunk := unwritten.take (bytes + 1)
      -- The rotation writes where it left off, the others at the end of the file.
      { s with
        content := Cell.overwrite s.content offset chunk
        stage := .writing (offset + chunk.length) (unwritten.drop (bytes + 1)) }
  | .finished => s

def step (beyond : Bytes) (s : SharedLog) : LogOp → SharedLog
  | .append lines =>
    { s with
      content := s.content ++ (Cell.records s.appended.length lines).flatten
      appended := s.appended ++ lines }
  | .rotate opened bytes => s.advance beyond opened bytes

/-- Every line that was appended is in the file, whole and exactly once. -/
def KeepsAll (s : SharedLog) : Prop :=
  ∀ number line, s.appended[number]? = some line → Cell.WholeOnce s.content number line

/--
A step that loses no line.

The file is truncated only when all lines appended since the beginning were read and are kept, and
nothing is appended to it before the rotation has written its last byte.
-/
def Harmless (s : SharedLog) : LogOp → Prop
  | .append lines =>
    match s.stage with
    | .writing _ unwritten => lines = [] ∨ unwritten = []
    | _ => True
  | .rotate opened _ =>
    match s.stage with
    | .closed _ seen => opened = true → s.appended.length = seen ∧ seen ≤ 100
    | _ => True

end SharedLog

/-- The lines that are appended are short, ended and without terminators inside. -/
def LogOp.Fair : LogOp → Prop
  | .append lines => ∀ line ∈ lines, Carried line
  | .rotate _ _ => True

/-- The lines with their origins are the lines that fgets reads. -/
theorem bytes_cellLines (cells : List LogCell) :
    (cellLines cells).map (List.map Cell.byte) = fgetsAll 256 (cells.map Cell.byte) := by
  -- The cells are cut where the bytes are, and the bytes are cut into the lines.
  have joined := flatten_fgetsAll (show 2 ≤ 256 by decide) (cells.map Cell.byte)
  have split := Cell.splitLengths_flatten (fgetsAll 256 (cells.map Cell.byte))
  rw [joined] at split
  rw [cellLines, Cell.splitLengths_map, split]

/-- What is stored of a line does not depend on where its bytes come from. -/
theorem bytes_storedCells (beyond : Bytes) (line : List LogCell) :
    (storedCells beyond line).map Cell.byte = storedLine beyond (line.map Cell.byte) := by
  -- Where the terminator is, and whether the line is cut, depends on the bytes only.
  have text : (line.takeWhile (·.byte != 0)).map Cell.byte = cstring (line.map Cell.byte) := by
    rw [cstring, List.takeWhile_map]
    rfl
  have length : (line.takeWhile (·.byte != 0)).length = (cstring (line.map Cell.byte)).length := by
    rw [← text, List.length_map]
  simp only [storedCells, storedLine, length]
  split
  · exact text
  · rw [List.map_append, text, Cell.bytes_plain]

/-- The rotation that keeps track of origins writes back the bytes that a rotation does. -/
theorem bytes_rotatedCells (beyond : Bytes) (cells : List LogCell) :
    (rotatedCells beyond cells).map Cell.byte = rotateLog beyond (cells.map Cell.byte) := by
  -- Row by row, what is stored has the bytes that are stored.
  have rows : ((cellLines cells).map (storedCells beyond)).map (List.map Cell.byte) =
      (fgetsAll 256 (cells.map Cell.byte)).map (storedLine beyond) := by
    rw [← bytes_cellLines, List.map_map, List.map_map]
    exact List.map_congr_left fun line _ => bytes_storedCells beyond line
  have count := congrArg List.length rows
  rw [List.length_map] at count
  rw [rotatedCells, rotateLog, LastRows.toList_stored, LastRows.toList_stored, List.map_append,
    Cell.bytes_plain, List.map_flatten, List.map_drop, rows, count]

theorem Carried.length_pos {line : Bytes} (carried : Carried line) : 0 < line.length := by
  obtain ⟨⟨body, rfl, -, -⟩, -⟩ := carried
  simp

/-- Lines that are carried over are read and stored as they were appended. -/
theorem cellLines_records {log : Bytes} (ended : Ended log) (first : Nat) {lines : List Bytes}
    (carried : ∀ line ∈ lines, Carried line) :
    cellLines (Cell.plain log ++ (Cell.records first lines).flatten) =
      cellLines (Cell.plain log) ++ Cell.records first lines := by
  have whole : ∀ line ∈ lines, WholeLine 256 line := by
    intro line member
    obtain ⟨⟨body, split, plain, short⟩, -⟩ := carried line member
    exact ⟨body, split, plain, by omega⟩
  have bytes : ((Cell.records first lines).flatten).map Cell.byte = lines.flatten := by
    rw [List.map_flatten, Cell.bytes_records]
  have lengths : lines.map List.length = (Cell.records first lines).map List.length := by
    conv_lhs => rw [← Cell.bytes_records first lines]
    simp [Function.comp_def]
  -- The log before is read up to its end, and each line behind it by itself.
  have used : ((fgetsAll 256 log).map List.length).sum = (Cell.plain log).length := by
    rw [← List.length_flatten, flatten_fgetsAll (by decide), Cell.plain, List.length_map]
  rw [cellLines, cellLines, List.map_append, bytes, Cell.bytes_plain, fgetsAll_append (by decide) ended,
    fgetsAll_flatten whole, List.map_append, lengths, Cell.splitLengths_append used,
    Cell.splitLengths_flatten]

theorem storedCells_record (beyond : Bytes) (number : Nat) {line : Bytes} (carried : Carried line) :
    storedCells beyond (Cell.record number line) = Cell.record number line := by
  obtain ⟨⟨body, rfl, -, short⟩, plain⟩ := carried
  -- A carried line has no terminator in it and fits into the buffer.
  have text : (Cell.record number (body ++ [newline])).takeWhile (·.byte != 0) =
      Cell.record number (body ++ [newline]) := by
    rw [List.takeWhile_eq_self_iff]
    intro cell member
    obtain ⟨byte, inside, rfl⟩ := List.mem_map.mp member
    exact bne_iff_ne.mpr fun zero => plain (zero ▸ inside)
  have room : (Cell.record number (body ++ [newline])).length < 255 := by
    rw [Cell.record, List.length_map, List.length_append, List.length_singleton]
    exact short
  simp only [storedCells, text, if_pos room]

theorem storedCells_records (beyond : Bytes) (first : Nat) {lines : List Bytes}
    (carried : ∀ line ∈ lines, Carried line) :
    (Cell.records first lines).map (storedCells beyond) = Cell.records first lines := by
  induction lines generalizing first with
  | nil => rfl
  | cons line lines ih =>
    rw [Cell.records, List.map_cons, storedCells_record beyond first (carried line List.mem_cons_self),
      ih (first + 1) fun other member => carried other (List.mem_cons_of_mem _ member)]

/-- What was in the log before keeps no origin when it is stored. -/
theorem origin_stored (beyond log : Bytes) :
    ∀ line ∈ (cellLines (Cell.plain log)).map (storedCells beyond), ∀ cell ∈ line, cell.origin = none := by
  intro line member cell inside
  obtain ⟨read, listed, rfl⟩ := List.mem_map.mp member
  have text : ∀ cell ∈ read.takeWhile (·.byte != 0), cell.origin = none := by
    intro cell taken
    -- A line is a part of the text that was read.
    have part : cell ∈ (cellLines (Cell.plain log)).flatten :=
      List.mem_flatten.mpr ⟨read, listed, (List.takeWhile_sublist _).mem taken⟩
    rw [cellLines, List.flatten_splitLengths] at part
    · exact Cell.origin_plain cell part
    · rw [← List.length_flatten, flatten_fgetsAll (by decide), List.length_map]
  unfold storedCells at inside
  dsimp only at inside
  split at inside
  · exact text cell inside
  · rcases List.mem_append.mp inside with here | behind
    · exact text cell here
    · exact Cell.origin_plain cell behind

/-- A rotation writes back, behind bytes without origin, the last hundred of the appended lines. -/
theorem rotatedCells_records (beyond : Bytes) {log : Bytes} (ended : Ended log) {lines : List Bytes}
    (carried : ∀ line ∈ lines, Carried line) :
    ∃ front, (∀ cell ∈ front, cell.origin = none) ∧
      rotatedCells beyond (Cell.plain log ++ (Cell.records 0 lines).flatten) =
        front ++ (Cell.records (lines.length - 100) (lines.drop (lines.length - 100))).flatten := by
  rw [rotatedCells, cellLines_records ended 0 carried, List.map_append, storedCells_records beyond 0 carried,
    LastRows.toList_stored]
  have unowned := origin_stored beyond log
  generalize (cellLines (Cell.plain log)).map (storedCells beyond) = before at unowned
  -- Of the lines before the appended ones, only as many are kept as there is room for.
  have dropped : (before ++ Cell.records 0 lines).length - 100 - before.length = lines.length - 100 := by
    rw [List.length_append, Cell.length_records]
    omega
  refine ⟨Cell.plain rotationHeader ++
    (before.drop ((before ++ Cell.records 0 lines).length - 100)).flatten, ?_, ?_⟩
  · intro cell member
    rcases List.mem_append.mp member with header | kept
    · exact Cell.origin_plain cell header
    · obtain ⟨line, listed, inside⟩ := List.mem_flatten.mp kept
      exact unowned line (List.mem_of_mem_drop listed) cell inside
  · rw [List.drop_append, dropped, Cell.records_drop, Nat.zero_add, List.flatten_append, List.append_assoc]

namespace SharedLog

/-- Behind bytes without origin the file has the appended lines, one behind the other. -/
def Whole (content : List LogCell) (appended : List Bytes) : Prop :=
  ∃ front, (∀ cell ∈ front, cell.origin = none) ∧ content = front ++ (Cell.records 0 appended).flatten

/-- What is in the file of a rotation without losses, call by call. -/
def Sound (beyond log : Bytes) (content : List LogCell) (appended : List Bytes) : RotationStage → Prop
  | .begun => content = Cell.plain log ++ (Cell.records 0 appended).flatten
  | .reading taken => content = Cell.plain log ++ (Cell.records 0 appended).flatten ∧ taken <+: content
  | .closed text seen =>
    content = Cell.plain log ++ (Cell.records 0 appended).flatten ∧ seen ≤ appended.length ∧
      text = rotatedCells beyond (Cell.plain log ++ (Cell.records 0 (appended.take seen)).flatten)
  | .writing offset unwritten => Whole (content ++ unwritten) appended ∧ (content.length = offset ∨ unwritten = [])
  | .finished => Whole content appended

/-- The file that the rotation will leave if nothing more is appended. -/
def settled (s : SharedLog) : List LogCell :=
  match s.stage with
  | .writing offset unwritten => Cell.overwrite s.content offset unwritten
  | _ => s.content

/-- After the file was truncated, some bytes of an appended line are gone or will be. -/
def Lost (s : SharedLog) : Prop :=
  (∃ number line, s.appended[number]? = some line ∧ Cell.marks number s.settled < line.length) ∧
  match s.stage with
  | .writing offset _ => offset ≤ s.content.length
  | .finished => True
  | _ => False

theorem Whole.append {content : List LogCell} {appended : List Bytes} (whole : Whole content appended)
    (lines : List Bytes) :
    Whole (content ++ (Cell.records appended.length lines).flatten) (appended ++ lines) := by
  obtain ⟨front, unowned, rfl⟩ := whole
  exact ⟨front, unowned, by rw [Cell.records_append, List.flatten_append, Nat.zero_add, List.append_assoc]⟩

/-- Where the appended lines are whole, nothing belongs to lines that are yet to be appended. -/
theorem Whole.marks {content : List LogCell} {appended : List Bytes} (whole : Whole content appended)
    {number : Nat} (later : appended.length ≤ number) : Cell.marks number content = 0 := by
  obtain ⟨front, unowned, rfl⟩ := whole
  rw [Cell.marks_append, Cell.marks_plain unowned, Cell.marks_eq_zero]
  intro cell member
  obtain ⟨other, origin, -, below⟩ := Cell.origin_records cell member
  rw [origin, Ne, Option.some.injEq]
  omega

theorem Whole.keepsAll {s : SharedLog} (whole : Whole s.content s.appended) : s.KeepsAll := by
  obtain ⟨front, unowned, content⟩ := whole
  intro number line here
  rw [content]
  exact Cell.wholeOnce_records unowned here

/-- A line of which bytes are gone is not in the file as a whole. -/
theorem Lost.not_keepsAll {s : SharedLog} (lost : Lost s) (finished : s.stage = .finished) :
    ¬ s.KeepsAll := by
  intro keeps
  obtain ⟨⟨number, line, here, fewer⟩, -⟩ := lost
  -- The rotation has nothing left to write, so what is gone stays gone.
  have settled : s.settled = s.content := by rw [SharedLog.settled, finished]
  rw [settled, (keeps number line here).marks] at fewer
  exact Nat.lt_irrefl _ fewer

/-- Lines that are appended where this is harmless are whole behind the others. -/
theorem Sound.append {beyond log : Bytes} {content : List LogCell} {appended : List Bytes}
    {stage : RotationStage} (sound : Sound beyond log content appended stage) {lines : List Bytes}
    (harmless : Harmless ⟨content, appended, stage⟩ (.append lines)) :
    Sound beyond log (content ++ (Cell.records appended.length lines).flatten) (appended ++ lines) stage := by
  -- The new lines are numbered on from the old ones.
  have grown : ∀ front : List LogCell, front ++ (Cell.records 0 appended).flatten ++
      (Cell.records appended.length lines).flatten =
        front ++ (Cell.records 0 (appended ++ lines)).flatten := by
    intro front
    rw [Cell.records_append, List.flatten_append, Nat.zero_add, List.append_assoc]
  cases stage with
  | begun =>
    rw [Sound] at sound
    rw [sound]
    exact grown _
  | reading taken =>
    obtain ⟨whole, begins⟩ := sound
    exact ⟨by rw [whole]; exact grown _, begins.trans (List.prefix_append _ _)⟩
  | closed text seen =>
    obtain ⟨whole, within, read⟩ := sound
    refine ⟨by rw [whole]; exact grown _, ?_, ?_⟩
    · rw [List.length_append]
      omega
    · rw [List.take_append_of_le_length within]
      exact read
  | writing offset unwritten =>
    obtain ⟨whole, position⟩ := sound
    -- Either nothing is appended or the rotation has nothing left to write.
    obtain rfl | rfl := (harmless : lines = [] ∨ unwritten = [])
    · rw [Cell.records, List.flatten_nil, List.append_nil, List.append_nil]
      exact ⟨whole, position⟩
    · rw [List.append_nil] at whole
      exact ⟨by simpa using whole.append lines, Or.inr rfl⟩
  | finished => exact Whole.append sound lines

/-- What is written back for a text with so many appended lines. -/
theorem rotatedCells_take (beyond : Bytes) {log : Bytes} (ended : Ended log) {appended : List Bytes}
    (carried : ∀ line ∈ appended, Carried line) {seen : Nat} (within : seen ≤ appended.length) :
    ∃ front, (∀ cell ∈ front, cell.origin = none) ∧
      rotatedCells beyond (Cell.plain log ++ (Cell.records 0 (appended.take seen)).flatten) =
        front ++ (Cell.records (seen - 100) ((appended.take seen).drop (seen - 100))).flatten := by
  have length : (appended.take seen).length = seen := by
    rw [List.length_take]
    omega
  have kept := rotatedCells_records beyond ended
    (show ∀ line ∈ appended.take seen, Carried line from fun line member =>
      carried line (List.mem_of_mem_take member))
  rwa [length] at kept

/-- A harmless call of the rotation keeps the appended lines whole. -/
theorem Sound.advance {beyond log : Bytes} (ended : Ended log) {s : SharedLog}
    (carried : ∀ line ∈ s.appended, Carried line) (sound : Sound beyond log s.content s.appended s.stage)
    {opened : Bool} {bytes : Nat} (harmless : s.Harmless (.rotate opened bytes)) :
    let s' := s.advance beyond opened bytes
    s'.appended = s.appended ∧ Sound beyond log s'.content s'.appended s'.stage := by
  obtain ⟨content, appended, stage⟩ := s
  dsimp only at carried sound ⊢
  cases stage with
  | begun =>
    cases opened with
    -- Without the file there is no rotation, and the log stays as it is.
    | false => exact ⟨rfl, Cell.plain log, Cell.origin_plain, sound⟩
    | true => exact ⟨rfl, sound, List.nil_prefix⟩
  | reading taken =>
    obtain ⟨whole, rest, split⟩ := sound
    have left : content.drop taken.length = rest := by rw [← split, List.drop_left]
    simp only [SharedLog.advance, left]
    by_cases atEnd : rest.take (bytes + 1) = []
    · -- All of the file has been taken, the lines appended meanwhile included.
      have nothing : rest = [] := by simpa using atEnd
      rw [nothing, List.append_nil] at split
      simp only [if_pos atEnd]
      refine ⟨trivial, whole, Nat.le_refl _, ?_⟩
      rw [List.take_length, ← whole, split]
    · simp only [if_neg atEnd]
      refine ⟨trivial, whole, ?_⟩
      rw [← split]
      exact (List.prefix_append_right_inj taken).mpr (List.take_prefix _ _)
  | closed text seen =>
    obtain ⟨whole, within, read⟩ := sound
    cases opened with
    | false => exact ⟨rfl, Cell.plain log, Cell.origin_plain, whole⟩
    | true =>
      -- Every appended line was read, and all of them are among the last hundred.
      obtain ⟨all, few⟩ : appended.length = seen ∧ seen ≤ 100 := harmless rfl
      obtain ⟨front, unowned, kept⟩ := rotatedCells_take beyond ended carried within
      refine ⟨rfl, ⟨front, unowned, ?_⟩, Or.inl rfl⟩
      show [] ++ text = front ++ (Cell.records 0 appended).flatten
      rw [List.nil_append, read, kept, Nat.sub_eq_zero_of_le few, List.drop_zero, ← all, List.take_length]
  | writing offset unwritten =>
    obtain ⟨whole, position⟩ := sound
    by_cases done : unwritten = []
    · simp only [SharedLog.advance, if_pos done]
      rw [done, List.append_nil] at whole
      exact ⟨trivial, whole⟩
    · -- The next bytes go to the end of the file.
      obtain rfl := position.resolve_right done
      simp only [SharedLog.advance, if_neg done]
      refine ⟨trivial, ?_, Or.inl ?_⟩
      · rw [Cell.overwrite_end, List.append_assoc, List.take_append_drop]
        exact whole
      · rw [Cell.overwrite_end, List.length_append]
  | finished => exact ⟨rfl, sound⟩

/-- What is appended later belongs to other lines than those that are in the log. -/
private theorem marks_later {number : Nat} {appended lines : List Bytes} (inside : number < appended.length)
    {part : List LogCell} (within : part ⊆ (Cell.records appended.length lines).flatten) :
    Cell.marks number part = 0 := by
  refine Cell.marks_eq_zero fun cell member => ?_
  obtain ⟨other, origin, above, -⟩ := Cell.origin_records cell (within member)
  rw [origin, Ne, Option.some.injEq]
  omega

/-- Appending lines brings back no byte of another line. -/
theorem Lost.append {s : SharedLog} (lost : Lost s) (lines : List Bytes) :
    Lost { s with
      content := s.content ++ (Cell.records s.appended.length lines).flatten
      appended := s.appended ++ lines } := by
  obtain ⟨content, appended, stage⟩ := s
  obtain ⟨⟨number, line, here, fewer⟩, position⟩ := lost
  have inside : number < appended.length := (List.getElem?_eq_some_iff.mp here).1
  have still : (appended ++ lines)[number]? = some line := by
    rw [List.getElem?_append_left inside]
    exact here
  cases stage with
  | writing offset unwritten =>
    refine ⟨⟨number, line, still, ?_⟩, ?_⟩
    · -- What the rotation still writes covers the same bytes as before, and perhaps some of the new ones.
      show Cell.marks number (Cell.overwrite (content ++ _) offset unwritten) < line.length
      rw [Cell.overwrite_append position, Cell.marks_append, marks_later inside (List.drop_subset _ _)]
      exact fewer
    · show offset ≤ (content ++ _).length
      rw [List.length_append]
      exact Nat.le_trans position (Nat.le_add_right _ _)
  | finished =>
    refine ⟨⟨number, line, still, ?_⟩, trivial⟩
    show Cell.marks number (content ++ _) < line.length
    rw [Cell.marks_append, marks_later inside (List.Subset.refl _)]
    exact fewer
  | _ => exact position.elim

/-- The rotation brings back no byte that it does not write. -/
theorem Lost.advance {beyond : Bytes} {s : SharedLog} (lost : Lost s) (opened : Bool) (bytes : Nat) :
    Lost (s.advance beyond opened bytes) := by
  obtain ⟨content, appended, stage⟩ := s
  obtain ⟨⟨number, line, here, fewer⟩, position⟩ := lost
  cases stage with
  | writing offset unwritten =>
    by_cases done : unwritten = []
    · simp only [SharedLog.advance, if_pos done]
      refine ⟨⟨number, line, here, ?_⟩, trivial⟩
      have now : Cell.marks number (Cell.overwrite content offset unwritten) < line.length := fewer
      rw [done, Cell.overwrite_nil] at now
      exact now
    · simp only [SharedLog.advance, if_neg done]
      refine ⟨⟨number, line, here, ?_⟩, Cell.length_overwrite position _⟩
      -- Writing the rest in two parts comes to the same.
      show Cell.marks number (Cell.overwrite (Cell.overwrite content offset _) _ _) < line.length
      rw [Cell.overwrite_overwrite position, List.take_append_drop]
      exact fewer
  | finished => exact ⟨⟨number, line, here, fewer⟩, trivial⟩
  | _ => exact position.elim

/-- Once bytes of a line are gone, no step brings them back. -/
theorem Lost.step {beyond : Bytes} {s : SharedLog} (lost : Lost s) (op : LogOp) :
    Lost (s.step beyond op) := by
  cases op with
  | append lines => exact lost.append lines
  | rotate opened bytes => exact lost.advance opened bytes

/-- Where the file is written anew without the bytes of a line, the line is lost. -/
private theorem lost_of_truncated {appended : List Bytes} {text : List LogCell} {number : Nat} {line : Bytes}
    (here : appended[number]? = some line) (carried : Carried line)
    (missing : ∀ cell ∈ text, cell.origin ≠ some number) : Lost ⟨[], appended, .writing 0 text⟩ := by
  refine ⟨⟨number, line, here, ?_⟩, Nat.zero_le _⟩
  show Cell.marks number (Cell.overwrite [] 0 text) < line.length
  rw [Cell.overwrite, List.take_nil, List.drop_nil, List.nil_append, List.append_nil, Cell.marks_eq_zero missing]
  exact carried.length_pos

/-- A line that is appended before the rotation has written its last byte is lost. -/
private theorem lost_of_append {content : List LogCell} {appended : List Bytes} {offset : Nat}
    {unwritten : List LogCell} (whole : Whole (content ++ unwritten) appended)
    (position : content.length = offset) (more : unwritten ≠ []) {line : Bytes} (carried : Carried line)
    (later : List Bytes) :
    Lost ⟨content ++ (Cell.records appended.length (line :: later)).flatten, appended ++ line :: later,
      .writing offset unwritten⟩ := by
  subst position
  refine ⟨⟨appended.length, line, by simp, ?_⟩, ?_⟩
  · -- The next byte that the rotation writes takes the place of the first byte of the line.
    show Cell.marks appended.length (Cell.overwrite (content ++ (Cell.records appended.length
      (line :: later)).flatten) content.length unwritten) < line.length
    have gone : content.length + unwritten.length - content.length = unwritten.length := by omega
    rw [Cell.overwrite_append (Nat.le_refl _), Cell.overwrite_end, Cell.marks_append,
      whole.marks (Nat.le_refl _), Nat.zero_add, gone]
    exact Cell.marks_drop_records (List.length_pos_iff.mpr more) carried.length_pos later
  · show content.length ≤ (content ++ _).length
    rw [List.length_append]
    exact Nat.le_add_right _ _

/-- The text that is written back has of the appended lines only the last hundred of those that were read. -/
private theorem missing_rotated (beyond : Bytes) {log : Bytes} (ended : Ended log) {appended : List Bytes}
    (carried : ∀ line ∈ appended, Carried line) {seen : Nat} (within : seen ≤ appended.length)
    {number : Nat} (outside : number < seen - 100 ∨ seen ≤ number) :
    ∀ cell ∈ rotatedCells beyond (Cell.plain log ++ (Cell.records 0 (appended.take seen)).flatten),
      cell.origin ≠ some number := by
  obtain ⟨front, unowned, kept⟩ := rotatedCells_take beyond ended carried within
  -- A cell has been in the log before, or belongs to one of the lines that are kept.
  intro cell member
  rw [kept, List.mem_append] at member
  rcases member with old | new
  · simp [unowned cell old]
  · obtain ⟨other, origin, above, below⟩ := Cell.origin_records cell new
    rw [List.length_drop, List.length_take] at below
    rw [origin, Ne, Option.some.injEq]
    omega

/-- A truncation loses a line that was not read, or the first one if more were read than are kept. -/
private theorem lost_of_truncation (beyond : Bytes) {log : Bytes} (ended : Ended log) {appended : List Bytes}
    (carried : ∀ line ∈ appended, Carried line) {seen : Nat} (within : seen ≤ appended.length)
    (crowded : ¬ (appended.length = seen ∧ seen ≤ 100)) :
    Lost ⟨[], appended, .writing 0
      (rotatedCells beyond (Cell.plain log ++ (Cell.records 0 (appended.take seen)).flatten))⟩ := by
  have missing := @missing_rotated beyond _ ended _ carried _ within
  by_cases unread : seen < appended.length
  · have here : appended[seen]? = some appended[seen] := List.getElem?_eq_getElem unread
    exact lost_of_truncated here (carried _ (List.getElem_mem unread)) (missing (by omega))
  · have full : 100 < seen := by omega
    have nonempty : 0 < appended.length := by omega
    have here : appended[0]? = some appended[0] := List.getElem?_eq_getElem nonempty
    exact lost_of_truncated here (carried _ (List.getElem_mem nonempty)) (missing (by omega))

/-- A step that is not harmless loses a line. -/
theorem Sound.lost {beyond log : Bytes} (ended : Ended log) {s : SharedLog}
    (carried : ∀ line ∈ s.appended, Carried line) (sound : Sound beyond log s.content s.appended s.stage)
    {op : LogOp} (fair : op.Fair) (harmful : ¬ s.Harmless op) : Lost (s.step beyond op) := by
  obtain ⟨content, appended, stage⟩ := s
  dsimp only at carried sound
  cases op with
  | append lines =>
    cases stage with
    | writing offset unwritten =>
      -- Rows that are still to be written come down on the line that is appended now.
      obtain ⟨whole, position⟩ := sound
      obtain ⟨some, more⟩ : lines ≠ [] ∧ unwritten ≠ [] := not_or.mp harmful
      obtain ⟨line, later, rfl⟩ := List.exists_cons_of_ne_nil some
      exact lost_of_append whole (position.resolve_right more) more (fair line List.mem_cons_self) later
    | _ => exact absurd trivial harmful
  | rotate opened bytes =>
    cases stage with
    | closed text seen =>
      -- The log is opened for writing although lines of it are in no row.
      obtain ⟨-, within, rfl⟩ := sound
      obtain ⟨rfl, crowded⟩ : opened = true ∧ ¬ (appended.length = seen ∧ seen ≤ 100) :=
        Classical.not_imp.mp harmful
      exact lost_of_truncation beyond ended carried within crowded
    | _ => exact absurd trivial harmful

/-- A run loses no line as long as its steps are harmless, and has lost one from the first other step on. -/
theorem harmless_or_lost {beyond log : Bytes} (ended : Ended log) {s : SharedLog}
    (carried : ∀ line ∈ s.appended, Carried line) (sound : Sound beyond log s.content s.appended s.stage)
    {ops : List LogOp} (fair : ∀ op ∈ ops, op.Fair) :
    let s' := Machine.run (step beyond) s ops
    (Machine.EachStep (step beyond) Harmless s ops ∧ Sound beyond log s'.content s'.appended s'.stage) ∨
      (¬ Machine.EachStep (step beyond) Harmless s ops ∧ Lost s') := by
  -- The lines stay whole step by step, up to the first step that is not harmless.
  induction ops generalizing s with
  | nil => exact Or.inl ⟨trivial, sound⟩
  | cons op ops ih =>
    have own := fair op List.mem_cons_self
    have later : ∀ op ∈ ops, op.Fair := fun other member => fair other (List.mem_cons_of_mem _ member)
    by_cases harmless : s.Harmless op
    · obtain ⟨carried', sound'⟩ : (∀ line ∈ (s.step beyond op).appended, Carried line) ∧
          Sound beyond log (s.step beyond op).content (s.step beyond op).appended
            (s.step beyond op).stage := by
        cases op with
        | append lines =>
          refine ⟨fun line member => ?_, sound.append harmless⟩
          rcases List.mem_append.mp member with old | new
          · exact carried line old
          · exact own line new
        | rotate opened bytes =>
          obtain ⟨same, sound'⟩ := Sound.advance ended carried sound harmless
          exact ⟨by rw [SharedLog.step, same]; exact carried, sound'⟩
      rcases ih carried' sound' later with ⟨each, after⟩ | ⟨some, lost⟩
      · exact Or.inl ⟨⟨harmless, each⟩, after⟩
      · exact Or.inr ⟨fun each => some each.2, lost⟩
    · -- From here on the line stays lost.
      have lost := Sound.lost ended carried sound own harmless
      exact Or.inr ⟨fun each => harmless each.1,
        Machine.invariant_run (fun _ next lost => lost.step next) lost ops⟩

/--
Once a rotation has finished, every line appended since it began is in the log, whole and exactly
once, if and only if each step of the run was harmless.
-/
theorem keepsAll_iff_harmless (beyond : Bytes) {log : Bytes} (ended : Ended log) {ops : List LogOp}
    (fair : ∀ op ∈ ops, op.Fair) (finished : (Machine.run (step beyond) (start log) ops).stage = .finished) :
    (Machine.run (step beyond) (start log) ops).KeepsAll ↔
      Machine.EachStep (step beyond) Harmless (start log) ops := by
  have sound : Sound beyond log (start log).content (start log).appended (start log).stage := by
    show Cell.plain log = Cell.plain log ++ (Cell.records 0 []).flatten
    simp [Cell.records]
  have none : ∀ line ∈ (start log).appended, Carried line := fun line member =>
    absurd member List.not_mem_nil
  -- Either every step was harmless and all is kept, or a line has been lost for good.
  rcases harmless_or_lost ended none sound fair with ⟨each, after⟩ | ⟨some, lost⟩
  · rw [finished] at after
    exact iff_of_true (Whole.keepsAll after) each
  · exact iff_of_false (lost.not_keepsAll finished) some

/-- A line that the kernel logs after the last read of a rotation is gone when it has finished. -/
theorem append_after_read_is_lost :
    let log := logLine ⟨9, 0, 0⟩ (LogEntry.resources 2048 512 4).message
    let line := logLine ⟨9, 0, 1⟩ (LogEntry.created 101 (ascii "Clock")).message
    let s := Machine.run (step []) (start log)
      [.rotate true 4095, .rotate true 4095, .rotate true 4095, .append [line], .rotate true 4095,
        .rotate true 4095, .rotate true 4095]
    s.stage = .finished ∧ s.appended = [line] ∧ ¬ s.KeepsAll := by
  intro log line s
  have finished : s.stage = .finished := by decide +kernel
  have appended : s.appended = [line] := by decide +kernel
  have nothing : Cell.marks 0 s.content = 0 := by decide +kernel
  refine ⟨finished, appended, fun keeps => ?_⟩
  have whole := (keeps 0 line (by rw [appended]; rfl)).marks
  rw [nothing] at whole
  exact absurd whole (by decide)

end SharedLog

/-- One short line without terminators inside is carried over. -/
theorem carried_of_printable {body : Bytes} (plain : Printable body) (short : body.length < 254) :
    Carried (body ++ [newline]) := by
  refine ⟨⟨body, rfl, fun ends => (plain newline ends).2 rfl, by omega⟩, fun zero => ?_⟩
  rcases List.mem_append.mp zero with inside | last
  · exact (plain 0 inside).1 rfl
  · exact absurd last (by decide)

/-- What write_snapshot appends is carried over. -/
theorem carried_snapshotLine {date : ClockDate} (year : InInt date.year) (time : ClockTime) {active pid : Int}
    (activeFits : InInt active) (pidFits : InInt pid) : Carried (snapshotLine date time active pid) := by
  -- The line is put together from printable parts, whose lengths are bounded.
  have line : snapshotLine date time active pid =
      (ch '[' :: (date.text ++ ascii " " ++ time.text ++ ascii "] [SysMonitor] Active tasks: " ++
        decimal active ++ ascii " | PID: " ++ decimal pid)) ++ [newline] := by
    simp [snapshotLine]
  have month := printable_twoDigits (show date.month.val < 100 by omega)
  have day := printable_twoDigits (show date.day.val < 100 by omega)
  have dash : Printable [ch '-'] := by decide
  have dateText : Printable date.text := by
    simpa [ClockDate.text] using (printable_decimal date.year).append (dash.append (month.append (dash.append day)))
  have lengths := And.intro (decimal_length year) (And.intro (decimal_length activeFits) (decimal_length pidFits))
  rw [line]
  have stamp := (dateText.append (show Printable (ascii " ") by decide)).append (printable_time time)
  have label := stamp.append (show Printable (ascii "] [SysMonitor] Active tasks: ") by decide)
  have mark := (label.append (printable_decimal active)).append (show Printable (ascii " | PID: ") by decide)
  refine carried_of_printable (Printable.cons (by decide) (mark.append (printable_decimal pid))) ?_
  simp [ClockDate.text, ClockTime.text, twoDigits, ascii]
  omega

/-- A line that is appended while the rotation reads is kept. -/
theorem keepsAll_iff_harmless_early :
    let log := logLine ⟨9, 0, 0⟩ (LogEntry.resources 2048 512 4).message
    let line := snapshotLine ⟨2025, 6, 1⟩ ⟨9, 0, 1⟩ 3 120
    let ops := [.rotate true 4095, .append [line], .rotate true 4095, .rotate true 4095, .rotate true 4095,
      .rotate true 4095, .rotate true 4095]
    (Machine.run (SharedLog.step []) (SharedLog.start log) ops).KeepsAll ↔
      Machine.EachStep (SharedLog.step []) SharedLog.Harmless (SharedLog.start log) ops :=
  SharedLog.keepsAll_iff_harmless [] (ended_logLine _ _)
    (fun op member => by
      simp only [List.mem_cons, List.not_mem_nil, or_false] at member
      rcases member with rfl | rfl | rfl | rfl | rfl | rfl | rfl
      case inr.inl =>
        intro line listed
        rw [List.mem_singleton.mp listed]
        exact carried_snapshotLine (by decide) _ (by decide) (by decide)
      all_goals exact trivial)
    (by decide +kernel)

end Nebula
