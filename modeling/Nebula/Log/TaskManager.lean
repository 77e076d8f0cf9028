import Nebula.Log.Keeping

/-! The task manager's list of recent events, and that the log daemon does not disturb it. -/

namespace Nebula

open CText

/-- How many events the task manager shows. -/
abbrev maxLogDisplay : Nat := 15

/-- A line that the task manager takes for an event. -/
def isEvent (line : Bytes) : Bool :=
  let buf := cstring line
  contains "Process" buf || contains "Resources" buf || contains "Context" buf

/-- The rows of display_task_manager once the log is read, with what the stack holds behind each. -/
def eventRows (beyond log : Bytes) : LastRows Bytes 100 :=
  (((fgetsAll 256 log).filter isEvent).map (storedLine beyond)).foldl LastRows.store ⟨Vector.replicate 100 [], 0⟩

/-- The events that display_task_manager prints. -/
def recentEvents (beyond log : Bytes) : List Bytes :=
  let lines := eventRows beyond log
  let start := if lines.count > maxLogDisplay then lines.count - maxLogDisplay else 0
  (List.range' start (lines.count - start)).map lines.row

/-- What display_task_manager prints between its two rules. -/
def recentEventsText (beyond log : Bytes) : Bytes :=
  ((recentEvents beyond log).map fun line => ascii "  " ++ line).flatten

/-- Lines that have room in their rows are shown as they are, the last ones of the events. -/
theorem recentEvents_flatten (beyond : Bytes) {lines : List Bytes} (carried : ∀ line ∈ lines, Carried line) :
    recentEvents beyond lines.flatten = (lines.filter isEvent).rtake maxLogDisplay := by
  have stored : (lines.filter isEvent).map (storedLine beyond) = lines.filter isEvent := by
    conv_rhs => rw [← List.map_id (lines.filter isEvent)]
    exact List.map_congr_left fun line member => (carried line (List.mem_of_mem_filter member)).storedLine beyond
  have newest := LastRows.newest_stored (Vector.replicate 100 []) (lines.filter isEvent)
    (show maxLogDisplay ≤ 100 by decide)
  -- Where there are fewer than the display has room for, it starts with the first.
  have start : ∀ count : Nat, (if count > maxLogDisplay then count - maxLogDisplay else 0) = count - maxLogDisplay := by
    intro count
    split
    · rfl
    · omega
  unfold recentEvents eventRows
  rw [fgetsAll_carried carried, stored, List.rtake]
  dsimp only
  rw [start]
  exact newest

/-- A suffix that is long enough has the same last entries. -/
theorem rtake_of_suffix {α : Type*} {part whole : List α} (suffix : part <:+ whole) {count : Nat}
    (enough : count ≤ part.length) : whole.rtake count = part.rtake count := by
  obtain ⟨before, rfl⟩ := suffix
  -- What is before the suffix is dropped with the rest.
  rw [List.rtake, List.rtake, List.length_append,
    show before.length + part.length - count = before.length + (part.length - count) by omega,
    List.drop_length_add_append]

/--
The task manager shows the newest events that were ever written, in their order, as long as the log
was not rotated, or fifteen of the last hundred lines are events.
-/
theorem recentEvents_of_written (works : List LogWork) (fair : ∀ work ∈ works, work.Fair) (beyond : Bytes)
    (recent : rotationCount works = 0 ∨
      maxLogDisplay ≤ (((writtenLines works).rtake 100).filter isEvent).length) :
    recentEvents beyond (Machine.run LogWork.run [] works) =
      ((writtenLines works).filter isEvent).rtake maxLogDisplay := by
  have keeps := keepsLast_run fair
  have carried : ∀ line ∈ writtenLines works, Carried line := by
    intro line member
    obtain ⟨work, listed, read⟩ := List.mem_flatMap.mp member
    exact (fair work listed).carried line read
  rcases Nat.eq_zero_or_pos (rotationCount works) with none | some
  · rw [keeps.all none, recentEvents_flatten beyond carried]
  · obtain ⟨kept, suffix, many, log⟩ := keeps.last some
    have lines : ∀ line ∈ rotationHeader :: kept, Carried line :=
      List.forall_mem_cons.mpr ⟨carried_rotationHeader, fun line member => carried line (suffix.subset member)⟩
    have silent : isEvent rotationHeader = false := by decide
    rw [log, recentEvents_flatten beyond lines, List.filter_cons_of_neg (by rw [silent]; decide)]
    -- The last hundred lines are among those that are left, so enough events are.
    have hundred : (writtenLines works).rtake 100 <:+ kept := by
      rw [rtake_of_suffix suffix many]
      exact List.drop_suffix _ _
    have enough := recent.resolve_left (by omega)
    exact (rtake_of_suffix (suffix.filter isEvent) (enough.trans (hundred.filter isEvent).length_le)).symm

/-- Two of the lines that are there are events. -/
theorem recentEvents_of_written_two :
    let works := [LogWork.event ⟨9, 0, 0⟩ (ascii "Process created"), .snapshot ⟨2025, 6, 1⟩ ⟨9, 0, 1⟩ 3 120,
      .event ⟨9, 0, 2⟩ (ascii "Context switch"), .check []]
    recentEvents [] (Machine.run LogWork.run [] works) =
      [logLine ⟨9, 0, 0⟩ (ascii "Process created"), logLine ⟨9, 0, 2⟩ (ascii "Context switch")] := by
  intro works
  have fair : ∀ work ∈ works, work.Fair := by
    simp only [works, List.forall_mem_cons, List.not_mem_nil, IsEmpty.forall_iff, implies_true, and_true]
    exact ⟨⟨by decide, by decide⟩, ⟨by decide, by decide, by decide⟩, ⟨by decide, by decide⟩, trivial⟩
  have shown := recentEvents_of_written works fair [] (Or.inl (by decide +kernel))
  rw [shown]
  decide +kernel

end Nebula
