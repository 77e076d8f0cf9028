import Nebula.Library.Gregorian
import Nebula.Library.Grid
import Nebula.Library.Machine
import Nebula.Library.Stdio

/-! The calendar: the month that it shows, the commands that change it, and the grid of its days. -/

namespace Nebula

open CText

/-- A struct tm. -/
structure Tm where
  sec : Int
  min : Int
  hour : Int
  mday : Int
  mon : Int
  year : Int
  wday : Int
  yday : Int
  isdst : Int

/-- What memset leaves. -/
def Tm.zeroed : Tm := ⟨0, 0, 0, 0, 0, 0, 0, 0, 0⟩

/-- The bytes of a literal with characters beyond ASCII. -/
def utf8 (literal : String) : Bytes := literal.toUTF8.toList

def isLeap (y : Int) : Bool := (y.tmod 4 == 0 && y.tmod 100 != 0) || y.tmod 400 == 0

def getDaysInMonth (m y : Int) : Int :=
  let days : List Int := [0, 31, 28, 31, 30, 31, 30, 31, 31, 30, 31, 30, 31]
  if m = 2 ∧ isLeap y then 29 else days.getD m.toNat 0

/-- The weekday that mktime finds for the first of a month. -/
def getStartDay (mktime : Tm → Tm) (m y : Int) : Int :=
  (mktime { Tm.zeroed with year := y - 1900, mon := m - 1, mday := 1 }).wday

/-- What "%2d  " prints for a day. -/
def dayCell (d : Nat) : Bytes := (decimal d).leftpad 2 (ch ' ') ++ ascii "  "

/-- The loop over the days, from one on, with a number of days left. -/
def printDays (start : Int) : Nat → Nat → Bytes
  | _, 0 => []
  | d, left + 1 =>
    if (start + d).tmod 7 = 0 then dayCell d ++ newline :: (ascii "  " ++ printDays start (d + 1) left)
    else dayCell d ++ printDays start (d + 1) left

/-- What is printed between the two rulers, with the margin of its first row. -/
def printGrid (start total : Int) : Bytes :=
  ascii "  " ++ ((List.replicate start.toNat (ascii "    ")).flatten ++ printDays start 1 total.toNat)

/-- The line above the grid. -/
def weekdayLine : Bytes := ascii "  Su  Mo  Tu  We  Th  Fr  Sa"

def ruler : Bytes := utf8 "  ──────────────────────────"

def monthNames : List String :=
  ["", "January", "February", "March", "April", "May", "June", "July", "August", "September", "October",
    "November", "December"]

/-- The lines above the grid. -/
def heading (m y : Int) : List Bytes :=
  [utf8 "╔═══════════════════════════════════════════════════════════╗",
    utf8 "║                   NEBULA OS SYSTEM CALENDAR               ║",
    utf8 "╚═══════════════════════════════════════════════════════════╝",
    ascii "  [ " ++ (ascii (monthNames.getD m.toNat "") ++ (ascii " " ++ (decimal y ++ ascii " ]"))), [],
    weekdayLine, ruler]

def displayCalendar (mktime : Tm → Tm) (m y : Int) : Bytes :=
  ((heading m y).map (· ++ [newline])).flatten ++
    (printGrid (getStartDay mktime m y) (getDaysInMonth m y) ++ newline :: (ruler ++ [newline]))

/-- What stands in a line of a text in the column of a weekday. -/
def gridCell (text : Bytes) (row column : Nat) : Bytes := Grid.cellAt newline 2 4 text row column

-- The names of the weekdays stand above their columns.
example : (List.range 7).map (gridCell weekdayLine 0) =
    [ascii "Su  ", ascii "Mo  ", ascii "Tu  ", ascii "We  ", ascii "Th  ", ascii "Fr  ", ascii "Sa"] := by
  decide +kernel

/-- The month that the calendar shows. -/
structure CalendarMonth where
  m : Int
  y : Int
  deriving DecidableEq, Repr

namespace CalendarMonth

def Valid (s : CalendarMonth) : Prop := 1 ≤ s.m ∧ s.m ≤ 12

/-- What the main loop does for the first byte of a line. -/
def navigate (s : CalendarMonth) (c : UInt8) : CalendarMonth :=
  if c = ch 'n' ∨ c = ch 'N' then
    if s.m + 1 > 12 then ⟨1, s.y + 1⟩ else ⟨s.m + 1, s.y⟩
  else if c = ch 'p' ∨ c = ch 'P' then
    if s.m - 1 < 1 then ⟨12, s.y - 1⟩ else ⟨s.m - 1, s.y⟩
  else s

/-- The commands that are typed, as far as the main loop reads them. -/
def commands (input : Bytes) : List UInt8 :=
  ((fgetsAll 16 input).map (charAt · 0)).takeWhile fun c => c != ch 'q' && c != ch 'Q'

/-- What main prints for what is typed, one calendar before each command. -/
def shown (mktime : Tm → Tm) (s : CalendarMonth) (input : Bytes) : List Bytes :=
  ((commands input).scanl navigate s).map fun s => displayCalendar mktime s.m s.y

/-- A command for the next month, and one for the previous month. -/
def IsNext (c : UInt8) : Prop := c = ch 'n' ∨ c = ch 'N'
@[inherit_doc IsNext] def IsPrev (c : UInt8) : Prop := c = ch 'p' ∨ c = ch 'P'

/-- The month, its neighbours and its grid agree. -/
structure Consistent (mktime : Tm → Tm) (s : CalendarMonth) : Prop where
  valid : s.Valid
  undoNext : ∀ next prev, IsNext next → IsPrev prev → (s.navigate next).navigate prev = s
  undoPrev : ∀ next prev, IsNext next → IsPrev prev → (s.navigate prev).navigate next = s
  /-- The weekday of the first of the next month follows from this month's first and its length. -/
  weekdays : ∀ next, IsNext next →
    getStartDay mktime (s.navigate next).m (s.navigate next).y =
      (getStartDay mktime s.m s.y + getDaysInMonth s.m s.y) % 7
  /-- Below the heading each day is in one cell only, in the column of its weekday. -/
  grid : ∀ d : Nat, 1 ≤ d → d ≤ getDaysInMonth s.m s.y →
    ∃ row, ∀ row' column,
      gridCell (displayCalendar mktime s.m s.y) ((heading s.m s.y).length + row') column = dayCell d ↔
        row' = row ∧ (column : Int) = (getStartDay mktime s.m s.y + d - 1) % 7

end CalendarMonth

/-- What mktime is relied on for: the Gregorian weekday of the midnight that begins a day. -/
def GregorianWeekdays (mktime : Tm → Tm) : Prop :=
  ∀ year mon mday, 0 ≤ mon → mon ≤ 11 → 1 ≤ mday → mday ≤ Gregorian.monthLength (year + 1900) (mon + 1) →
    (mktime { Tm.zeroed with year := year, mon := mon, mday := mday }).wday =
      Gregorian.weekday (year + 1900) (mon + 1) mday

/-- The leap years of the calendar are those of the Gregorian calendar. -/
theorem isLeap_iff (y : Int) : isLeap y = true ↔ Gregorian.IsLeap y := by
  -- A remainder of the division is zero exactly for a multiple, on either side of the year 0.
  have four := Int.dvd_iff_tmod_eq_zero (a := 4) (b := y)
  have hundred := Int.dvd_iff_tmod_eq_zero (a := 100) (b := y)
  have fourHundred := Int.dvd_iff_tmod_eq_zero (a := 400) (b := y)
  simp only [isLeap, Bool.or_eq_true, Bool.and_eq_true, beq_iff_eq, bne_iff_ne, ne_eq, ← four, ← hundred,
    ← fourHundred, Gregorian.IsLeap]
  omega

/-- The table of the months and the rule for February give the lengths of the Gregorian months. -/
theorem getDaysInMonth_eq {m : Int} (positive : 1 ≤ m) (bounded : m ≤ 12) (y : Int) :
    getDaysInMonth m y = Gregorian.monthLength y m := by
  by_cases february : m = 2
  · -- The twenty-ninth depends on the leap rule.
    subst february
    rw [Gregorian.monthLength, if_pos rfl, getDaysInMonth]
    by_cases leap : Gregorian.IsLeap y
    · rw [if_pos leap, if_pos ⟨rfl, (isLeap_iff y).mpr leap⟩]
    · rw [if_neg leap, if_neg fun both => leap ((isLeap_iff y).mp both.2)]
      rfl
  · rw [getDaysInMonth, Gregorian.monthLength, if_neg february, if_neg fun both => february both.1]
    have months : m = 1 ∨ m = 3 ∨ m = 4 ∨ m = 5 ∨ m = 6 ∨ m = 7 ∨ m = 8 ∨ m = 9 ∨ m = 10 ∨ m = 11 ∨ m = 12 := by
      omega
    rcases months with rfl | rfl | rfl | rfl | rfl | rfl | rfl | rfl | rfl | rfl | rfl <;> rfl

/-- The first of a month is a midnight that mktime is relied on for. -/
theorem GregorianWeekdays.startDay {mktime : Tm → Tm} (gregorian : GregorianWeekdays mktime) {m : Int}
    (positive : 1 ≤ m) (bounded : m ≤ 12) (y : Int) : getStartDay mktime m y = Gregorian.weekday y m 1 := by
  -- Every month has a first, and struct tm counts the years from 1900 and the months from zero.
  have length := (Gregorian.monthLength_bounds (y - 1900 + 1900) (m - 1 + 1)).1
  have first := gregorian (y - 1900) (m - 1) 1 (by omega) (by omega) (Int.le_refl 1) (by omega)
  rw [Int.sub_add_cancel, Int.sub_add_cancel] at first
  exact first

/-- A day of a month takes the four bytes of a cell, and the number can be read back from it. -/
theorem dayCell_spec : ∀ d < 32, Grid.IsCell newline 4 (dayCell d) ∧ atoi (dayCell d) = d := by
  unfold Grid.IsCell
  decide +kernel

/-- The cell in front of the first day. -/
theorem isCell_blank : Grid.IsCell newline 4 (ascii "    ") := by
  unfold Grid.IsCell
  decide

/-- The loop prints the days in rows of seven, however many of the first row's cells are taken. -/
theorem printDays_eq {start : Nat} (d left : Nat) (positive : 1 ≤ d) :
    printDays start d left =
      Grid.layout newline (ascii "  ") 7 ((start + d - 1) % 7) ((List.range' d left).map dayCell) := by
  -- A row is full where the cells so far are a multiple of seven.
  induction left generalizing d with
  | zero => rfl
  | succ left ih =>
    have full : ((start : Int) + d).tmod 7 = 0 ↔ (start + d - 1) % 7 + 1 = 7 := by
      rw [Int.tmod_eq_emod_of_nonneg (by omega)]
      omega
    rw [printDays, List.range'_succ, List.map_cons, Grid.layout, ih (d + 1) (by omega)]
    by_cases ends : (start + d - 1) % 7 + 1 = 7
    · have next : (start + (d + 1) - 1) % 7 = 0 := by omega
      rw [if_pos ends, if_pos (full.mpr ends), next]
    · have next : (start + (d + 1) - 1) % 7 = (start + d - 1) % 7 + 1 := by omega
      rw [if_neg ends, if_neg (mt full.mp ends), next]

/-- The cells of the grid, row by row: the blanks in front of the first day, and the days. -/
theorem gridCell_printGrid {start total : Nat} (begun : start < 7) (month : total < 32) (row column : Nat) :
    gridCell (printGrid start total) row column =
      if column < 7 then
        ((List.replicate start (ascii "    ") ++ (List.range' 1 total).map dayCell)[7 * row + column]?).getD []
      else [] := by
  -- Both the blanks and the days are cells of four bytes.
  have cells : ∀ cell ∈ List.replicate start (ascii "    ") ++ (List.range' 1 total).map dayCell,
      Grid.IsCell newline 4 cell := by
    intro cell member
    rcases List.mem_append.mp member with blank | day
    · rw [List.eq_of_mem_replicate blank]
      exact isCell_blank
    · obtain ⟨d, listed, rfl⟩ := List.mem_map.mp day
      rw [List.mem_range'_1] at listed
      exact (dayCell_spec d (by omega)).1
  have filled : (start + 1 - 1) % 7 = (List.replicate start (ascii "    ")).length := by
    rw [List.length_replicate]
    omega
  have margin : newline ∉ ascii "  " := by decide
  have first : (List.replicate start (ascii "    ")).length < 7 := by
    rw [List.length_replicate]
    exact begun
  rw [gridCell, printGrid, Int.toNat_natCast, Int.toNat_natCast, printDays_eq 1 total (Nat.le_refl 1), filled]
  exact Grid.cellAt_layout margin (by decide) first cells row column

/-- Each day of a month has one cell of the grid, in the column of its weekday. -/
theorem gridCell_eq_iff {start total : Nat} (begun : start < 7) (month : total < 32) {d : Nat} (positive : 1 ≤ d)
    (listed : d ≤ total) (row column : Nat) :
    gridCell (printGrid start total) row column = dayCell d ↔ column < 7 ∧ 7 * row + column = start + d - 1 := by
  have number := (dayCell_spec d (by omega)).2
  have nothing : atoi [] = 0 := by decide
  rw [gridCell_printGrid begun month row column]
  by_cases inside : column < 7
  case neg =>
    -- A row ends with its seventh cell.
    rw [if_neg inside]
    refine iff_of_false (fun same => ?_) fun both => inside both.1
    rw [← same, nothing] at number
    omega
  rw [if_pos inside, and_iff_right inside]
  generalize 7 * row + column = place
  by_cases blank : place < start
  · -- No day is blank.
    rw [List.getElem?_append_left (by rw [List.length_replicate]; exact blank), List.getElem?_replicate_of_lt blank,
      Option.getD_some]
    refine iff_of_false (fun same => ?_) (by omega)
    rw [← same] at number
    have zero : atoi (ascii "    ") = 0 := by decide
    omega
  · rw [List.getElem?_append_right (by rw [List.length_replicate]; omega), List.length_replicate, List.getElem?_map]
    by_cases day : place - start < total
    · rw [List.getElem?_range' day, Option.map_some, Option.getD_some]
      constructor
      · intro same
        have other := (dayCell_spec (1 + 1 * (place - start)) (by omega)).2
        rw [same, number] at other
        omega
      · intro same
        exact congrArg dayCell (by omega)
    · -- Behind the last day there is nothing.
      rw [List.getElem?_eq_none (by rw [List.length_range']; omega), Option.map_none, Option.getD_none]
      refine iff_of_false (fun same => ?_) (by omega)
      rw [← same, nothing] at number
      omega

/-- The names of the months are on one line with the year. -/
theorem newline_notMem_heading (m y : Int) : ∀ line ∈ heading m y, newline ∉ line := by
  have name : newline ∉ ascii (monthNames.getD m.toNat "") := by
    -- Outside the table the name is empty.
    have names : ∀ name ∈ "" :: monthNames, newline ∉ ascii name := by decide
    refine names _ ?_
    by_cases inside : m.toNat < monthNames.length
    · rw [List.getD_eq_getElem _ _ inside]
      exact List.mem_cons_of_mem _ (List.getElem_mem inside)
    · rw [List.getD_eq_default _ _ (Nat.not_lt.mp inside)]
      exact List.mem_cons_self
  have year : newline ∉ decimal y := fun inside => (printable_decimal y newline inside).2 rfl
  unfold heading
  simp only [List.forall_mem_cons, List.mem_append, not_or]
  refine ⟨by decide +kernel, by decide +kernel, by decide +kernel, ⟨by decide, name, by decide, year, by decide⟩,
    List.not_mem_nil, by decide, by decide +kernel, fun line none => absurd none List.not_mem_nil⟩

/-- There is no number in the ruler. -/
theorem atoi_gridCell_ruler (row column : Nat) : atoi (gridCell (ruler ++ [newline]) row column) = 0 := by
  have nothing : atoi [] = 0 := by decide
  have split : (ruler ++ [newline]).splitOn newline = [ruler, []] := by decide +kernel
  by_cases first : row = 0
  · -- The cells of the ruler end with its eightieth byte.
    subst first
    by_cases inside : column < 20
    · have cells : ∀ column < 20, atoi ((ruler.drop (2 + 4 * column)).take 4) = 0 := by decide +kernel
      rw [gridCell, Grid.cellAt, split]
      exact cells column inside
    · have length : ruler.length = 80 := by decide +kernel
      rw [gridCell, Grid.cellAt, split, List.getD_cons_zero, List.drop_eq_nil_of_le (by omega), List.take_nil, nothing]
  · -- Behind its newline there is an empty line, and nothing else.
    obtain ⟨later, rfl⟩ := Nat.exists_eq_succ_of_ne_zero first
    have empty : ([[]] : List Bytes).getD later [] = [] := by
      cases later <;> rfl
    rw [gridCell, Grid.cellAt, split, List.getD_cons_succ, empty, List.drop_nil, List.take_nil, nothing]

/-- A day is found in the calendar where it is in its grid. -/
theorem gridCell_display_iff {mktime : Tm → Tm} {m y : Int} {start total : Nat}
    (isStart : getStartDay mktime m y = start) (isTotal : getDaysInMonth m y = total) {d : Nat} (positive : 1 ≤ d)
    (month : d < 32) (row column : Nat) :
    gridCell (displayCalendar mktime m y) ((heading m y).length + row) column = dayCell d ↔
      gridCell (printGrid start total) row column = dayCell d := by
  have number := (dayCell_spec d month).2
  have nothing : atoi [] = 0 := by decide
  rw [displayCalendar, isStart, isTotal, gridCell, gridCell, Grid.cellAt_below (newline_notMem_heading m y),
    Grid.cellAt_above]
  split
  · exact Iff.rfl
  · rename_i behind
    -- Behind the grid there is the second ruler, which has no number in any column.
    rw [Grid.cellAt_of_le 2 (Nat.not_lt.mp behind)]
    refine iff_of_false (fun same => ?_) fun same => ?_
    · rw [← same] at number
      generalize row - ((printGrid start total).splitOn newline).length = place at number
      rw [← gridCell, atoi_gridCell_ruler place column] at number
      omega
    · rw [← same, nothing] at number
      omega

namespace CalendarMonth

theorem navigate_next (s : CalendarMonth) {c : UInt8} (next : IsNext c) :
    s.navigate c = if s.m + 1 > 12 then ⟨1, s.y + 1⟩ else ⟨s.m + 1, s.y⟩ := if_pos next

theorem navigate_prev (s : CalendarMonth) {c : UInt8} (prev : IsPrev c) :
    s.navigate c = if s.m - 1 < 1 then ⟨12, s.y - 1⟩ else ⟨s.m - 1, s.y⟩ := by
  -- A command cannot be for both months.
  have other : ¬ (c = ch 'n' ∨ c = ch 'N') := by
    rcases prev with rfl | rfl <;> decide
  rw [navigate, if_neg other]
  exact if_pos prev

/-- The month stays one of the twelve, whatever is typed. -/
theorem Valid.navigate {s : CalendarMonth} (valid : s.Valid) (c : UInt8) : (s.navigate c).Valid := by
  obtain ⟨positive, bounded⟩ := valid
  unfold CalendarMonth.navigate Valid
  -- Where the month would leave the year, it is set to the first or the last one.
  split
  · split <;> dsimp only <;> omega
  · split
    · split <;> dsimp only <;> omega
    · exact ⟨positive, bounded⟩

/-- The command for the next month leads to the next month of the calendar. -/
theorem navigate_nextMonth (s : CalendarMonth) {c : UInt8} (next : IsNext c) :
    ((s.navigate c).y, (s.navigate c).m) = Gregorian.nextMonth s.y s.m := by
  rw [s.navigate_next next, Gregorian.nextMonth]
  -- Both make January out of the month behind December.
  by_cases last : s.m + 1 > 12
  · rw [if_pos last, if_neg (by omega)]
  · rw [if_neg last, if_pos (by omega)]

/-- In a valid month everything agrees, as long as mktime knows the weekdays. -/
theorem Valid.consistent {mktime : Tm → Tm} (gregorian : GregorianWeekdays mktime) {s : CalendarMonth}
    (valid : s.Valid) : Consistent mktime s := by
  obtain ⟨positive, bounded⟩ := id valid
  have first := gregorian.startDay positive bounded s.y
  have length := getDaysInMonth_eq positive bounded s.y
  refine ⟨valid, fun next prev isNext isPrev => ?_, fun next prev isNext isPrev => ?_, fun next isNext => ?_, ?_⟩
  · rw [s.navigate_next isNext, navigate_prev _ isPrev]
    by_cases last : s.m + 1 > 12
    · -- From December it is January of the next year, and back.
      obtain december : s.m = 12 := by omega
      rw [if_pos last, if_pos (show (1 : Int) - 1 < 1 by decide), Int.add_sub_cancel, ← december]
    · rw [if_neg last, if_neg (by dsimp only; omega), Int.add_sub_cancel]
  · rw [s.navigate_prev isPrev, navigate_next _ isNext]
    by_cases start : s.m - 1 < 1
    · obtain january : s.m = 1 := by omega
      rw [if_pos start, if_pos (show (12 : Int) + 1 > 12 by decide), Int.sub_add_cancel, ← january]
    · rw [if_neg start, if_neg (by dsimp only; omega), Int.sub_add_cancel]
  · -- The weekday of the next month's first is that of the Gregorian calendar.
    obtain ⟨positive', bounded'⟩ := valid.navigate next
    have month := s.navigate_nextMonth isNext
    rw [gregorian.startDay positive' bounded', first, length, ← Gregorian.weekday_nextMonth positive bounded, ← month]
  · intro d least listed
    -- Both numbers are natural ones, as the weekday and the length of a month are.
    obtain ⟨start, isStart⟩ := Int.eq_ofNat_of_zero_le (Gregorian.weekday_bounds s.y s.m 1).1
    have begun := (Gregorian.weekday_bounds s.y s.m 1).2
    have bounds := Gregorian.monthLength_bounds s.y s.m
    obtain ⟨total, isTotal⟩ := Int.eq_ofNat_of_zero_le (Int.le_trans (by decide) bounds.1)
    rw [isStart] at first
    rw [isTotal] at length
    rw [length] at listed
    refine ⟨(start + d - 1) / 7, fun row column => ?_⟩
    rw [gridCell_display_iff first length least (by omega) row column,
      gridCell_eq_iff (by omega) (by omega) least (by omega) row column, first]
    omega

/-- Each month on the way is one of the twelve. -/
theorem Valid.scanl {s : CalendarMonth} (valid : s.Valid) (commands : List UInt8) :
    ∀ month ∈ commands.scanl CalendarMonth.navigate s, month.Valid := by
  -- The induction is on the commands, each of which leaves a valid month to the others.
  induction commands generalizing s with
  | nil =>
    intro month member
    rw [List.scanl_nil, List.mem_singleton] at member
    exact member ▸ valid
  | cons c later ih =>
    intro month member
    rw [List.scanl_cons] at member
    rcases List.mem_cons.mp member with rfl | behind
    · exact valid
    · exact ih (valid.navigate c) month behind

/-- Every calendar that main prints is that of a month in which everything agrees. -/
theorem Valid.shown {mktime : Tm → Tm} (gregorian : GregorianWeekdays mktime) {s : CalendarMonth} (valid : s.Valid)
    (input : Bytes) : ∀ text ∈ CalendarMonth.shown mktime s input,
      ∃ month : CalendarMonth, Consistent mktime month ∧ text = displayCalendar mktime month.m month.y := by
  intro text member
  obtain ⟨month, listed, rfl⟩ := List.mem_map.mp member
  exact ⟨month, (valid.scanl (commands input) month listed).consistent gregorian, rfl⟩

/--
In every month that the commands lead to from a valid one, everything agrees, as long as mktime knows
the weekdays.
-/
theorem consistent_run {mktime : Tm → Tm} (gregorian : GregorianWeekdays mktime) {start : CalendarMonth}
    (valid : start.Valid) (commands : List UInt8) :
    Consistent mktime (Machine.run navigate start commands) := by
  have stays := Machine.invariant_run (fun s c (valid : Valid s) => valid.navigate c) valid commands
  exact stays.consistent gregorian

/-- From December 1999 the next month is January 2000. -/
theorem consistent_run_century :
    Consistent (fun t => { t with wday := Gregorian.weekday (t.year + 1900) (t.mon + 1) t.mday })
      (Machine.run navigate ⟨12, 1999⟩ [ch 'n']) :=
  consistent_run (fun _ _ _ _ _ _ _ => rfl) (show Valid ⟨12, 1999⟩ from ⟨by decide, by decide⟩) [ch 'n']

end CalendarMonth

end Nebula
