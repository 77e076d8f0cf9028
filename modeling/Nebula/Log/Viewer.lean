import Nebula.Library.Buffer
import Nebula.Library.Machine
import Nebula.Library.Pages
import Nebula.Library.SlotArray
import Nebula.Library.TextLines

/-! The log viewer: what a redraw reads of the log, which page of it is shown, and the commands that turn pages. -/

namespace Nebula

open CText

abbrev maxLogLines : Nat := 500
abbrev logLineSize : Nat := 256
abbrev logPageSize : Nat := 15

/-- The array of the lines, which is what the stack holds until a redraw has written it. -/
abbrev LogRows := SlotArray (Buffer logLineSize) maxLogLines

/-- The program between two redraws. -/
structure LogViewer where
  filter : Buffer 64
  page : Int
  /-- What is still to be typed. -/
  input : Bytes
  running : Bool

/-- What a redraw has computed and printed. -/
structure Screen where
  count : Int
  totalPages : Int
  page : Int
  start : Int
  stop : Int
  shown : List Bytes

/-- A redraw with the log as it is then, and whether something is typed within three seconds. -/
structure Redraw where
  log : Option Bytes
  stack : Vector (Buffer logLineSize) maxLogLines
  ready : Bool

/-- strstr: whether a text occurs in another one. -/
def occursIn (part text : Bytes) : Bool := decide (part <:+: text)

/-- The test of a line: without a filter every line passes. -/
def passes (filter line : Bytes) : Bool := filter.isEmpty || occursIn filter (cstring line)

/--
The row for a line, which is copied and loses its last byte.

For a line that is empty as a C string that would be the byte before the row, and the row stays.
-/
def logRow (row : Buffer logLineSize) (line : Bytes) : Buffer logLineSize :=
  (row.strncpy line (logLineSize - 1)).setIfInBounds ((cstring line).length - 1) 0

/-- The loop over the lines of the log. -/
def collect (filter : Bytes) : LogRows → List Bytes → LogRows
  | rows, [] => rows
  | rows, read :: later =>
    if room : rows.count < maxLogLines then
      if passes filter read then
        collect filter (rows.append room (logRow (rows.get (rows.nextSlot room)) read)) later
      else collect filter rows later
    else rows

/-- The number of the pages for a number of lines. -/
def totalPages (count : Int) : Int :=
  let pages := (count + logPageSize - 1).tdiv logPageSize
  if pages = 0 then 1 else pages

/-- The page, held inside the pages. -/
def heldPage (page pages : Int) : Int :=
  let page := if page ≥ pages then pages - 1 else page
  if page < 0 then 0 else page

namespace LogViewer

def start (input : Bytes) : LogViewer := ⟨Vector.replicate 64 0, 0, input, true⟩

/-- The lines of the log that pass the filter, as far as there is room for them. -/
def rows (s : LogViewer) (log : Option Bytes) (stack : Vector (Buffer logLineSize) maxLogLines) : LogRows :=
  let fresh : LogRows := ⟨stack, 0, Nat.zero_le _⟩
  match log with
  | some content => collect s.filter.text fresh (fgetsAll logLineSize content)
  | none => fresh

/-- What is printed for a row. -/
def printed (row : Buffer logLineSize) : Bytes := ascii "  " ++ (row.text ++ [newline])

/-- One redraw: the page is held inside the pages, and its lines are printed. -/
def redraw (s : LogViewer) (log : Option Bytes) (stack : Vector (Buffer logLineSize) maxLogLines) : Screen :=
  let rows := s.rows log stack
  let count : Int := rows.count
  let pages := totalPages count
  let page := heldPage s.page pages
  let start := page * logPageSize
  let stop := if start + logPageSize > count then count else start + logPageSize
  ⟨count, pages, page, start, stop,
    ((rows.entries.drop start.toNat).take (stop - start).toNat).map printed⟩

/-- The command for another filter; at the end of the input the old one loses its last byte. -/
def setFilter (s : LogViewer) : LogViewer :=
  match fgets 64 s.input with
  | none => { s with filter := s.filter.chop, page := 0 }
  | some (line, rest) => { s with filter := (s.filter.fgetsInto line).chop, page := 0, input := rest }

/-- What the loop does for a line that is typed. -/
def command (s : LogViewer) : LogViewer :=
  match fgets 64 s.input with
  | none => { s with running := false }
  | some (cmd, rest) =>
    let s := { s with input := rest }
    let c := charAt cmd 0
    if c = ch 'q' ∨ c = ch 'Q' then { s with running := false }
    else if c = ch 'n' ∨ c = ch 'N' then { s with page := s.page + 1 }
    else if c = ch 'p' ∨ c = ch 'P' then { s with page := s.page - 1 }
    else if c = ch 'f' ∨ c = ch 'F' then s.setFilter
    else s

/-- One turn of the loop; a program that has ended does nothing more. -/
def step (s : LogViewer) (r : Redraw) : LogViewer :=
  if s.running then
    let s := { s with page := (s.redraw r.log r.stack).page }
    if r.ready then s.command else s
  else s

end LogViewer

namespace LogViewer

end LogViewer

namespace LogViewer

end LogViewer

end Nebula
