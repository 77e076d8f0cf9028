import Mathlib.Tactic.Common

/-! Named pipes: one queue for all who have it open, emptied when the last of them closes it. -/

/--
A named pipe with the number of descriptors that are open, or being opened, for each direction.

No operation looks at the last field, which records how the items left.
-/
structure Fifo (Reader Item : Type*) where
  buffer : List Item
  readers : Nat
  writers : Nat
  /-- Each item that has left the buffer, with its reader, or none if it was discarded. -/
  gone : List (Option Reader × Item)

namespace Fifo

variable {Reader Item : Type*} (q : Fifo Reader Item)

def empty : Fifo Reader Item := ⟨[], 0, 0, []⟩

def openRead : Fifo Reader Item := { q with readers := q.readers + 1 }

def openWrite : Fifo Reader Item := { q with writers := q.writers + 1 }

def write (items : List Item) : Fifo Reader Item := { q with buffer := q.buffer ++ items }

/-- A read that does not block takes what is there, up to the size it asks for. -/
def read (reader : Reader) (size : Nat) : List Item × Fifo Reader Item :=
  (q.buffer.take size,
    { q with
      buffer := q.buffer.drop size
      gone := q.gone ++ (q.buffer.take size).map fun item => (some reader, item) })

/-- What is buffered is discarded when nobody has the pipe open. -/
def settle : Fifo Reader Item :=
  if q.readers + q.writers = 0 then
    { q with buffer := [], gone := q.gone ++ q.buffer.map fun item => (none, item) }
  else q

def closeRead : Fifo Reader Item := { q with readers := q.readers - 1 }.settle

def closeWrite : Fifo Reader Item := { q with writers := q.writers - 1 }.settle

@[simp] theorem openRead_readers : q.openRead.readers = q.readers + 1 := rfl

@[simp] theorem openRead_writers : q.openRead.writers = q.writers := rfl

@[simp] theorem openWrite_readers : q.openWrite.readers = q.readers := rfl

@[simp] theorem openWrite_writers : q.openWrite.writers = q.writers + 1 := rfl

@[simp] theorem write_readers (items : List Item) : (q.write items).readers = q.readers := rfl

@[simp] theorem write_writers (items : List Item) : (q.write items).writers = q.writers := rfl

@[simp] theorem read_readers (reader : Reader) (size : Nat) :
    (q.read reader size).2.readers = q.readers := rfl

@[simp] theorem read_writers (reader : Reader) (size : Nat) :
    (q.read reader size).2.writers = q.writers := rfl

@[simp] theorem settle_readers : q.settle.readers = q.readers := by
  unfold settle
  split <;> rfl

@[simp] theorem settle_writers : q.settle.writers = q.writers := by
  unfold settle
  split <;> rfl

@[simp] theorem closeRead_readers : q.closeRead.readers = q.readers - 1 := settle_readers _

@[simp] theorem closeRead_writers : q.closeRead.writers = q.writers := settle_writers _

@[simp] theorem closeWrite_readers : q.closeWrite.readers = q.readers := settle_readers _

@[simp] theorem closeWrite_writers : q.closeWrite.writers = q.writers - 1 := settle_writers _

variable {q}

/-- Closing leaves the items alone, unless it drops the last descriptor and discards them. -/
theorem closeRead_cases (opened : 0 < q.readers) :
    (q.closeRead.buffer = q.buffer ∧ q.closeRead.gone = q.gone) ∨
    (q.readers + q.writers = 1 ∧ q.closeRead.buffer = [] ∧
      q.closeRead.gone = q.gone ++ q.buffer.map fun item => (none, item)) := by
  unfold closeRead settle
  dsimp only
  by_cases last : q.readers - 1 + q.writers = 0
  · rw [if_pos last]
    exact Or.inr ⟨by omega, rfl, rfl⟩
  · rw [if_neg last]
    exact Or.inl ⟨rfl, rfl⟩

theorem closeWrite_cases (opened : 0 < q.writers) :
    (q.closeWrite.buffer = q.buffer ∧ q.closeWrite.gone = q.gone) ∨
    (q.readers + q.writers = 1 ∧ q.closeWrite.buffer = [] ∧
      q.closeWrite.gone = q.gone ++ q.buffer.map fun item => (none, item)) := by
  unfold closeWrite settle
  dsimp only
  by_cases last : q.readers + (q.writers - 1) = 0
  · rw [if_pos last]
    exact Or.inr ⟨by omega, rfl, rfl⟩
  · rw [if_neg last]
    exact Or.inl ⟨rfl, rfl⟩

/-- The last close discards what is buffered. -/
theorem closeRead_last (opened : 0 < q.readers) (last : q.readers + q.writers = 1) :
    q.closeRead.gone = q.gone ++ q.buffer.map fun item => (none, item) := by
  rw [closeRead, settle, if_pos (show q.readers - 1 + q.writers = 0 by omega)]

theorem closeWrite_last (opened : 0 < q.writers) (last : q.readers + q.writers = 1) :
    q.closeWrite.gone = q.gone ++ q.buffer.map fun item => (none, item) := by
  rw [closeWrite, settle, if_pos (show q.readers + (q.writers - 1) = 0 by omega)]

/-- A large enough read takes the whole buffer. -/
theorem read_whole {size : Nat} (enough : q.buffer.length ≤ size) (reader : Reader) :
    q.read reader size =
      (q.buffer, { q with buffer := [], gone := q.gone ++ q.buffer.map fun item => (some reader, item) }) := by
  rw [read, List.take_of_length_le enough, List.drop_eq_nil_of_le enough]

end Fifo
