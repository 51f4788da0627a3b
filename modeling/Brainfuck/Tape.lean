/-!
# The tape

A fixed number of byte cells, all zero at first, and a cursor on one of them. Cells count
modulo 256. A move that would leave the tape is refused and changes nothing, so the cursor
always has a cell under it.
-/

namespace Brainfuck

/-- The number of cells of a tape when no other is asked for. -/
def defaultTapeSize : Nat := 30000

/-- Cells and a cursor on one of them. -/
structure Tape where
  cells : Array UInt8
  cursor : Nat
  cursor_lt : cursor < cells.size
  deriving DecidableEq

/-- A refused move: where the cursor stayed, and how many cells there are. -/
structure EdgeError where
  cursor : Nat
  capacity : Nat
  deriving DecidableEq, Repr

/-- What is said of a refused move. -/
def EdgeError.message (e : EdgeError) : String :=
  "tape cursor out of bounds (cursor=" ++ toString e.cursor ++
    ", capacity=" ++ toString e.capacity ++ ")"

namespace Tape

/-- A zeroed tape with the cursor on its first cell. A tape of no cells is given one. -/
def blank (capacity : Nat) : Tape where
  cells := Array.replicate (max capacity 1) 0
  cursor := 0
  cursor_lt := by rw [Array.size_replicate]; omega

/-- The number of cells. -/
def capacity (t : Tape) : Nat := t.cells.size

/-- The error for a move that would leave the tape. -/
def edge (t : Tape) : EdgeError := ⟨t.cursor, t.capacity⟩

/-- Moves the cursor to the right, unless it is on the last cell. -/
def advance (t : Tape) : Except EdgeError Tape :=
  if h : t.cursor + 1 < t.cells.size then .ok { t with cursor := t.cursor + 1, cursor_lt := h }
  else .error t.edge

/-- Moves the cursor to the left, unless it is on the first cell. -/
def retreat (t : Tape) : Except EdgeError Tape :=
  if t.cursor = 0 then .error t.edge
  else .ok { t with
    cursor := t.cursor - 1, cursor_lt := Nat.lt_of_le_of_lt (Nat.sub_le _ _) t.cursor_lt }

/-- The current cell. -/
def read (t : Tape) : UInt8 :=
  have := t.cursor_lt
  t.cells[t.cursor]

/-- Replaces the current cell. -/
def write (t : Tape) (b : UInt8) : Tape where
  cells := t.cells.set t.cursor b t.cursor_lt
  cursor := t.cursor
  cursor_lt := by simpa using t.cursor_lt

/-- Adds one to the current cell, modulo 256. -/
def increment (t : Tape) : Tape := t.write (t.read + 1)

/-- Takes one from the current cell, modulo 256. -/
def decrement (t : Tape) : Tape := t.write (t.read - 1)

@[simp] theorem cursor_write (t : Tape) (b : UInt8) : (t.write b).cursor = t.cursor := rfl

@[simp] theorem capacity_write (t : Tape) (b : UInt8) : (t.write b).capacity = t.capacity := by
  simp [capacity, write]

@[simp] theorem read_write (t : Tape) (b : UInt8) : (t.write b).read = b := by
  simp [read, write]

@[simp] theorem capacity_blank (n : Nat) : (blank n).capacity = max n 1 := by
  simp [capacity, blank]

theorem capacity_pos (t : Tape) : 0 < t.capacity := Nat.zero_lt_of_lt t.cursor_lt

theorem cells_of_advance {t t' : Tape} (h : t.advance = .ok t') : t'.cells = t.cells := by
  unfold advance at h
  split at h
  · cases h; rfl
  · cases h

theorem cells_of_retreat {t t' : Tape} (h : t.retreat = .ok t') : t'.cells = t.cells := by
  unfold retreat at h
  split at h
  · cases h
  · cases h; rfl

theorem cursor_of_advance {t t' : Tape} (h : t.advance = .ok t') : t'.cursor = t.cursor + 1 := by
  unfold advance at h
  split at h
  · cases h
    rfl
  · cases h

theorem cursor_of_retreat {t t' : Tape} (h : t.retreat = .ok t') : t'.cursor + 1 = t.cursor := by
  unfold retreat at h
  split at h
  · cases h
  · cases h
    simp only
    omega

theorem getElem?_write (t : Tape) (b : UInt8) (i : Nat) :
    (t.write b).cells[i]? = if t.cursor = i then some b else t.cells[i]? := by
  simp only [write, Array.getElem?_set]

theorem getElem?_cursor (t : Tape) : t.cells[t.cursor]? = some t.read :=
  Array.getElem?_eq_getElem t.cursor_lt

end Tape

end Brainfuck
