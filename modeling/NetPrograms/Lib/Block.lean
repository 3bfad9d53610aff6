import Mathlib.Algebra.Order.Ring.Int
import Mathlib.Data.List.Basic
import Mathlib.Data.List.TakeDrop

/-! Blocks of memory as lists of cells. Every access states its bounds: a read or
a write that leaves the block has no result, so that a program which always has
a result never leaves its buffers. -/

namespace NetPrograms

universe u
variable {α : Type u}

namespace Block

def slice (block : List α) (start count : Nat) : List α :=
  (block.drop start).take count

/-- The block after `items` were stored from cell `start` on. -/
def overlay (block : List α) (start : Nat) (items : List α) : List α :=
  block.take start ++ (items ++ block.drop (start + items.length))

def read (block : List α) (start count : Nat) : Option (List α) :=
  if start + count ≤ block.length then some (slice block start count) else none

def write (block : List α) (start : Nat) (items : List α) : Option (List α) :=
  if start + items.length ≤ block.length then some (overlay block start items) else none

theorem read_of_le {block : List α} {start count : Nat} (inside : start + count ≤ block.length) :
    read block start count = some (slice block start count) := if_pos inside

theorem write_of_le {block items : List α} {start : Nat}
    (inside : start + items.length ≤ block.length) :
    write block start items = some (overlay block start items) := if_pos inside

theorem cell_append {block : List α} {index : Nat} {cell : α} (found : block[index]? = some cell) (back : List α) :
    (block ++ back)[index]? = some cell := by
  rw [List.getElem?_append_left (List.getElem?_eq_some_iff.mp found).1]
  exact found

theorem read_middle (front items back : List α) :
    read (front ++ (items ++ back)) front.length items.length = some items := by
  rw [read_of_le (by simp), slice, List.drop_left, List.take_left]

theorem read_eq_some {block items : List α} {start count : Nat} (found : read block start count = some items) :
    start + count ≤ block.length ∧ slice block start count = items := by
  unfold read at found
  split at found
  next inside => exact ⟨inside, Option.some.inj found⟩
  next => cases found

theorem read_append {block items : List α} {start count : Nat} (found : read block start count = some items)
    (back : List α) : read (block ++ back) start count = some items := by
  obtain ⟨inside, rfl⟩ := read_eq_some found
  rw [read_of_le (by rw [List.length_append]; omega), slice, slice, List.drop_append_of_le_length (by omega),
    List.take_append_of_le_length (by rw [List.length_drop]; omega)]

/-- Storing behind what was written so far. -/
theorem write_behind (front items rest : List α) (room : items.length ≤ rest.length) :
    write (front ++ rest) front.length items = some (front ++ (items ++ rest.drop items.length)) := by
  rw [write_of_le (by simpa using room), overlay, List.take_left, List.drop_append, Nat.add_sub_cancel_left,
    List.drop_of_length_le (Nat.le_add_right _ _), List.nil_append]

@[simp] theorem slice_length (block : List α) (start count : Nat) :
    (slice block start count).length = min count (block.length - start) := by
  simp [slice]

theorem overlay_length {block items : List α} {start : Nat}
    (inside : start + items.length ≤ block.length) :
    (overlay block start items).length = block.length := by
  simp only [overlay, List.length_append, List.length_take, List.length_drop]
  omega

theorem overlay_zero (block items : List α) :
    overlay block 0 items = items ++ block.drop items.length := by
  simp [overlay]

theorem slice_overlay {block items : List α} {start : Nat} (inside : start ≤ block.length) :
    slice (overlay block start items) start items.length = items := by
  have before : (block.take start).length = start := by simp [inside]
  unfold slice overlay
  rw [List.drop_append_of_le_length (by omega), List.drop_of_length_le (by omega)]
  simp

theorem take_overlay {block items : List α} {start count : Nat} (below : count ≤ start)
    (inside : start ≤ block.length) : (overlay block start items).take count = block.take count := by
  unfold overlay
  rw [List.take_append_of_le_length (by simp; omega), List.take_take, Nat.min_eq_left below]

/-- Two stores, the second behind the first. -/
theorem overlay_overlay {block first second : List α} {start : Nat} (inside : start ≤ block.length) :
    overlay (overlay block start first) (start + first.length) second = overlay block start (first ++ second) := by
  have before : (block.take start).length = start := List.length_take_of_le inside
  unfold overlay
  rw [← List.append_assoc _ first, List.take_left' (by rw [List.length_append, before]), List.drop_append,
    List.length_append, List.length_append, before, List.drop_of_length_le (by rw [List.length_append, before]; omega),
    List.nil_append, List.drop_drop, List.append_assoc, List.append_assoc]
  congr 4
  omega

theorem overlay_single {block : List α} {index : Nat} (item : α) (inside : index < block.length) :
    overlay block index [item] = block.set index item := by
  rw [overlay, List.set_eq_take_append_cons_drop, if_pos inside]
  rfl

theorem slice_getElem? (block : List α) (start count index : Nat) :
    (slice block start count)[index]? = if index < count then block[start + index]? else none := by
  rw [slice, List.getElem?_take, List.getElem?_drop]

theorem slice_zero (block : List α) (count : Nat) : slice block 0 count = block.take count := by
  simp [slice]

theorem slice_append (block : List α) (start first second : Nat) :
    slice block start (first + second) = slice block start first ++ slice block (start + first) second := by
  simp only [slice, List.take_add, List.drop_drop]

/-- Memory without an end, after `items` were stored from cell `start` on. -/
def store (memory : Nat → α) (start : Nat) (items : List α) (cell : Nat) : α :=
  if start ≤ cell then (items[cell - start]?).getD (memory cell) else memory cell

@[simp] theorem store_nil (memory : Nat → α) (start : Nat) : store memory start [] = memory := by
  funext cell
  simp [store]

/-- Two stores, the second behind the first. -/
theorem store_store (memory : Nat → α) (start : Nat) (first second : List α) :
    store (store memory start first) (start + first.length) second = store memory start (first ++ second) := by
  funext cell
  unfold store
  by_cases behind : start + first.length ≤ cell
  · have outside : first[cell - start]? = none := List.getElem?_eq_none (by omega)
    have index : cell - (start + first.length) = cell - start - first.length := by omega
    rw [if_pos behind, if_pos (by omega), if_pos (by omega), List.getElem?_append_right (by omega), outside, index]
    rfl
  · rw [if_neg behind]
    split
    next => rw [List.getElem?_append_left (by omega)]
    next => rfl

end Block

/-- A fixed array of the program, which keeps its size through every write. -/
structure Buffer (α : Type u) (n : Nat) where
  cells : List α
  size : cells.length = n
  deriving DecidableEq

namespace Buffer
variable {n : Nat}

attribute [simp] Buffer.size

def fill (value : α) : Buffer α n := ⟨List.replicate n value, by simp⟩

def read (buffer : Buffer α n) (start count : Nat) : Option (List α) :=
  Block.read buffer.cells start count

def write (buffer : Buffer α n) (start : Nat) (items : List α) : Option (Buffer α n) :=
  if inside : start + items.length ≤ n then
    some ⟨Block.overlay buffer.cells start items, by
      rw [Block.overlay_length (by simpa using inside), buffer.size]⟩
  else none

/-- A copy to the start of the array that is known to fit. -/
def put (buffer : Buffer α n) (items : List α) (fits : items.length ≤ n) : Buffer α n :=
  ⟨Block.overlay buffer.cells 0 items, by
    rw [Block.overlay_length (by rw [Nat.zero_add, buffer.size]; exact fits), buffer.size]⟩

@[simp] theorem put_cells (buffer : Buffer α n) (items : List α) (fits : items.length ≤ n) :
    (buffer.put items fits).cells = items ++ buffer.cells.drop items.length := Block.overlay_zero _ _

theorem read_of_le {buffer : Buffer α n} {start count : Nat} (inside : start + count ≤ n) :
    buffer.read start count = some (Block.slice buffer.cells start count) :=
  Block.read_of_le (by simpa using inside)

theorem write_of_le (buffer : Buffer α n) (start : Nat) (items : List α) (inside : start + items.length ≤ n) :
    ∃ after, buffer.write start items = some after ∧
      after.cells = Block.overlay buffer.cells start items :=
  ⟨_, dif_pos inside, rfl⟩

theorem write_behind {buffer : Buffer α n} {front rest : List α} (whole : buffer.cells = front ++ rest)
    (items : List α) (room : items.length ≤ rest.length) : ∃ after, buffer.write front.length items = some after ∧
      after.cells = front ++ (items ++ rest.drop items.length) := by
  have size := buffer.size
  rw [whole, List.length_append] at size
  obtain ⟨after, written, cells⟩ := write_of_le buffer front.length items (by omega)
  refine ⟨after, written, ?_⟩
  have stored := Block.write_behind front items rest room
  rw [Block.write_of_le (by simpa using room), ← whole, ← cells] at stored
  exact Option.some.inj stored

theorem write_eq_some {buffer after : Buffer α n} {start : Nat} {items : List α}
    (written : buffer.write start items = some after) :
    start + items.length ≤ n ∧ after.cells = Block.overlay buffer.cells start items := by
  unfold write at written
  split at written
  next inside =>
    cases written
    exact ⟨inside, rfl⟩
  next => cases written

theorem write_nil (buffer : Buffer α n) {start : Nat} (inside : start ≤ n) : buffer.write start [] = some buffer := by
  obtain ⟨cells, size⟩ := buffer
  rw [write, dif_pos (by simpa using inside)]
  simp [Block.overlay]

/-- Two writes, the second behind the first, are one. -/
theorem write_write (buffer : Buffer α n) (start : Nat) (first second : List α) :
    (buffer.write start first).bind (·.write (start + first.length) second) = buffer.write start (first ++ second) := by
  have total : start + (first ++ second).length = start + first.length + second.length := by
    rw [List.length_append, Nat.add_assoc]
  by_cases inside : start + first.length ≤ n
  · have before : start ≤ buffer.cells.length := by
      rw [buffer.size]
      omega
    rw [write, dif_pos inside, Option.bind_some]
    by_cases more : start + first.length + second.length ≤ n
    · rw [write, dif_pos more, write, dif_pos (by omega)]
      simp only [Block.overlay_overlay before]
    · rw [write, dif_neg more, write, dif_neg (by omega)]
  · rw [write, dif_neg inside, Option.bind_none, write, dif_neg (by omega)]

end Buffer
end NetPrograms
