import NetPrograms.Lib.Block

/-! A fixed array with a record of the writes to it. -/

namespace NetPrograms

universe u

/-- An array, and of each write where it started and its items. -/
structure Ledger (α : Type u) (n : Nat) where
  array : Buffer α n
  writes : List (Nat × List α)
  inside : ∀ write ∈ writes, write.1 + write.2.length ≤ n

namespace Ledger
variable {α : Type u} {n : Nat}

theorem inside_nil : ∀ write ∈ ([] : List (Nat × List α)), write.1 + write.2.length ≤ n := by simp

theorem inside_snoc {writes : List (Nat × List α)} (inside : ∀ write ∈ writes, write.1 + write.2.length ≤ n) {start : Nat}
    {items : List α} (fits : start + items.length ≤ n) :
    ∀ write ∈ writes ++ [(start, items)], write.1 + write.2.length ≤ n := by
  intro write member
  rcases List.mem_append.mp member with earlier | last
  · exact inside write earlier
  · rw [List.mem_singleton.mp last]
    exact fits

/-- An array that has not been written to. -/
def blank (array : Buffer α n) : Ledger α n := ⟨array, [], inside_nil⟩

def write (ledger : Ledger α n) (start : Nat) (items : List α) : Option (Ledger α n) :=
  if fits : start + items.length ≤ n then
    (ledger.array.write start items).map fun array =>
      ⟨array, ledger.writes ++ [(start, items)], inside_snoc ledger.inside fits⟩
  else
    none

/-- How many items were written. -/
def count (ledger : Ledger α n) : Nat := (ledger.writes.map fun write => write.2.length).sum

@[simp] theorem blank_count (array : Buffer α n) : (blank array).count = 0 := rfl

theorem write_count {ledger after : Ledger α n} {start : Nat} {items : List α} (written : ledger.write start items = some after) :
    after.count = ledger.count + items.length := by
  unfold write at written
  split at written
  next =>
    obtain ⟨array, -, rfl⟩ := Option.map_eq_some_iff.mp written
    simp [count]
  next => cases written

/-- Without its record a write is the one to the block. -/
theorem write_cells (ledger : Ledger α n) (start : Nat) (items : List α) :
    (ledger.write start items).map (·.array.cells) = Block.write ledger.array.cells start items := by
  unfold write Buffer.write Block.write
  rw [ledger.array.size]
  split
  next => rfl
  next => rfl

end Ledger
end NetPrograms
