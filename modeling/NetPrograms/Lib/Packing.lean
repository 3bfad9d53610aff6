import Mathlib.Algebra.Order.Ring.Nat
import Mathlib.Data.List.Basic

/-! Items that are laid one behind the other in a buffer and leave it in groups:
an item that would pass the limit sends off the group before it. -/

namespace NetPrograms

universe u
variable {α : Type u}

/-- `high` is the end of the part of the buffer that was ever written. -/
structure Packing (α : Type u) where
  laid : List α := []
  closed : List (List α) := []
  high : Nat := 0
  deriving DecidableEq

namespace Packing

def total (size : α → Nat) : List α → Nat
  | [] => 0
  | item :: items => size item + total size items

/-- An empty buffer makes no group. -/
def close (packing : Packing α) : Packing α :=
  if packing.laid = [] then packing else { packing with laid := [], closed := packing.closed ++ [packing.laid] }

def add (size : α → Nat) (limit : Nat) (packing : Packing α) (item : α) : Packing α :=
  let packing := if limit < total size packing.laid + size item then packing.close else packing
  { packing with
    laid := packing.laid ++ [item]
    high := max packing.high (total size packing.laid + size item) }

/-- Everything that was added, in order. -/
def items (packing : Packing α) : List α := packing.closed.flatten ++ packing.laid

variable {size : α → Nat} {limit bound : Nat}

@[simp] theorem total_nil : total size [] = 0 := rfl

@[simp] theorem total_append (first second : List α) :
    total size (first ++ second) = total size first + total size second := by
  induction first with
  | nil => exact (Nat.zero_add _).symm
  | cons item first ih => rw [List.cons_append, total, total, ih, Nat.add_assoc]

@[simp] theorem items_close (packing : Packing α) : packing.close.items = packing.items := by
  unfold close
  split
  next => rfl
  next => simp [items]

@[simp] theorem laid_close (packing : Packing α) : packing.close.laid = [] := by
  unfold close
  split
  next empty => exact empty
  next => rfl

@[simp] theorem high_close (packing : Packing α) : packing.close.high = packing.high := by
  unfold close
  split <;> rfl

@[simp] theorem items_add (packing : Packing α) (item : α) :
    (packing.add size limit item).items = packing.items ++ [item] := by
  have kept : (if limit < total size packing.laid + size item then packing.close else packing).items = packing.items := by
    split <;> simp
  rw [← kept]
  simp [add, items]

theorem items_foldl (more : List α) (packing : Packing α) :
    (more.foldl (add size limit) packing).items = packing.items ++ more := by
  induction more generalizing packing with
  | nil => simp
  | cons item more ih => rw [List.foldl_cons, ih, items_add, List.append_assoc, List.singleton_append]

theorem closed_flatten (packing : Packing α) : packing.close.closed.flatten = packing.items := by
  rw [← items_close, items, laid_close, List.append_nil]

/-- No group is longer than the bound, nor was anything written past it. -/
structure Fits (size : α → Nat) (bound : Nat) (packing : Packing α) : Prop where
  laid : total size packing.laid ≤ bound
  closed : ∀ group ∈ packing.closed, total size group ≤ bound
  high : packing.high ≤ bound

theorem Fits.empty : Fits size bound {} := ⟨by simp, by simp, Nat.zero_le _⟩

theorem Fits.close {packing : Packing α} (fits : Fits size bound packing) : Fits size bound packing.close := by
  refine ⟨by simp, ?_, by simpa using fits.high⟩
  intro group member
  unfold Packing.close at member
  split at member
  next => exact fits.closed group member
  next =>
    rcases List.mem_append.1 member with old | last
    · exact fits.closed group old
    · obtain rfl := List.mem_singleton.1 last
      exact fits.laid

theorem Fits.add {packing : Packing α} (fits : Fits size bound packing) (within : limit ≤ bound) {item : α}
    (small : size item ≤ bound) : Fits size bound (packing.add size limit item) := by
  have room : ∃ middle : Packing α, Fits size bound middle ∧ total size middle.laid + size item ≤ bound ∧
      packing.add size limit item =
        { middle with laid := middle.laid ++ [item], high := max middle.high (total size middle.laid + size item) } := by
    by_cases full : limit < total size packing.laid + size item
    · exact ⟨packing.close, fits.close, by simpa using small, by simp [Packing.add, full]⟩
    · exact ⟨packing, fits, by omega, by simp [Packing.add, full]⟩
  obtain ⟨middle, held, small, same⟩ := room
  rw [same]
  refine ⟨?_, held.closed, max_le held.high small⟩
  simpa [total] using small

theorem Fits.foldl {more : List α} {packing : Packing α} (fits : Fits size bound packing) (within : limit ≤ bound)
    (small : ∀ item ∈ more, size item ≤ bound) : Fits size bound (more.foldl (Packing.add size limit) packing) := by
  induction more generalizing packing with
  | nil => exact fits
  | cons item more ih =>
    exact ih (fits.add within (small item List.mem_cons_self)) fun item member =>
      small item (List.mem_cons_of_mem _ member)

/-- A group that is sent off holds something. -/
theorem closed_ne_nil_foldl {more : List α} {packing : Packing α} (full : ∀ group ∈ packing.closed, group ≠ []) :
    ∀ group ∈ (more.foldl (add size limit) packing).close.closed, group ≠ [] := by
  have closing : ∀ packing : Packing α, (∀ group ∈ packing.closed, group ≠ []) → ∀ group ∈ packing.close.closed, group ≠ [] := by
    intro packing full group member
    unfold close at member
    split at member
    next => exact full group member
    next laid =>
      rcases List.mem_append.1 member with old | last
      · exact full group old
      · obtain rfl := List.mem_singleton.1 last
        exact laid
  induction more generalizing packing with
  | nil => exact closing packing full
  | cons item more ih =>
    refine ih ?_
    unfold add
    split
    · exact closing packing full
    · exact full

end Packing
end NetPrograms
