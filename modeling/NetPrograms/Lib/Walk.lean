import Mathlib.Algebra.Order.Ring.Int
import Mathlib.Data.List.Perm.Subperm
import Mathlib.Data.List.Range
import Mathlib.Logic.Relation
import Mathlib.Order.Preorder.Finite
import Mathlib.Order.WellFounded

/-! Walks through positions, where the next position depends on the current one
alone. A walk that ends is at no position twice, so it has at most as many steps
as there are positions. -/

namespace NetPrograms

/-- A walk of a number of positions that ends. At a position the walk ends or goes
on; it does not reach what lies outside. -/
inductive Walk (hop : Nat → Option (Option Nat)) : Nat → Nat → Prop where
  | stop {pos} (last : hop pos = some none) : Walk hop pos 1
  | go {pos next steps} (on : hop pos = some (some next)) (rest : Walk hop next steps) : Walk hop pos (steps + 1)

namespace Walk
variable {hop : Nat → Option (Option Nat)} {pos steps bound : Nat}

theorem unique (walk : Walk hop pos steps) {other : Nat} (again : Walk hop pos other) : steps = other := by
  induction walk generalizing other with
  | stop last =>
    cases again with
    | stop => rfl
    | go on =>
      rw [last] at on
      cases on
  | go on rest ih =>
    cases again with
    | stop last =>
      rw [on] at last
      cases last
    | go on' rest' =>
      rw [on] at on'
      cases on'
      rw [ih rest']

/-- The positions of a walk, each with the rest of the walk from it. -/
private theorem path (walk : Walk hop pos steps) : ∃ visited : List Nat, visited.length = steps ∧ visited.Nodup ∧
    ∀ other ∈ visited, (hop other).isSome ∧ ∃ left, left ≤ steps ∧ Walk hop other left := by
  induction walk with
  | @stop pos last =>
    refine ⟨[pos], rfl, by simp, ?_⟩
    intro other member
    obtain rfl := List.mem_singleton.mp member
    exact ⟨by rw [last]; rfl, 1, Nat.le_refl _, .stop last⟩
  | @go pos next steps on rest ih =>
    obtain ⟨visited, length, nodup, walks⟩ := ih
    refine ⟨pos :: visited, by rw [List.length_cons, length], ?_, ?_⟩
    · apply List.nodup_cons.mpr ⟨?_, nodup⟩
      intro member
      obtain ⟨-, left, less, walk⟩ := walks pos member
      have same := unique (.go on rest) walk
      omega
    · intro other member
      rcases List.mem_cons.mp member with first | later
      · exact first ▸ ⟨by rw [on]; rfl, steps + 1, Nat.le_refl _, .go on rest⟩
      · obtain ⟨here, left, less, walk⟩ := walks other later
        exact ⟨here, left, Nat.le_succ_of_le less, walk⟩

theorem steps_le (walk : Walk hop pos steps) (inside : ∀ pos, (hop pos).isSome → pos < bound) : steps ≤ bound := by
  obtain ⟨visited, length, nodup, walks⟩ := walk.path
  have within : visited ⊆ List.range bound := by
    intro other member
    exact List.mem_range.mpr (inside other (walks other member).1)
  have short := (nodup.subperm within).length_le
  rwa [length, List.length_range] at short

end Walk

section returns
open Relation

universe u
variable {α : Type u} {R : α → α → Prop} {start : α}

theorem acc_no_return (ends : Acc (fun next here => R here next) start) : ¬ TransGen R start start := by
  induction ends with
  | intro start _ ih =>
    intro back
    obtain ⟨next, first, rest⟩ := TransGen.head'_iff.mp back
    exact ih next first (.tail' rest first)

/-- Among finitely many positions to go on from, all ways from the start end exactly
when none of them comes back to a position that it has left. -/
theorem acc_iff_no_return {positions : Set α} (finite : positions.Finite) (inside : ∀ {here next}, R here next → here ∈ positions) :
    Acc (fun next here => R here next) start ↔ ∀ here, ReflTransGen R start here → ¬ TransGen R here here := by
  constructor
  · intro ends here way
    apply acc_no_return
    induction way with
    | refl => exact ends
    | tail _ step ih => exact ih.inv step
  · intro noReturn
    by_contra endless
    obtain ⟨path, first, steps⟩ := not_acc_iff_exists_descending_chain.mp endless
    have way (i k : Nat) : ReflTransGen R (path i) (path (i + k)) := by
      induction k with
      | zero => exact .refl
      | succ k ih => exact .tail ih (steps (i + k))
    obtain ⟨i, j, less, same⟩ := Set.Finite.exists_lt_map_eq_of_forall_mem (fun i => inside (steps i)) finite
    obtain ⟨k, rfl⟩ := Nat.exists_eq_add_of_lt less
    apply noReturn (path i)
    · simpa [first] using way 0 i
    · have back := TransGen.tail' (way i k) (steps (i + k))
      rwa [Nat.add_assoc, ← Nat.add_assoc i, ← same] at back

end returns
end NetPrograms
