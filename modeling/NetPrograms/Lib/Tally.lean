import Mathlib.Algebra.Order.Ring.Int
import Mathlib.Algebra.BigOperators.Group.List.Lemmas
import Mathlib.Data.List.Dedup
import Mathlib.Data.List.TakeWhile

/-! Maximal runs of a text, and tables that count the elements of a list: each is
listed once, in the order of the first occurrences. -/

namespace NetPrograms.Tally

universe u v
variable {α : Type u} {β : Type v}

/-- The maximal runs of elements to keep. -/
def runs (keep : α → Bool) (text : List α) : List (List α) := (text.splitOnP fun a => !keep a).filter fun run => !run.isEmpty

section runs
variable {keep : α → Bool} {text : List α}

@[simp] theorem runs_nil : runs keep [] = [] := rfl

theorem runs_skip {a : α} (other : keep a = false) : runs keep (a :: text) = runs keep text := by
  simp [runs, List.splitOnP_cons_eq_if_modifyHead, other]

theorem runs_dropWhile : runs keep (text.dropWhile fun a => !keep a) = runs keep text := by
  induction text with
  | nil => rfl
  | cons a text ih =>
    cases kept : keep a with
    | false =>
      rw [List.dropWhile_cons_of_pos (by simp [kept]), ih, runs_skip kept]
    | true => rw [List.dropWhile_cons_of_neg (by simp [kept])]

/-- A run at the front of the text, which ends at the text's end or before another element. -/
theorem runs_front {run rest : List α} (some : run ≠ []) (kept : ∀ a ∈ run, keep a = true)
    (ends : ∀ a ∈ rest.head?, keep a = false) : runs keep (run ++ rest) = run :: runs keep rest := by
  have whole : run.splitOnP (fun a => !keep a) = [run] := List.splitOnP_eq_singleton (by simpa using kept)
  cases rest with
  | nil => simp [runs, whole, some]
  | cons a rest =>
    have other : keep a = false := ends a rfl
    rw [runs_skip other, runs, List.splitOnP_append_cons _ _ (by simp [other]), whole]
    simp [runs, some]

end runs

variable [DecidableEq α]

/-- `table` counts the elements of `list`. -/
structure Counts (list : List α) (table : List (α × Nat)) : Prop where
  listed : ∀ a, a ∈ table.map Prod.fst ↔ a ∈ list
  ordered : (table.map Prod.fst).Pairwise fun a b => list.idxOf a < list.idxOf b
  counted : ∀ entry ∈ table, entry.2 = list.count entry.1

/-- One more in a table, found by a linear search. -/
def add : List (α × Nat) → α → List (α × Nat)
  | [], a => [(a, 1)]
  | entry :: table, a => if a = entry.1 then (entry.1, entry.2 + 1) :: table else entry :: add table a

section Counts
variable {list : List α} {table : List (α × Nat)}

theorem Counts.nodup (counts : Counts list table) : (table.map Prod.fst).Nodup :=
  counts.ordered.imp fun earlier same => absurd (same ▸ earlier) (lt_irrefl _)

theorem Counts.sum (counts : Counts list table) : (table.map Prod.snd).sum = list.length := by
  have keys : table.map Prod.snd = (table.map Prod.fst).map list.count := by
    rw [List.map_map]
    exact List.map_congr_left counts.counted
  have same : (table.map Prod.fst).Perm list.dedup := by
    apply (List.perm_ext_iff_of_nodup counts.nodup (List.nodup_dedup _)).mpr
    intro a
    rw [counts.listed, List.mem_dedup]
  rw [keys, (same.map _).sum_eq, List.sum_map_count_dedup_eq_length]

theorem add_fresh {a : α} (fresh : a ∉ table.map Prod.fst) : add table a = table ++ [(a, 1)] := by
  induction table with
  | nil => rfl
  | cons entry table ih =>
    obtain ⟨other, fresh⟩ := not_or.mp (List.mem_cons.not.mp fresh)
    rw [Tally.add, if_neg other, ih fresh]
    rfl

theorem add_listed {a : α} (nodup : (table.map Prod.fst).Nodup) (listed : a ∈ table.map Prod.fst) :
    add table a = table.map fun entry => if entry.1 = a then (entry.1, entry.2 + 1) else entry := by
  induction table with
  | nil => cases listed
  | cons entry table ih =>
    obtain ⟨once, nodup⟩ := List.nodup_cons.mp nodup
    by_cases same : a = entry.1
    · have rest : (table.map fun entry => if entry.1 = a then (entry.1, entry.2 + 1) else entry) = table := by
        apply (List.map_congr_left ?_).trans (List.map_id table)
        intro other member
        have different : other.1 ≠ a := by
          intro again
          exact once (List.mem_map.mpr ⟨other, member, again.trans same⟩)
        rw [if_neg different, id]
      rw [Tally.add, if_pos same, List.map_cons, rest, if_pos same.symm]
    · have later := (List.mem_cons.mp listed).resolve_left same
      rw [Tally.add, if_neg same, ih nodup later, List.map_cons, if_neg (Ne.symm same)]

theorem add_keys {a : α} (nodup : (table.map Prod.fst).Nodup) (listed : a ∈ table.map Prod.fst) :
    (add table a).map Prod.fst = table.map Prod.fst := by
  rw [add_listed nodup listed, List.map_map]
  apply List.map_congr_left
  intro entry _
  rw [Function.comp_apply]
  split <;> rfl

/-- The elements of a table keep their order when the list grows. -/
theorem Counts.ordered_append (counts : Counts list table) (a : α) :
    (table.map Prod.fst).Pairwise fun b c => (list ++ [a]).idxOf b < (list ++ [a]).idxOf c := by
  apply counts.ordered.imp_of_mem
  intro b c first second earlier
  rwa [List.idxOf_append_of_mem ((counts.listed b).mp first), List.idxOf_append_of_mem ((counts.listed c).mp second)]

theorem Counts.add_listed (counts : Counts list table) {a : α} (listed : a ∈ table.map Prod.fst) :
    Counts (list ++ [a]) (Tally.add table a) := by
  have keys := add_keys counts.nodup listed
  refine ⟨?_, keys ▸ counts.ordered_append a, ?_⟩
  · intro b
    have old := (counts.listed a).mp listed
    rw [keys, counts.listed, List.mem_append, List.mem_singleton]
    exact ⟨.inl, fun member => member.elim id fun same => same ▸ old⟩
  · rw [Tally.add_listed counts.nodup listed]
    intro entry member
    obtain ⟨before, earlier, rfl⟩ := List.mem_map.mp member
    have count := counts.counted before earlier
    split
    next same => simp [List.count_append, count, same]
    next other => simp [List.count_append, count, Ne.symm other]

theorem Counts.add_fresh (counts : Counts list table) {a : α} (fresh : a ∉ table.map Prod.fst) :
    Counts (list ++ [a]) (Tally.add table a) := by
  have unlisted : a ∉ list := (counts.listed a).not.mp fresh
  rw [Tally.add_fresh fresh]
  refine ⟨?_, ?_, ?_⟩
  · intro b
    simp [← counts.listed]
  · rw [List.map_append, List.pairwise_append]
    refine ⟨counts.ordered_append a, List.pairwise_singleton _ _, ?_⟩
    intro b first c second
    obtain rfl := List.mem_singleton.mp second
    have old := (counts.listed b).mp first
    rw [List.idxOf_append_of_mem old, List.idxOf_append_of_notMem unlisted]
    exact (List.idxOf_lt_length_iff.mpr old).trans_le (Nat.le_add_right _ _)
  · intro entry member
    rcases List.mem_append.mp member with earlier | new
    · have other : entry.1 ≠ a := by
        rintro rfl
        exact fresh (List.mem_map_of_mem earlier)
      simp [List.count_append, counts.counted entry earlier, Ne.symm other]
    · obtain rfl := List.mem_singleton.mp new
      simp [List.count_append, List.count_eq_zero_of_not_mem unlisted]

theorem Counts.add (counts : Counts list table) (a : α) : Counts (list ++ [a]) (add table a) := by
  by_cases listed : a ∈ table.map Prod.fst
  · exact counts.add_listed listed
  · exact counts.add_fresh listed

end Counts
end NetPrograms.Tally
