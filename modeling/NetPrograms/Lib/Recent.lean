import Mathlib.Algebra.Order.Ring.Int
import Mathlib.Data.List.Basic

/-! Collections of entries with keys, newest entry first. A key stands for the
newest entry with it: that one is found and that one is erased. The entries whose
keys are of one class are a collection of their own. -/

namespace NetPrograms.Recent

universe u v w
variable {E : Type u} {K : Type v} {C : Type w} [DecidableEq C]

def part (key : E → K) (cls : K → Option C) (entries : List E) (c : C) : List E :=
  entries.filter fun entry => cls (key entry) = some c

variable {key : E → K} {cls : K → Option C} {entries : List E} {k : K} {c d : C}

theorem part_cons_own {entry : E} (own : cls (key entry) = some c) :
    part key cls (entry :: entries) c = entry :: part key cls entries c :=
  List.filter_cons_of_pos (by simpa using own)

theorem part_cons_other {entry : E} (own : cls (key entry) = some c) (other : d ≠ c) :
    part key cls (entry :: entries) d = part key cls entries d := by
  apply List.filter_cons_of_neg
  simp [own, Ne.symm other]

variable [DecidableEq K]

def find (key : E → K) (entries : List E) (k : K) : Option E := entries.find? fun entry => key entry = k

def erase (key : E → K) (entries : List E) (k : K) : List E := entries.eraseP fun entry => key entry = k

theorem find_part (own : cls k = some c) : find key (part key cls entries c) k = find key entries k := by
  unfold find part
  rw [List.find?_filter]
  congr 1
  funext entry
  by_cases same : key entry = k
  · simp [same, own]
  · simp [same]

theorem part_erase_own (own : cls k = some c) :
    part key cls (erase key entries k) c = erase key (part key cls entries c) k := by
  unfold erase part
  rw [List.eraseP_filter]
  congr 2
  funext entry
  by_cases same : key entry = k
  · simp [same, own]
  · simp [same]

theorem part_erase_other (own : cls k = some c) (other : d ≠ c) :
    part key cls (erase key entries k) d = part key cls entries d := by
  induction entries with
  | nil => rfl
  | cons entry entries ih =>
    by_cases same : key entry = k
    · have kept : erase key (entry :: entries) k = entries := List.eraseP_cons_of_pos (by simpa using same)
      rw [kept, part_cons_other (same ▸ own) other]
    · have kept : erase key (entry :: entries) k = entry :: erase key entries k :=
        List.eraseP_cons_of_neg (by simpa using same)
      rw [kept]
      unfold part at ih ⊢
      rw [List.filter_cons, List.filter_cons, ih]

end NetPrograms.Recent
