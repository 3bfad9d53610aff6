import Mathlib.Algebra.Order.Ring.Int
import Mathlib.Data.List.Basic
import Mathlib.Data.List.Infix
import Mathlib.Data.List.TakeDrop

/-! NUL-terminated strings in blocks of memory. A block without a NUL byte has no
length: the library function would read past its end. -/

namespace NetPrograms

/-- The bytes of an ASCII literal, without the terminating NUL. -/
def ascii (text : String) : List UInt8 := text.toList.map fun c => UInt8.ofNat c.toNat

def strlen (block : List UInt8) : Option Nat := block.findIdx? (· = 0)

def cstring (block : List UInt8) : Option (List UInt8) := (strlen block).map block.take

/-- Whether `strcmp` is zero. It reads up to the first difference. -/
def strcmpZero : List UInt8 → List UInt8 → Option Bool
  | a :: as, b :: bs => if a ≠ b then some false else if a = 0 then some true else strcmpZero as bs
  | _, _ => none

def strstr (text needle : List UInt8) : Bool := text.tails.any needle.isPrefixOf

theorem strlen_append {text : List UInt8} (free : 0 ∉ text) (rest : List UInt8) :
    strlen (text ++ 0 :: rest) = some text.length := by
  induction text with
  | nil => rfl
  | cons byte text ih =>
    obtain ⟨other, free⟩ := not_or.mp (List.mem_cons.not.mp free)
    have further := ih free
    unfold strlen at further ⊢
    rw [List.cons_append, List.findIdx?_cons, further]
    simp [Ne.symm other]

theorem cstring_append {text : List UInt8} (free : 0 ∉ text) (rest : List UInt8) :
    cstring (text ++ 0 :: rest) = some text := by
  rw [cstring, strlen_append free, Option.map_some, List.take_left]

theorem strcmpZero_append {text other : List UInt8} (free : 0 ∉ text) (free' : 0 ∉ other) (rest rest' : List UInt8) :
    strcmpZero (text ++ 0 :: rest) (other ++ 0 :: rest') = some (decide (text = other)) := by
  induction text generalizing other with
  | nil =>
    cases other with
    | nil => rfl
    | cons b other =>
      have apart : ¬ (0 = b) := (not_or.mp (List.mem_cons.not.mp free')).1
      simp [strcmpZero, apart]
  | cons a text ih =>
    obtain ⟨apart, free⟩ := not_or.mp (List.mem_cons.not.mp free)
    cases other with
    | nil => simp [strcmpZero, Ne.symm apart]
    | cons b other =>
      obtain ⟨-, tail⟩ := not_or.mp (List.mem_cons.not.mp free')
      by_cases same : a = b
      · subst same
        have further := ih free tail
        simp [strcmpZero, Ne.symm apart, further]
      · simp [strcmpZero, same]

theorem strstr_prefix {text needle : List UInt8} (found : needle.isPrefixOf text = true) : strstr text needle = true :=
  List.any_eq_true.mpr ⟨text, (List.mem_tails _ _).mpr (List.suffix_refl _), found⟩

theorem cstring_isSome {block : List UInt8} (ended : 0 ∈ block) : ∃ text, cstring block = some text := by
  have somewhere : (strlen block).isSome := by
    rw [strlen, List.findIdx?_isSome]
    exact List.any_eq_true.mpr ⟨0, ended, rfl⟩
  obtain ⟨length, found⟩ := Option.isSome_iff_exists.mp somewhere
  rw [cstring, found]
  exact ⟨_, rfl⟩

theorem cstring_eq_some {block text : List UInt8} (found : cstring block = some text) :
    0 ∉ text ∧ ∃ rest, block = text ++ 0 :: rest := by
  obtain ⟨length, ended, rfl⟩ := Option.map_eq_some_iff.mp found
  obtain ⟨inside, zero, before⟩ := List.findIdx?_eq_some_iff_getElem.mp ended
  refine ⟨?_, block.drop (length + 1), ?_⟩
  · intro member
    obtain ⟨index, within, same⟩ := List.mem_iff_getElem.mp member
    rw [List.length_take] at within
    have other := before index (by omega)
    rw [List.getElem_take] at same
    simp [same] at other
  · have here : block[length] = 0 := by simpa using zero
    rw [← here, ← List.drop_eq_getElem_cons inside, List.take_append_drop]

/-- Bytes that are not zero at the start of a block start its string. -/
theorem prefix_cstring {text found rest : List UInt8} (free : 0 ∉ text) (ended : cstring (text ++ rest) = some found) :
    text <+: found := by
  obtain ⟨-, behind, whole⟩ := cstring_eq_some ended
  rcases List.append_eq_append_iff.mp whole with ⟨more, same, -⟩ | ⟨more, same, zero⟩
  · exact ⟨more, same.symm⟩
  · cases more with
    | nil => exact ⟨[], by rw [same, List.append_nil, List.append_nil]⟩
    | cons byte more =>
      cases zero
      exact absurd (same ▸ List.mem_append_right found List.mem_cons_self) free

/-- A string ends at its first zero, whatever stands behind. -/
theorem cstring_prefix {block text : List UInt8} (found : cstring block = some text) (rest : List UInt8) :
    cstring (block ++ rest) = some text := by
  obtain ⟨free, behind, rfl⟩ := cstring_eq_some found
  rw [List.append_assoc, List.cons_append]
  exact cstring_append free _

end NetPrograms
