import Mathlib.Algebra.Order.Ring.Int
import Mathlib.Data.List.Infix

/-! Properties of every action of a finite trace, each judged by what came before
it. -/

namespace NetPrograms

universe u
variable {α : Type u}

/-- `P` holds of every action of the trace and the actions before it. -/
def Always (P : List α → α → Prop) (trace : List α) : Prop :=
  ∀ earlier action, earlier ++ [action] <+: trace → P earlier action

namespace Always
variable {P Q R : List α → α → Prop} {trace more : List α}

theorem nil : Always P [] := by
  intro earlier action within
  simp at within

theorem snoc {action : α} (always : Always P trace) (last : P trace action) : Always P (trace ++ [action]) := by
  intro earlier other within
  rcases List.prefix_concat_iff.mp within with same | within
  · obtain ⟨rfl, rfl⟩ := List.append_singleton_inj.mp same
    exact last
  · exact always earlier other within

theorem append (always : Always P trace) (accepted : ∀ action ∈ more, ∀ earlier, P earlier action) :
    Always P (trace ++ more) := by
  induction more using List.reverseRecOn with
  | nil => simpa using always
  | append_singleton more action ih =>
    rw [← List.append_assoc]
    apply snoc
    · apply ih
      intro other member
      exact accepted other (List.mem_append_left _ member)
    · exact accepted action (by simp) _

theorem congr (always : Always P trace) (agree : ∀ earlier action, P earlier action → (Q earlier action ↔ R earlier action)) :
    Always Q trace ↔ Always R trace := by
  constructor
  · intro first earlier action within
    exact (agree earlier action (always earlier action within)).mp (first earlier action within)
  · intro second earlier action within
    exact (agree earlier action (always earlier action within)).mpr (second earlier action within)

end Always
end NetPrograms
