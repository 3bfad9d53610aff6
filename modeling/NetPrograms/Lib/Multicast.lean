import Mathlib.Algebra.Order.Ring.Int
import Mathlib.Data.List.Nodup

/-! Messages that go to each of their recipients in one piece. Two recipients
then see the messages that both of them get in the same order. -/

namespace NetPrograms.Multicast

universe u v
variable {ι : Type u} {β : Type v} (recipients : β → List ι)

def deliveries (messages : List β) : List (ι × β) :=
  messages.flatMap fun message => (recipients message).map (·, message)

@[simp] theorem deliveries_append (first second : List β) :
    deliveries recipients (first ++ second) = deliveries recipients first ++ deliveries recipients second :=
  List.flatMap_append

variable [DecidableEq ι]

def inbox (id : ι) (log : List (ι × β)) : List β :=
  log.filterMap fun delivery => if delivery.1 = id then some delivery.2 else none

@[simp] theorem inbox_append (id : ι) (first second : List (ι × β)) :
    inbox id (first ++ second) = inbox id first ++ inbox id second :=
  List.filterMap_append

theorem inbox_single {members : List ι} (distinct : members.Nodup) (id : ι) (message : β) :
    inbox id (members.map (·, message)) = if id ∈ members then [message] else [] := by
  induction members with
  | nil => rfl
  | cons member members ih =>
    obtain ⟨fresh, distinct⟩ := List.nodup_cons.mp distinct
    have rest := ih distinct
    unfold inbox at rest ⊢
    by_cases same : member = id
    · subst same
      rw [if_neg fresh] at rest
      simp [rest]
    · simp [same, Ne.symm same, rest]

theorem inbox_deliveries (distinct : ∀ message, (recipients message).Nodup) (id : ι) (messages : List β) :
    inbox id (deliveries recipients messages) = messages.filter (id ∈ recipients ·) := by
  induction messages with
  | nil => rfl
  | cons message messages ih =>
    have one := inbox_single (distinct message) id message
    unfold inbox at one ih ⊢
    rw [deliveries, List.flatMap_cons, List.filterMap_append, one, List.filter_cons]
    split
    next member => simpa [member, deliveries] using ih
    next other => simpa [other, deliveries] using ih

theorem inboxes_agree (distinct : ∀ message, (recipients message).Nodup) (first second : ι) (messages : List β) :
    (inbox first (deliveries recipients messages)).filter (second ∈ recipients ·) =
      (inbox second (deliveries recipients messages)).filter (first ∈ recipients ·) := by
  rw [inbox_deliveries recipients distinct, inbox_deliveries recipients distinct, List.filter_filter,
    List.filter_filter]
  congr 1
  funext message
  exact Bool.and_comm _ _

end NetPrograms.Multicast
