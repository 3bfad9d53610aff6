import Mathlib.Data.List.Chain

/-! Messages that are cut into pieces. The pieces of a message count down, and the
last one has the number 0. -/

namespace NetPrograms

universe u v

structure Piece (β : Type u) where
  left : Nat
  data : List β

namespace Piece

/-- The complete messages in a list of pieces. -/
def assemble {β : Type u} : List (Piece β) → List (List β)
  | [] => []
  | piece :: rest =>
    if piece.left = 0 then piece.data :: assemble rest
    else
      match assemble rest with
      | [] => []
      | message :: messages => (piece.data ++ message) :: messages

/-- All bytes, whatever message they are of. -/
def bytes {β : Type u} (pieces : List (Piece β)) : List β := pieces.flatMap data

/-- No piece is missing between two that follow each other. -/
def Counting {β : Type u} (pieces : List (Piece β)) : Prop :=
  pieces.IsChain fun piece next => piece.left ≠ 0 → piece.left = next.left + 1

/-- The list ends with the end of a message. -/
def Whole {β : Type u} (pieces : List (Piece β)) : Prop := ∀ piece ∈ pieces.getLast?, piece.left = 0

variable {β : Type u} {pieces more : List (Piece β)}

@[simp] theorem bytes_append : bytes (pieces ++ more) = bytes pieces ++ bytes more := by
  simp [bytes]

theorem Whole.nil : Whole ([] : List (Piece β)) := by
  simp [Whole]

theorem Whole.append (whole : Whole more) (nonempty : more ≠ []) : Whole (pieces ++ more) := by
  intro piece member
  rw [List.getLast?_append_of_ne_nil _ nonempty] at member
  exact whole piece member

theorem Whole.tail {piece : Piece β} (whole : Whole (piece :: pieces)) : Whole pieces := by
  cases pieces with
  | nil => exact Whole.nil
  | cons next rest => simpa [Whole] using whole

/-- The end of a list is the end of a message in it. -/
theorem assemble_ne_nil {piece : Piece β} (whole : Whole (piece :: pieces)) : assemble (piece :: pieces) ≠ [] := by
  induction pieces generalizing piece with
  | nil => simp [assemble, whole piece rfl]
  | cons next rest ih =>
    obtain ⟨message, messages, found⟩ := List.exists_cons_of_ne_nil (ih whole.tail)
    rw [assemble, found]
    split <;> exact List.cons_ne_nil _ _

theorem assemble_append (whole : Whole pieces) : assemble (pieces ++ more) = assemble pieces ++ assemble more := by
  induction pieces with
  | nil => rfl
  | cons piece rest ih =>
    rw [List.cons_append, assemble, assemble, ih whole.tail]
    split
    next => rfl
    next inner =>
      cases rest with
      | nil => exact absurd (whole piece rfl) inner
      | cons next rest =>
        obtain ⟨message, messages, found⟩ := List.exists_cons_of_ne_nil (assemble_ne_nil whole.tail)
        rw [found]
        rfl

/-- More pieces only add messages at the end. -/
theorem assemble_isPrefix (pieces more : List (Piece β)) : assemble pieces <+: assemble (pieces ++ more) := by
  induction pieces with
  | nil => exact List.nil_prefix
  | cons piece rest ih =>
    rw [List.cons_append, assemble, assemble]
    split
    next => exact List.cons_prefix_cons.2 ⟨rfl, ih⟩
    next =>
      cases found : assemble rest with
      | nil => exact List.nil_prefix
      | cons message messages =>
        rw [found] at ih
        obtain ⟨later, grown⟩ := ih
        rw [← grown]
        exact ⟨later, rfl⟩

/-- A message that counts down to its end. -/
theorem assemble_message {piece : Piece β} (counting : Counting (piece :: pieces)) (there : piece.left ≤ pieces.length) :
    assemble ((piece :: pieces).take (piece.left + 1)) = [bytes ((piece :: pieces).take (piece.left + 1))] ∧
      Whole ((piece :: pieces).take (piece.left + 1)) := by
  induction pieces generalizing piece with
  | nil =>
    have last : piece.left = 0 := Nat.le_zero.1 there
    simp [assemble, bytes, Whole, last]
  | cons next rest ih =>
    by_cases last : piece.left = 0
    · simp [assemble, bytes, Whole, last]
    · have step : piece.left = next.left + 1 := (List.isChain_cons_cons.1 counting).1 last
      obtain ⟨one, whole⟩ := ih (List.isChain_cons_cons.1 counting).2 (by simpa [step] using there)
      rw [step, List.take_succ_cons]
      constructor
      · rw [assemble, if_neg last, one]
        rfl
      · simpa [Whole] using whole

/-- A message of which the last pieces are missing. -/
theorem assemble_short {piece : Piece β} (counting : Counting (piece :: pieces)) (short : pieces.length < piece.left) :
    assemble (piece :: pieces) = [] := by
  have inner : piece.left ≠ 0 := Nat.ne_of_gt (Nat.zero_lt_of_lt short)
  induction pieces generalizing piece with
  | nil => rw [assemble, if_neg inner, assemble]
  | cons next rest ih =>
    have step : piece.left = next.left + 1 := (List.isChain_cons_cons.1 counting).1 inner
    have shorter : rest.length < next.left := by
      rw [List.length_cons] at short
      omega
    rw [assemble, if_neg inner, ih (List.isChain_cons_cons.1 counting).2 shorter (Nat.ne_of_gt (Nat.zero_lt_of_lt shorter))]

/-- The messages are all that a whole list holds. -/
theorem assemble_flatten (whole : Whole pieces) : (assemble pieces).flatten = bytes pieces := by
  induction pieces with
  | nil => rfl
  | cons piece rest ih =>
    have later := ih whole.tail
    rw [assemble]
    split
    next => rw [List.flatten_cons, later, bytes, bytes, List.flatMap_cons]
    next inner =>
      cases rest with
      | nil => exact absurd (whole piece rfl) inner
      | cons next rest =>
        obtain ⟨message, messages, found⟩ := List.exists_cons_of_ne_nil (assemble_ne_nil whole.tail)
        rw [found] at later ⊢
        rw [bytes, List.flatMap_cons, ← bytes, ← later]
        simp

theorem Counting.append (first : Counting pieces) (second : Counting more) (whole : Whole pieces) :
    Counting (pieces ++ more) := by
  refine List.IsChain.append first second ?_
  intro piece last next _ inner
  exact absurd (whole piece last) inner

/-- The pieces are those that some data was cut into. -/
structure Cut (pieces : List (Piece β)) (data : List β) : Prop where
  counting : Counting pieces
  whole : Whole pieces
  bytes : Piece.bytes pieces = data

namespace Cut
variable {data other : List β}

theorem nil : Cut ([] : List (Piece β)) [] := ⟨List.IsChain.nil, Whole.nil, rfl⟩

theorem append (first : Cut pieces data) (second : Cut more other) : Cut (pieces ++ more) (data ++ other) := by
  refine ⟨first.counting.append second.counting first.whole, ?_, ?_⟩
  · cases more with
    | nil =>
      rw [List.append_nil]
      exact first.whole
    | cons piece more => exact second.whole.append (List.cons_ne_nil _ _)
  · rw [bytes_append, first.bytes, second.bytes]

/-- More bytes at the end of the last piece. -/
theorem extend {piece : Piece β} (cut : Cut (pieces ++ [piece]) data) (more : List β) :
    Cut (pieces ++ [⟨0, piece.data ++ more⟩]) (data ++ more) := by
  have last : piece.left = 0 := cut.whole piece (by simp)
  obtain ⟨before, -, joint⟩ := List.isChain_append.1 cut.counting
  refine ⟨List.isChain_append.2 ⟨before, List.IsChain.singleton _, ?_⟩, by simp [Whole], ?_⟩
  · intro first member next found inner
    obtain rfl := Option.some.inj found
    exact (joint first member piece rfl inner).trans (by rw [last])
  · rw [← cut.bytes]
    simp [Piece.bytes]

end Cut
end Piece
end NetPrograms
