import Mathlib.Algebra.Order.Ring.Int
import Mathlib.Data.List.Basic

/-! A first-in first-out channel together with everything that ever entered and
left it. The channel cannot be built without its conservation law, so a program
that implements it loses, repeats and reorders nothing. -/

namespace NetPrograms

universe u

structure Fifo (α : Type u) where
  entered : List α
  taken : List α
  pending : List α
  conserved : taken ++ pending = entered

namespace Fifo
variable {α : Type u}

def empty : Fifo α := ⟨[], [], [], rfl⟩

def put (queue : Fifo α) (items : List α) : Fifo α where
  entered := queue.entered ++ items
  taken := queue.taken
  pending := queue.pending ++ items
  conserved := by rw [← List.append_assoc, queue.conserved]

def take (queue : Fifo α) (count : Nat) : Fifo α where
  entered := queue.entered
  taken := queue.taken ++ queue.pending.take count
  pending := queue.pending.drop count
  conserved := by rw [List.append_assoc, List.take_append_drop, queue.conserved]

@[simp] theorem put_entered (queue : Fifo α) (items : List α) :
    (queue.put items).entered = queue.entered ++ items := rfl

@[simp] theorem put_taken (queue : Fifo α) (items : List α) :
    (queue.put items).taken = queue.taken := rfl

@[simp] theorem put_pending (queue : Fifo α) (items : List α) :
    (queue.put items).pending = queue.pending ++ items := rfl

@[simp] theorem take_entered (queue : Fifo α) (count : Nat) :
    (queue.take count).entered = queue.entered := rfl

@[simp] theorem take_taken (queue : Fifo α) (count : Nat) :
    (queue.take count).taken = queue.taken ++ queue.pending.take count := rfl

@[simp] theorem take_pending (queue : Fifo α) (count : Nat) :
    (queue.take count).pending = queue.pending.drop count := rfl

end Fifo
end NetPrograms
