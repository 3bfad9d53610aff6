import NetPrograms.Locks.Cas
import Mathlib.Algebra.BigOperators.Group.List.Basic

/-! What the calls of `atomic_add` add up to. The retry loop loses no update over a
compare and swap that stores the new value; the one of CAS.c stores the expected value. -/

namespace NetPrograms.Proofs.CasSums
open Locks

variable {Thread : Type} [DecidableEq Thread] {counter after : Counter Thread} {thread : Thread}

def added (counter : Counter Thread) : BitVec 32 := (counter.succeeded.map Prod.snd).sum

def completed (counter : Counter Thread) (thread : Thread) : List (BitVec 32) :=
  (counter.succeeded.reverse.filter (·.1 = thread)).map Prod.snd

/-- No update is lost: the value is the initial one with all completed additions, and
each call of a thread is completed once. -/
structure Lossless (value : BitVec 32) (calls : Thread → List (BitVec 32)) (counter : Counter Thread) : Prop where
  sum : counter.value = value + added counter
  once : ∀ thread, completed counter thread ++ counter.calls thread = calls thread

variable {swap : BitVec 32 → BitVec 32 → BitVec 32 → BitVec 32 × Bool}

inductive Law (swap : BitVec 32 → BitVec 32 → BitVec 32 → BitVec 32 × Bool) (counter : Counter Thread) (thread : Thread) :
    Counter Thread → Prop where
  | read {add rest} (next : counter.calls thread = add :: rest) : Law swap counter thread
      { counter with oldValue := Function.update counter.oldValue thread (some counter.value) }
  | success {add rest oldValue} (next : counter.calls thread = add :: rest)
      (read : counter.oldValue thread = some oldValue) (swapped : (swap counter.value oldValue (oldValue + add)).2) :
      Law swap counter thread
        { value := (swap counter.value oldValue (oldValue + add)).1
          calls := Function.update counter.calls thread rest
          oldValue := Function.update counter.oldValue thread none
          succeeded := (thread, add) :: counter.succeeded }
  | retry {add rest oldValue} (next : counter.calls thread = add :: rest)
      (read : counter.oldValue thread = some oldValue)
      (failed : (swap counter.value oldValue (oldValue + add)).2 = false) :
      Law swap counter thread
        { counter with
          value := (swap counter.value oldValue (oldValue + add)).1
          oldValue := Function.update counter.oldValue thread none }

theorem step_law (taken : counter.atomicAdd swap thread = some after) : Law swap counter thread after := by
  unfold Counter.atomicAdd at taken
  split at taken
  next => cases taken
  next add rest next =>
    split at taken
    next =>
      cases taken
      exact .read next
    next oldValue read =>
      dsimp only at taken
      split at taken
      next swapped =>
        cases taken
        exact .success next read swapped
      next failed =>
        cases taken
        exact .retry next read (Bool.eq_false_iff.mpr failed)

theorem once_step {calls : Thread → List (BitVec 32)}
    (once : ∀ thread, completed counter thread ++ counter.calls thread = calls thread)
    (law : Law swap counter thread after) (other : Thread) : completed after other ++ after.calls other = calls other := by
  cases law with
  | read next => exact once other
  | @success add rest oldValue next read swapped =>
    rw [← once other]
    by_cases same : other = thread
    · subst same
      simp [completed, next]
    · have apart : thread ≠ other := Ne.symm same
      simp [completed, same, apart]
  | retry next read failed => exact once other

def Swaps (swap : BitVec 32 → BitVec 32 → BitVec 32 → BitVec 32 × Bool) : Prop :=
  ∀ addr expectedVal newVal, swap addr expectedVal newVal =
    if addr = expectedVal then (newVal, true) else (addr, false)

theorem swaps_step (swaps : Swaps swap) {value : BitVec 32} (sum : counter.value = value + added counter)
    (law : Law swap counter thread after) : after.value = value + added after := by
  cases law with
  | read next => exact sum
  | @success add rest oldValue next read swapped =>
    have unchanged : counter.value = oldValue := by
      by_contra changed
      simp [swaps _ _ _, changed] at swapped
    have stored : (swap counter.value oldValue (oldValue + add)).1 = counter.value + add := by
      simp [swaps _ _ _, unchanged]
    have more : added { counter with succeeded := (thread, add) :: counter.succeeded } = add + added counter :=
      List.sum_cons
    rw [stored, sum, BitVec.add_assoc, BitVec.add_comm (added counter)]
    exact congrArg (value + ·) more.symm
  | @retry add rest oldValue next read failed =>
    have changed : counter.value ≠ oldValue := by
      intro unchanged
      simp [swaps _ _ _, unchanged] at failed
    have kept : (swap counter.value oldValue (oldValue + add)).1 = counter.value := by
      simp [swaps _ _ _, changed]
    exact kept.trans sum

theorem swapping_lossless (swaps : Swaps swap) (value : BitVec 32) (calls : Thread → List (BitVec 32))
    (schedule : List Thread) (last : Counter Thread)
    (reached : exec (Counter.atomicAdd swap) (Counter.start value calls) schedule = some last) :
    Lossless value calls last := by
  apply (Run.of_exec reached).invariant (Lossless value calls)
  · exact ⟨by simp [Counter.start, added], fun _ => rfl⟩
  · intro before thread after ⟨sum, once⟩ taken
    have law := step_law taken
    exact ⟨swaps_step swaps sum law, once_step once law⟩

/-- The instruction stores `%2`, which is the expected value, so the memory keeps its value. -/
theorem CAS_value (addr expectedVal newVal : BitVec 32) : (cas addr expectedVal newVal).1 = addr := by
  simp only [cas, cmpxchgl]
  split
  next same => exact same
  next => rfl

theorem CAS_success (addr newVal : BitVec 32) : (cas addr addr newVal).2 = true := by simp [cas, cmpxchgl]

theorem value_step (law : Law cas counter thread after) : after.value = counter.value := by
  cases law with
  | read next => rfl
  | success next read swapped => exact CAS_value ..
  | retry next read failed => exact CAS_value ..

theorem reached_value {value : BitVec 32} {calls : Thread → List (BitVec 32)} {schedule : List Thread}
    (reached : exec (Counter.atomicAdd cas) (Counter.start value calls) schedule = some after) : after.value = value := by
  apply (Run.of_exec reached).invariant (fun counter => counter.value = value) rfl
  intro before thread after same taken
  exact (value_step (step_law taken)).trans same

theorem alone {add : BitVec 32} {rest : List (BitVec 32)} (next : counter.calls thread = add :: rest)
    (between : counter.oldValue thread = none) :
    ∃ after, exec (Counter.atomicAdd cas) counter [thread, thread] = some after ∧ after.calls thread = rest ∧
      after.oldValue thread = none ∧ added after = add + added counter := by
  refine ⟨{ value := (cas counter.value counter.value (counter.value + add)).1
            calls := Function.update counter.calls thread rest
            oldValue := Function.update counter.oldValue thread none
            succeeded := (thread, add) :: counter.succeeded }, ?_, by simp, by simp, List.sum_cons⟩
  simp [exec, Counter.atomicAdd, next, between, CAS_success]

theorem silent_calls (counter : Counter Thread) (pending : List (BitVec 32)) (next : counter.calls thread = pending)
    (between : counter.oldValue thread = none)
    (silent : ∀ schedule last, exec (Counter.atomicAdd cas) counter schedule = some last → added last = 0) :
    ∀ add ∈ pending, add = 0 := by
  induction pending generalizing counter with
  | nil => simp
  | cons add rest ih =>
    obtain ⟨after, reached, left, between', more⟩ := alone next between
    have quiet : added counter = 0 := silent [] counter rfl
    have zero : add = 0 := by
      have both := silent _ after reached
      rwa [more, quiet, add_zero] at both
    refine List.forall_mem_cons.mpr ⟨zero, ih after left between' ?_⟩
    intro schedule last continued
    apply silent ([thread, thread] ++ schedule)
    rw [exec_append, reached]
    exact continued

/-- With the compare and swap of CAS.c every run is lossless exactly when there is
nothing to add. -/
theorem lossless_iff_zero_addends (value : BitVec 32) (calls : Thread → List (BitVec 32)) :
    (∀ schedule last, exec (Counter.atomicAdd cas) (Counter.start value calls) schedule = some last →
        Lossless value calls last) ↔
      ∀ thread, ∀ add ∈ calls thread, add = 0 := by
  constructor
  · intro lossless thread
    apply silent_calls (Counter.start value calls) (calls thread) rfl rfl
    intro schedule last reached
    have sum := (lossless schedule last reached).sum
    rw [reached_value reached] at sum
    exact left_eq_add.mp sum
  · intro zero schedule last reached
    have once : ∀ thread, completed last thread ++ last.calls thread = calls thread := by
      apply (Run.of_exec reached).invariant
        (fun counter => ∀ thread, completed counter thread ++ counter.calls thread = calls thread) (fun _ => rfl)
      intro before thread after once taken
      exact once_step once (step_law taken)
    have nothing : added last = 0 := by
      apply List.sum_eq_zero
      intro add inside
      obtain ⟨⟨thread, add⟩, member, rfl⟩ := List.mem_map.mp inside
      have own : add ∈ completed last thread := by
        simp only [completed, List.mem_map, List.mem_filter, List.mem_reverse]
        exact ⟨(thread, add), ⟨member, by simp⟩, rfl⟩
      exact zero thread add (once thread ▸ List.mem_append_left _ own)
    refine ⟨?_, once⟩
    rw [reached_value reached, nothing, add_zero]

/-- One call of `thread_callback` that runs alone adds nothing. -/
theorem increment_lost : ¬ ∀ (Thread : Type) [DecidableEq Thread] (value : BitVec 32) (calls : Thread → List (BitVec 32))
    (schedule : List Thread) (last : Counter Thread),
    exec (Counter.atomicAdd cas) (Counter.start value calls) schedule = some last → Lossless value calls last := by
  intro always
  have lossless := always Unit 0 (fun _ => threadCallback 1) [(), ()] _ rfl
  have wrong : (0 : BitVec 32) = 0 + 1 := lossless.sum
  exact absurd wrong (by decide)

end NetPrograms.Proofs.CasSums
