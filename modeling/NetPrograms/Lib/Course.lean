import Mathlib.Algebra.Order.Ring.Int

/-! What a function of C has come to after a number of turns of its loops and
recursive calls. Once it is no longer running, more turns change nothing. -/

namespace NetPrograms

universe u v

inductive Course (α : Type u) where
  | running
  | outside
  | overflow
  | returned (value : α)
deriving DecidableEq

namespace Course
variable {α : Type u} {β : Type v}

def bind (first : Course α) (next : α → Course β) : Course β :=
  match first with
  | running => running
  | outside => outside
  | overflow => overflow
  | returned value => next value

instance : Monad Course where
  pure := returned
  bind := bind

/-- A read outside the block ends the run. -/
def ofRead : Option α → Course α
  | none => outside
  | some value => returned value

/-- A write outside the array ends the run. -/
def ofWrite : Option α → Course α
  | none => overflow
  | some value => returned value

/-- What is returned, whatever else may have happened. -/
def result : Course α → Option α
  | returned value => some value
  | running | outside | overflow => none

@[simp] theorem returned_bind (value : α) (next : α → Course β) : (returned value).bind next = next value := rfl
@[simp] theorem running_bind (next : α → Course β) : (running : Course α).bind next = running := rfl
@[simp] theorem overflow_bind (next : α → Course β) : (overflow : Course α).bind next = overflow := rfl
@[simp] theorem ofRead_none : ofRead (none : Option α) = outside := rfl
@[simp] theorem ofRead_some (value : α) : ofRead (some value) = returned value := rfl

@[simp] theorem bind_eq {γ : Type u} (first : Course α) (next : α → Course γ) : first >>= next = first.bind next := rfl
@[simp] theorem pure_eq (value : α) : (pure value : Course α) = returned value := rfl

theorem ofRead_eq_returned {read : Option α} {value : α} : ofRead read = returned value ↔ read = some value := by
  cases read <;> simp [ofRead]

theorem bind_eq_returned {first : Course α} {next : α → Course β} {last : β} :
    first.bind next = returned last ↔ ∃ value, first = returned value ∧ next value = returned last := by
  cases first <;> simp [bind]

@[simp] theorem ofWrite_none : ofWrite (none : Option α) = overflow := rfl
@[simp] theorem ofWrite_some (value : α) : ofWrite (some value) = returned value := rfl

@[simp] theorem result_returned (value : α) : (returned value).result = some value := rfl
@[simp] theorem result_running : (running : Course α).result = none := rfl
@[simp] theorem result_ofRead (read : Option α) : (ofRead read).result = read := by cases read <;> rfl
@[simp] theorem result_ofWrite (write : Option α) : (ofWrite write).result = write := by cases write <;> rfl

@[simp] theorem result_bind (first : Course α) (next : α → Course β) :
    (first.bind next).result = first.result.bind fun value => (next value).result := by
  cases first <;> rfl

theorem result_eq_some {course : Course α} {value : α} : course.result = some value ↔ course = returned value := by
  cases course <;> simp [result]

/-- A call that came to something comes to it again where the steps behind it do. -/
theorem bind_ended {first : Course α} {next again : α → Course β}
    (same : ∀ value, next value ≠ running → again value = next value) (ended : first.bind next ≠ running) :
    first.bind again = first.bind next := by
  cases first with
  | running => rfl
  | outside => rfl
  | overflow => rfl
  | returned value => exact same value ended

/-- A course that is neither running nor a fault. -/
theorem returned_of_ne {course : Course α} (ended : course ≠ running) (inside : course ≠ outside)
    (fits : course ≠ overflow) : ∃ value, course = returned value := by
  cases course with
  | running => exact absurd rfl ended
  | outside => exact absurd rfl inside
  | overflow => exact absurd rfl fits
  | returned value => exact ⟨value, rfl⟩

def Settled (run : Nat → Course α) : Prop := ∀ turns, run turns ≠ running → run (turns + 1) = run turns

/-- The run ends, be it by a fault. -/
def Terminates (run : Nat → Course α) : Prop := ∃ turns, run turns ≠ running

/-- The run reads no cell outside its blocks and overflows none of its arrays. -/
def Safe (run : Nat → Course α) : Prop := ∀ turns, run turns ≠ outside ∧ run turns ≠ overflow

/-- The run returns the value from some turn on. -/
def Returns (run : Nat → Course α) (value : α) : Prop := ∃ turns, ∀ more, turns ≤ more → run more = returned value

theorem Returns.const (value : α) : Returns (fun _ => returned value) value := ⟨0, fun _ _ => rfl⟩

theorem Returns.bind {run : Nat → Course α} {next : α → Nat → Course β} {value : α} {last : β} (first : Returns run value)
    (rest : Returns (next value) last) : Returns (fun turns => (run turns).bind fun value => next value turns) last := by
  obtain ⟨turns, done⟩ := first
  obtain ⟨others, after⟩ := rest
  refine ⟨max turns others, ?_⟩
  intro more later
  simp only [done more (by omega), returned_bind, after more (by omega)]

namespace Settled
variable {run : Nat → Course α}

theorem const (course : Course α) : Settled fun _ => course := fun _ _ => rfl

theorem le (settled : Settled run) {turns more : Nat} (ended : run turns ≠ running) (later : turns ≤ more) :
    run more = run turns := by
  induction more, later using Nat.le_induction with
  | base => rfl
  | succ more _ ih => rw [settled more (by rwa [ih]), ih]

theorem bind {next : α → Nat → Course β} (settled : Settled run) (further : ∀ value, Settled (next value)) :
    Settled fun turns => (run turns).bind fun value => next value turns := by
  intro turns ended
  have first : run turns ≠ running := by
    intro same
    exact ended (by simp [same])
  simp only [settled turns first]
  exact bind_ended (fun value => further value turns) ended

theorem unique (settled : Settled run) {turns other : Nat} (ended : run turns ≠ running) (again : run other ≠ running) :
    run turns = run other := by
  rcases Nat.le_total turns other with before | before
  · exact (settled.le ended before).symm
  · exact settled.le again before

theorem returns (settled : Settled run) {turns : Nat} {value : α} (done : run turns = returned value) : Returns run value := by
  refine ⟨turns, ?_⟩
  intro more later
  rw [settled.le (by rw [done]; nofun) later, done]

theorem safe_of_returned (settled : Settled run) {turns : Nat} {value : α} (done : run turns = returned value) : Safe run := by
  have ended : run turns ≠ running := by rw [done]; nofun
  intro other
  by_cases again : run other = running
  · rw [again]
    exact ⟨nofun, nofun⟩
  · rw [← settled.unique ended again, done]
    exact ⟨nofun, nofun⟩

end Settled
end Course
end NetPrograms
