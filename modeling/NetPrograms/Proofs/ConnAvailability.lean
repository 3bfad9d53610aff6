import NetPrograms.Proofs.ConnHolders

/-! The pool of connpool.h finds a free connection exactly when no failed slot stands
before a connected one: its scan stops at the first slot that is not used and hands
out the null pointer of a failed one. -/

namespace NetPrograms.Proofs.ConnAvailability
open Mysql ConnHolders

variable {C M : Type}

structure Available (connects : Connects M) (callers : Callers C M) : Prop where
  found : (∃ i conn, connects.handle i = some conn ∧ conn ∉ heldConns callers) → callers.pool.getConn.1 ≠ none
  exclusive : ∀ conn, callers.pool.getConn.1 = some conn → conn ∉ heldConns callers
  used : ∀ i conn, connects.handle i = some conn → (callers.pool.used i = true ↔ conn ∈ heldConns callers)

/-- Every failed slot stands behind all connected ones. -/
def FailedLast (connects : Connects M) : Prop :=
  ∀ i j, i < j → connects.handle i = none → connects.handle j = none

section scan
variable {connects : Connects M} {callers : Callers C M} (valid : Valid connects callers)
include valid

theorem unused_of_unheld {i : Fin connectionPoolSize} {conn : M} (connected : connects.handle i = some conn)
    (unheld : conn ∉ heldConns callers) : callers.pool.used i = false := by
  cases flag : callers.pool.used i with
  | false => rfl
  | true => exact absurd ((valid.used i conn connected).mp flag) unheld

theorem available (ordered : FailedLast connects) : Available connects callers := by
  refine ⟨?_, fun _ given => valid.unheld_result (getConn_got callers.pool) given, valid.used⟩
  rintro ⟨i, conn, connected, unheld⟩
  have unused := unused_of_unheld valid connected unheld
  unfold ConnPool.getConn
  split
  next first found =>
    obtain ⟨-, before⟩ := Fin.find?_eq_some_iff.mp found
    intro failed
    rw [valid.conns] at failed
    -- The first unused slot is not behind slot `i`, so slot `i` would have failed too.
    rcases Fin.lt_or_eq_of_le (Fin.not_lt.mp fun less => by simpa [unused] using before i less) with less | same
    · rw [ordered first i less failed] at connected
      cases connected
    · rw [same, connected] at failed
      cases failed
  next missing =>
    have absent := Fin.find?_eq_none_iff.mp missing i
    simp [unused] at absent

end scan

section gets
variable [DecidableEq C] [DecidableEq M]

/-- As many calls as there are slots before slot `k` use just these slots. -/
theorem gets_run (connects : Connects M) (caller : C) (k : Nat) (inside : k ≤ connectionPoolSize) :
    ∃ last, exec Callers.connStep (Callers.start (initConnPool connects)) (List.replicate k (.get caller)) = some last ∧
      (∀ i, last.pool.used i = decide (i.val < k)) ∧ last.pool.conns = connects.handle ∧
      ∀ conn ∈ heldConns last, ∃ i, i.val < k ∧ connects.handle i = some conn := by
  induction k with
  | zero =>
    refine ⟨_, rfl, ?_, rfl, ?_⟩
    · intro i
      simp [Callers.start, initConnPool]
    · intro conn held
      cases held
  | succ k ih =>
    obtain ⟨last, reached, used, conns, held⟩ := ih (Nat.le_of_succ_le inside)
    let next : Fin connectionPoolSize := ⟨k, inside⟩
    have before : ∀ j, j < next → last.pool.used j = true := by
      intro j less
      have below : j.val < k := less
      simp [used, below]
    have got := getConn_first (by simp [used, next]) before
    refine ⟨⟨last.pool.setUsed next true, (caller, last.pool.conns next) :: last.held⟩, ?_, ?_, conns, ?_⟩
    · rw [List.replicate_succ', exec_snoc, reached, Option.bind_some, Callers.connStep, Callers.step, got]
    · intro i
      by_cases same : i = next
      · subst same
        simp [ConnPool.setUsed, next]
      · have other : i.val ≠ k := fun equal => same (Fin.ext equal)
        have flags : (last.pool.setUsed next true).used i = last.pool.used i := Function.update_of_ne same ..
        rw [flags, used, decide_eq_decide]
        omega
    · intro conn member
      obtain ⟨call, called, given⟩ := List.mem_filterMap.mp member
      rcases List.mem_cons.mp called with here | earlier
      · rw [here] at given
        exact ⟨next, Nat.lt_succ_self k, conns ▸ given⟩
      · obtain ⟨i, below, connected⟩ := held conn (List.mem_filterMap.mpr ⟨call, earlier, given⟩)
        exact ⟨i, Nat.lt_succ_of_lt below, connected⟩

/-- In every state that the pool reaches with this pattern of failed connects. -/
def AlwaysAvailable (C : Type) [DecidableEq C] (connects : Connects M) : Prop :=
  ∀ (calls : List (Call C M)) last,
    exec Callers.connStep (Callers.start (initConnPool connects)) calls = some last → Available connects last

theorem always_available_iff (connects : Connects M) (caller : C) :
    AlwaysAvailable C connects ↔ FailedLast connects := by
  constructor
  · intro always i j less failed
    obtain ⟨last, reached, used, conns, held⟩ := gets_run connects caller i.val i.isLt.le
    cases connected : connects.handle j with
    | none => rfl
    | some conn =>
      -- After the slots before the failed one are taken, slot `j` is free and not found.
      have unheld : conn ∉ heldConns last := by
        intro member
        obtain ⟨l, below, same⟩ := held conn member
        have equal := connects.distinct l j conn same connected
        exact absurd (equal ▸ below) (Nat.not_lt.mpr less.le)
      have refused := (always _ last reached).found ⟨j, conn, connected, unheld⟩
      have unused : last.pool.used i = false := by simp [used]
      have before : ∀ j, j < i → last.pool.used j = true := fun j less => by simpa [used] using less
      rw [getConn_first unused before, conns] at refused
      exact absurd failed refused
  · intro ordered calls last reached
    apply available _ ordered
    apply (Run.of_exec reached).invariant (Valid connects) (start_valid connects)
    intro before call after valid step
    exact valid.step getConn_got step

end gets

def secondOnly : Connects Nat where
  handle i := if i = 1 then some 1 else none
  distinct := by
    intro i j conn first second
    simp at first second
    rw [first.1, second.1]

theorem failed_slot_found : ¬ ∀ (C M : Type) [DecidableEq C] [DecidableEq M] (connects : Connects M),
    AlwaysAvailable C connects := by
  intro always
  have available := always Nat Nat secondOnly [] _ rfl
  exact available.found ⟨1, 1, rfl, by decide⟩ rfl

end NetPrograms.Proofs.ConnAvailability
