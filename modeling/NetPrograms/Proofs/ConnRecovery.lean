import NetPrograms.Proofs.ConnHolders

/-! The pool of mysql_conn_pool.c passes over failed slots, so that its flags say
who holds what and a pool with nothing held is as it was made. -/

namespace NetPrograms.Proofs.ConnRecovery
open Mysql ConnHolders

variable {C M : Type}

structure Recovers (connects : Connects M) (callers : Callers C M) : Prop where
  exclusive : ∀ thread other conn, (thread, some conn) ∈ callers.held → (other, some conn) ∈ callers.held → thread = other
  once : (heldConns callers).Nodup
  used : ∀ i, callers.pool.used i = true ↔ ∃ conn, connects.handle i = some conn ∧ conn ∈ heldConns callers
  exhausted : callers.pool.mysqlPoolGet.1 = none ↔ ∀ i conn, connects.handle i = some conn → conn ∈ heldConns callers
  restored : heldConns callers = [] → callers.pool = mysqlPoolInit connects

structure Intact (connects : Connects M) (callers : Callers C M) : Prop where
  valid : Valid connects callers
  dead : ∀ i, connects.handle i = none → callers.pool.used i = false

section recovers
variable {connects : Connects M} {callers : Callers C M} (intact : Intact connects callers)
include intact

theorem exhausted : callers.pool.mysqlPoolGet.1 = none ↔ ∀ i conn, connects.handle i = some conn → conn ∈ heldConns callers := by
  have conns := intact.valid.conns
  unfold ConnPool.mysqlPoolGet
  split
  next i found =>
    obtain ⟨free, -⟩ := Fin.find?_eq_some_iff.mp found
    rw [conns, Bool.and_eq_true, Bool.not_eq_true', Option.isSome_iff_exists] at free
    obtain ⟨unused, conn, connected⟩ := free
    rw [conns, connected]
    constructor
    · intro impossible
      cases impossible
    · intro all
      exact absurd (all i conn connected) (intact.valid.unheld connected unused)
  next missing =>
    refine ⟨fun _ i conn connected => ?_, fun _ => rfl⟩
    have busy := Fin.find?_eq_none_iff.mp missing i
    apply (intact.valid.used i conn connected).mp
    simpa [conns, connected] using busy

theorem used (i : Fin connectionPoolSize) :
    callers.pool.used i = true ↔ ∃ conn, connects.handle i = some conn ∧ conn ∈ heldConns callers := by
  cases connected : connects.handle i with
  | none => simp [intact.dead i connected]
  | some conn => simp [intact.valid.used i conn connected]

theorem restored (released : heldConns callers = []) : callers.pool = mysqlPoolInit connects := by
  have unused : callers.pool.used = fun _ => false := by
    funext i
    have idle := (used intact i).not.mpr (by simp [released])
    simpa using idle
  rw [mysqlPoolInit, initConnPool, ← intact.valid.conns, ← unused]

theorem recovers : Recovers connects callers :=
  ⟨fun _ _ _ => one_holder intact.valid.once, intact.valid.once, used intact, exhausted intact, restored intact⟩

theorem get_dead {i : Fin connectionPoolSize} (failed : connects.handle i = none) :
    callers.pool.mysqlPoolGet.2.used i = false := by
  unfold ConnPool.mysqlPoolGet
  split
  next j found =>
    obtain ⟨free, -⟩ := Fin.find?_eq_some_iff.mp found
    have apart : i ≠ j := by
      rintro rfl
      simp [intact.valid.conns, failed] at free
    exact (Function.update_of_ne apart ..).trans (intact.dead i failed)
  next => exact intact.dead i failed

theorem release_dead [DecidableEq M] {i : Fin connectionPoolSize} (failed : connects.handle i = none)
    (conn : Option M) : (callers.pool.releaseConn conn).used i = false := by
  unfold ConnPool.releaseConn
  split
  next j found =>
    by_cases same : i = j
    · subst same
      exact Function.update_self ..
    · exact (Function.update_of_ne same ..).trans (intact.dead i failed)
  next => exact intact.dead i failed

variable [DecidableEq C] [DecidableEq M]

theorem step_intact {call : Call C M} {after : Callers C M} (taken : callers.mysqlStep call = some after) :
    Intact connects after := by
  refine ⟨intact.valid.step mysqlPoolGet_got taken, ?_⟩
  intro i failed
  cases call with
  | get caller =>
    cases taken
    exact get_dead intact failed
  | release caller conn =>
    simp only [Callers.mysqlStep, Callers.step] at taken
    split at taken
    next =>
      cases taken
      exact release_dead intact failed conn
    next => cases taken

end recovers

theorem pool_recovers [DecidableEq C] [DecidableEq M] (connects : Connects M) (calls : List (Call C M)) (last : Callers C M)
    (reached : exec Callers.mysqlStep (Callers.start (mysqlPoolInit connects)) calls = some last) :
    Recovers connects last := by
  apply recovers
  apply (Run.of_exec reached).invariant (Intact connects)
  · exact ⟨start_valid connects, fun _ _ => rfl⟩
  · intro before call after intact step
    exact step_intact intact step

/-- Every second connect failed. -/
def evenSlots : Connects Nat where
  handle i := if i.val % 2 = 0 then some i.val else none
  distinct := by
    intro i j conn first second
    simp at first second
    exact Fin.ext (first.2.trans second.2.symm)

/-- Two threads hold two connections and the first comes back. -/
theorem pool_recovers_release : ∃ last : Callers Nat Nat,
    exec Callers.mysqlStep (Callers.start (mysqlPoolInit evenSlots))
        [.get 7, .get 8, .release 7 (some 0)] = some last ∧
      last.held = [(8, some 2)] ∧ Recovers evenSlots last :=
  ⟨_, rfl, rfl, pool_recovers evenSlots [.get 7, .get 8, .release 7 (some 0)] _ rfl⟩

end NetPrograms.Proofs.ConnRecovery
