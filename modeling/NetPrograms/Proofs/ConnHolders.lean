import NetPrograms.Mysql.ConnPool

/-! Who holds which connection: the flags of the connected slots agree with the
holders, for either way of finding a slot. -/

namespace NetPrograms.Proofs.ConnHolders
open Mysql

variable {C M : Type}

/-- What either pool does when it hands out a slot. -/
inductive Got (pool : ConnPool M) : Option M × ConnPool M → Prop where
  | full : Got pool (none, pool)
  | dead {i} (unconnected : pool.conns i = none) : Got pool (none, pool.setUsed i true)
  | live {i conn} (connected : pool.conns i = some conn) (unused : pool.used i = false) :
      Got pool (some conn, pool.setUsed i true)

theorem Got.slot {pool : ConnPool M} {i : Fin connectionPoolSize} (unused : pool.used i = false) :
    Got pool (pool.conns i, pool.setUsed i true) := by
  cases connected : pool.conns i with
  | none => exact .dead connected
  | some conn => exact .live connected unused

theorem getConn_got (pool : ConnPool M) : Got pool pool.getConn := by
  unfold ConnPool.getConn
  split
  next i found =>
    have unused := (Fin.find?_eq_some_iff.mp found).1
    exact .slot (by simpa using unused)
  next => exact .full

/-- The scan stops at the first slot that is not used. -/
theorem getConn_first {pool : ConnPool M} {k : Fin connectionPoolSize} (unused : pool.used k = false)
    (before : ∀ j, j < k → pool.used j = true) : pool.getConn = (pool.conns k, pool.setUsed k true) := by
  have first : Fin.find? (fun i => !pool.used i) = some k := by
    apply Fin.find?_eq_some_iff.mpr
    refine ⟨by simp [unused], ?_⟩
    intro j less
    simp [before j less]
  unfold ConnPool.getConn
  rw [first]

theorem mysqlPoolGet_got (pool : MysqlPool M) : Got pool pool.mysqlPoolGet := by
  unfold ConnPool.mysqlPoolGet
  split
  next i found =>
    have unused := (Fin.find?_eq_some_iff.mp found).1
    exact .slot (by simp_all)
  next => exact .full

/-- The connections that are held, null pointers left out. -/
def heldConns (callers : Callers C M) : List M := callers.held.filterMap Prod.snd

theorem one_holder {held : List (C × Option M)} (once : (held.filterMap Prod.snd).Nodup) {thread other : C}
    {conn : M} (first : (thread, some conn) ∈ held) (second : (other, some conn) ∈ held) : thread = other := by
  induction held with
  | nil => cases first
  | cons call held ih =>
    have outside : call.2 = some conn → ∀ {caller}, (caller, some conn) ∈ held → False := by
      intro here caller member
      rw [List.filterMap_cons, here] at once
      exact (List.nodup_cons.mp once).1 (List.mem_filterMap.mpr ⟨_, member, rfl⟩)
    have rest : (held.filterMap Prod.snd).Nodup := once.sublist ((List.sublist_cons_self call held).filterMap _)
    rcases List.mem_cons.mp first with here | member
    · cases List.mem_cons.mp second with
      | inl same => exact congrArg Prod.fst (here.trans same.symm)
      | inr member => exact (outside (here ▸ rfl) member).elim
    · cases List.mem_cons.mp second with
      | inl here => exact (outside (here ▸ rfl) member).elim
      | inr again => exact ih rest member again

structure Valid (connects : Connects M) (callers : Callers C M) : Prop where
  conns : callers.pool.conns = connects.handle
  used : ∀ i conn, connects.handle i = some conn → (callers.pool.used i = true ↔ conn ∈ heldConns callers)
  once : (heldConns callers).Nodup
  known : ∀ conn ∈ heldConns callers, ∃ i, connects.handle i = some conn

theorem start_valid (connects : Connects M) : Valid connects (Callers.start (initConnPool connects) : Callers C M) := by
  refine ⟨rfl, ?_, List.nodup_nil, ?_⟩
  · intro i conn connected
    simp [Callers.start, initConnPool, heldConns]
  · intro conn held
    cases held

/-- The slot of a connection is found by its pointer. -/
theorem release_slot [DecidableEq M] {pool : ConnPool M} {i : Fin connectionPoolSize} {conn : M}
    (connected : pool.conns i = some conn)
    (distinct : ∀ i j conn, pool.conns i = some conn → pool.conns j = some conn → i = j) :
    pool.releaseConn (some conn) = pool.setUsed i false := by
  unfold ConnPool.releaseConn
  split
  next j found =>
    have here := (Fin.find?_eq_some_iff.mp found).1
    rw [distinct i j conn connected (by simpa using here)]
  next missing =>
    have absent := Fin.find?_eq_none_iff.mp missing i
    simp [connected] at absent

section used
variable {connects : Connects M} {callers : Callers C M} (valid : Valid connects callers)
include valid

theorem Valid.unheld {i : Fin connectionPoolSize} {conn : M} (connected : connects.handle i = some conn)
    (unused : callers.pool.used i = false) : conn ∉ heldConns callers := by
  intro held
  rw [(valid.used i conn connected).mpr held] at unused
  cases unused

theorem Valid.unheld_result {result : Option M × ConnPool M} (got : Got callers.pool result) {conn : M}
    (given : result.1 = some conn) : conn ∉ heldConns callers := by
  cases got with
  | full | dead => cases given
  | live connected unused =>
    cases given
    rw [valid.conns] at connected
    exact valid.unheld connected unused

theorem Valid.same_conns {held : List (C × Option M)} (same : (held.filterMap Prod.snd).Perm (heldConns callers)) :
    Valid connects ⟨callers.pool, held⟩ := by
  refine ⟨valid.conns, ?_, same.nodup_iff.mpr valid.once, ?_⟩
  · intro i conn connected
    rw [valid.used i conn connected]
    exact same.mem_iff.symm
  · intro conn member
    exact valid.known conn (same.mem_iff.mp member)

/-- The flag of a slot without a connection says nothing. -/
theorem Valid.dead_slot {i : Fin connectionPoolSize} (unconnected : connects.handle i = none) (flag : Bool) :
    Valid connects ⟨callers.pool.setUsed i flag, callers.held⟩ := by
  refine ⟨valid.conns, ?_, valid.once, valid.known⟩
  intro j conn connected
  have apart : j ≠ i := by
    rintro rfl
    rw [unconnected] at connected
    cases connected
  have flags : (callers.pool.setUsed i flag).used j = callers.pool.used j := Function.update_of_ne apart ..
  rw [flags]
  exact valid.used j conn connected

theorem Valid.get (caller : C) {result : Option M × ConnPool M} (got : Got callers.pool result) :
    Valid connects ⟨result.2, (caller, result.1) :: callers.held⟩ := by
  cases got with
  | full => exact ⟨valid.conns, valid.used, valid.once, valid.known⟩
  | dead unconnected =>
    rw [valid.conns] at unconnected
    exact (valid.dead_slot unconnected true).same_conns (.refl _)
  | @live i conn connected unused =>
    rw [valid.conns] at connected
    refine ⟨valid.conns, ?_, List.nodup_cons.mpr ⟨valid.unheld connected unused, valid.once⟩, ?_⟩
    · intro j other found
      by_cases same : j = i
      · subst same
        rw [connected] at found
        cases found
        simp [ConnPool.setUsed, heldConns]
      · have apart : other ≠ conn := by
          rintro rfl
          exact same (connects.distinct j i other found connected)
        have flags : (callers.pool.setUsed i true).used j = callers.pool.used j := Function.update_of_ne same ..
        rw [flags, valid.used j other found]
        simp [heldConns, apart]
    · intro other member
      cases member with
      | head => exact ⟨i, connected⟩
      | tail _ earlier => exact valid.known other earlier

variable [DecidableEq C] [DecidableEq M]

theorem Valid.release {caller : C} {conn : Option M} (given : (caller, conn) ∈ callers.held) :
    Valid connects ⟨callers.pool.releaseConn conn, callers.held.erase (caller, conn)⟩ := by
  have perm := (List.perm_cons_erase given).filterMap Prod.snd
  cases conn with
  | none =>
    unfold ConnPool.releaseConn
    rw [valid.conns]
    split
    next i found =>
      have unconnected := (Fin.find?_eq_some_iff.mp found).1
      exact (valid.dead_slot (by simpa using unconnected) false).same_conns perm.symm
    next => exact valid.same_conns perm.symm
  | some conn =>
    have back : (heldConns callers).Perm (conn :: (callers.held.erase (caller, some conn)).filterMap Prod.snd) := perm
    obtain ⟨released, once⟩ := List.nodup_cons.mp (back.nodup_iff.mp valid.once)
    obtain ⟨i, connected⟩ := valid.known conn (back.mem_iff.mpr List.mem_cons_self)
    rw [release_slot (valid.conns.symm ▸ connected) (valid.conns.symm ▸ connects.distinct)]
    refine ⟨valid.conns, ?_, once, ?_⟩
    · intro j other found
      by_cases same : j = i
      · subst same
        rw [connected] at found
        cases found
        simpa [ConnPool.setUsed, heldConns] using released
      · have apart : other ≠ conn := by
          rintro rfl
          exact same (connects.distinct j i other found connected)
        have flags : (callers.pool.setUsed i false).used j = callers.pool.used j := Function.update_of_ne same ..
        rw [flags, valid.used j other found, back.mem_iff, List.mem_cons, or_iff_right apart]
        rfl
    · intro other member
      exact valid.known other (back.mem_iff.mpr (List.mem_cons_of_mem conn member))

theorem Valid.step {get : ConnPool M → Option M × ConnPool M} (gets : ∀ pool, Got pool (get pool)) {call : Call C M}
    {after : Callers C M} (taken : callers.step get ConnPool.releaseConn call = some after) : Valid connects after := by
  cases call with
  | get caller =>
    cases taken
    exact valid.get caller (gets callers.pool)
  | release caller conn =>
    simp only [Callers.step] at taken
    split at taken
    next given =>
      cases taken
      exact valid.release given
    next => cases taken

end used
end NetPrograms.Proofs.ConnHolders
