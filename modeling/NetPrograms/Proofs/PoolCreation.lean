import NetPrograms.Proofs.ThreadSteps

/-! `nThreadPoolCreate` clears no more of a record than `sizeof(worker)`, so a worker
starts with the flag that was in its memory. -/

namespace NetPrograms.Proofs.PoolCreation
open ThreadPool ThreadSteps

variable {T : Type}

def destroying : MainPoint T → Bool
  | .destroying _ => true
  | _ => false

def inLoop : WorkerPoint T → Bool
  | .absent | .free | .freed => false
  | _ => true

/-- What a returned `nThreadPoolCreate` promises. -/
def Serving (numWorkers : Int) (pool : Threads T) : Prop :=
  ∃ items, Linked pool.records pool.workers items ∧ items.length = max numWorkers 1 ∧
    ∀ worker ∈ items, inLoop (pool.point worker)

def Fails (calls : Calls) (numWorkers : Int) : Prop :=
  ∃ i : Nat, i < max numWorkers 1 ∧ (calls.malloc i = none ∨ calls.pthread_create i ≠ 0)

/-- The memory of the flags happens to be zero. -/
def Clear (calls : Calls) (numWorkers : Int) : Prop :=
  ∀ i : Nat, i < max numWorkers 1 → ∀ record, calls.malloc i = some record → ∀ byte ∈ record.flag, byte = 0

theorem turns_eq (numWorkers : Int) : turns numWorkers = max numWorkers 1 := by
  unfold turns
  split <;> omega

/-- The cleared bytes end before the flag. -/
theorem memset_flag (record : Record) : record.memset.flag = record.flag := by
  have cleared : (Block.overlay record.bytes 0 (List.replicate 8 0)).drop 8 = record.bytes.drop 8 := by
    rw [Block.overlay_zero, List.drop_append]
    simp
  rw [Record.flag, Record.flag, Block.slice, Block.slice, Record.memset, cleared]

theorem terminate_eq_zero (record : Record) : record.memset.terminate = 0 ↔ ∀ byte ∈ record.flag, byte = 0 := by
  rw [Record.terminate, memset_flag, ofLittleEndian_eq_zero]

variable {calls : Calls} {present : Bool} {numWorkers : Int} {pool after : Threads T}

theorem flag_clear (listed : Listed calls present numWorkers pool) (early : destroying pool.main = false)
    (clear : Clear calls numWorkers) {worker : Nat} (started : pool.point worker ≠ .absent) : pool.terminate worker = 0 := by
  have zero {inserted last : Nat} (registered : Registered calls pool inserted last)
      (most : (last : Int) ≤ turns numWorkers) : pool.terminate worker = 0 := by
    have inside := (registered.running worker).mp started
    obtain ⟨record, allocated, -, flag⟩ := registered.records worker inside
    rw [flag, terminate_eq_zero]
    rw [turns_eq] at most
    exact clear worker (by omega) record allocated
  unfold Listed at listed
  split at listed
  next => exact absurd (listed.2.2.2.2 worker) started
  next =>
    obtain ⟨-, rfl, -, most, registered⟩ := listed
    exact zero registered most
  next =>
    obtain ⟨-, rfl, -, more, registered⟩ := listed
    exact zero registered more
  next =>
    obtain ⟨count, registered, most, -⟩ := listed
    exact zero registered most
  next =>
    obtain ⟨count, registered, most, -⟩ := listed
    exact zero registered most
  next main =>
    rw [main] at early
    cases early

def leaving : WorkerPoint T → Bool
  | .unlockTerminated | .free | .freed => true
  | _ => false

def Staying (pool : Threads T) : Prop := ∀ worker, leaving (pool.point worker) = false

namespace Staying

theorem goto (staying : Staying pool) {worker : Nat} {point : WorkerPoint T}
    (moved : after.point = Function.update pool.point worker point) (stays : leaving point = false) : Staying after := by
  intro other
  rw [moved]
  by_cases same : other = worker
  · rw [same, Function.update_self]
    exact stays
  · rw [Function.update_of_ne same]
    exact staying other

theorem callback [DecidableEq T] (staying : Staying pool) {worker : Nat}
    (clear : pool.point worker ≠ .absent → pool.terminate worker = 0) (law : Law pool worker after) : Staying after := by
  have stays := staying worker
  cases law with
  | quit now flag => exact absurd (clear (by simp [now])) flag
  | leave now | free now =>
    rw [now] at stays
    cases stays
  | null | lost => exact staying
  | _ => exact staying.goto rfl rfl

/-- Only a worker leaves, and only when it finds its flag set. -/
theorem step [DecidableEq T] (staying : Staying pool)
    (clear : ∀ worker, pool.point worker ≠ .absent → pool.terminate worker = 0) (turn : Turn calls pool after) :
    Staying after := by
  cases turn with
  | enter called taken =>
    unfold Threads.enter at taken
    split at taken <;> cases taken
    exact staying
  | create main taken =>
    unfold Threads.nThreadPoolCreate at taken
    split at taken
    next =>
      cases taken
      exact staying
    next =>
      cases taken
      exact staying
    next =>
      split at taken
      next =>
        split at taken
        next =>
          cases taken
          exact staying
        next =>
          split at taken <;> cases taken
          · exact staying.goto rfl rfl
          · exact staying
      next =>
        cases taken
        exact staying
    next =>
      cases taken
      exact staying
  | push main taken =>
    unfold Threads.nThreadPoolPushTask at taken
    split at taken
    next =>
      split at taken <;> cases taken
      exact staying
    all_goals
      cases taken
      exact staying
  | destroy main taken =>
    unfold Threads.nThreadPoolDestory at taken
    split at taken
    case h_5 =>
      split at taken <;> cases taken
      exact staying
    all_goals
      cases taken
      first | done | exact staying
  | @worker worker law => exact staying.callback (clear worker) law
  | finish taken =>
    unfold Threads.finish at taken
    split at taken <;> cases taken
    exact staying.goto rfl rfl

end Staying

theorem destroying_step [DecidableEq T] (turn : Turn calls pool after) (late : destroying pool.main) :
    destroying after.main := by
  cases turn with
  | enter called taken =>
    unfold Threads.enter at taken
    split at taken
    next ready =>
      rw [ready.1] at late
      cases late
    next => cases taken
  | create main =>
    rw [main] at late
    cases late
  | push main =>
    rw [main] at late
    cases late
  | destroy main taken =>
    unfold Threads.nThreadPoolDestory at taken
    split at taken
    case h_5 =>
      split at taken <;> cases taken
      rfl
    all_goals
      cases taken
      first | done | rfl
  | worker law => rwa [(SameMain.of_law law).main]
  | finish taken => rwa [(SameMain.of_finish taken).main]

theorem created_registered (listed : Listed calls present numWorkers pool) (created : pool.created = some 0)
    (early : destroying pool.main = false) :
    present ∧ ∃ count : Nat, (count : Int) = max numWorkers 1 ∧ Registered calls pool count count := by
  rw [← turns_eq]
  unfold Listed at listed
  split at listed
  next => simp [listed.2.2.1] at created
  next => simp [listed.2.2.1] at created
  next => simp [listed.2.2.1] at created
  next =>
    obtain ⟨count, registered, -, all⟩ := listed
    exact ⟨(all created).1, count, (all created).2, registered⟩
  next =>
    obtain ⟨count, registered, -, all⟩ := listed
    exact ⟨(all created).1, count, (all created).2, registered⟩
  next main =>
    rw [main] at early
    cases early

section runs
variable [DecidableEq T] {links : Links T} {records : Links Nat}

/-- `nThreadPoolCreate` keeps its promise in every run before the shutdown. -/
def Promise (calls : Calls) (present : Bool) (numWorkers : Int) (links : Links T) (records : Links Nat) : Prop :=
  ∀ actions pool, exec (Threads.step calls) (Threads.start present numWorkers links records) actions = some pool →
    pool.created = some 0 → destroying pool.main = false → Serving numWorkers pool

theorem reached_listed {actions : List (Action T)}
    (reached : exec (Threads.step calls) (Threads.start present numWorkers links records) actions = some pool) :
    Listed calls present numWorkers pool :=
  (Run.of_exec reached).invariant (Listed calls present numWorkers) (start_listed ..)
    fun _ _ _ listed taken => listed.step (step_turn taken)

theorem reached_staying {actions : List (Action T)} (clear : Clear calls numWorkers)
    (reached : exec (Threads.step calls) (Threads.start present numWorkers links records) actions = some pool)
    (early : destroying pool.main = false) : Staying pool := by
  have held : Listed calls present numWorkers pool ∧ (destroying pool.main = false → Staying pool) := by
    apply (Run.of_exec reached).invariant
      (fun pool => Listed calls present numWorkers pool ∧ (destroying pool.main = false → Staying pool))
    · exact ⟨start_listed .., fun _ _ => rfl⟩
    · intro before action after ⟨listed, staying⟩ taken
      have turn := step_turn taken
      refine ⟨listed.step turn, ?_⟩
      intro early
      have earlier : destroying before.main = false :=
        Bool.eq_false_iff.mpr fun late => absurd (destroying_step turn late) (by simp [early])
      exact (staying earlier).step (fun worker => flag_clear listed earlier clear) turn
  exact held.2 early

structure Started (pool : Threads T) (i : Nat) (count : Int) : Prop where
  main : pool.main = .creating (.test i count)
  mutex : pool.mutex = none
  tasks : pool.tasks = none
  alive : pool.crashed = false
  locking : ∀ worker < i, pool.point worker = .lock

theorem starts (links : Links T) (records : Links Nat) (works : ¬ Fails calls numWorkers) (i : Nat)
    (most : i ≤ turns numWorkers) :
    ∃ actions pool, exec (Threads.step calls) (Threads.start true numWorkers links records) actions = some pool ∧
      Started pool i (turns numWorkers) := by
  induction i with
  | zero =>
    refine ⟨[.main], _, rfl, ⟨rfl, rfl, rfl, rfl, ?_⟩⟩
    intro worker early
    cases early
  | succ i ih =>
    obtain ⟨actions, pool, reached, started⟩ := ih (by omega)
    have more : (i : Int) < turns numWorkers := by omega
    have called : ¬ (calls.malloc i = none ∨ calls.pthread_create i ≠ 0) :=
      fun fails => works ⟨i, turns_eq numWorkers ▸ more, fails⟩
    obtain ⟨allocated, spawned⟩ := not_or.mp called
    obtain ⟨record, allocated⟩ := Option.ne_none_iff_exists'.mp allocated
    have spawned : calls.pthread_create i = 0 := not_not.mp spawned
    have made : pool.step calls .main = some { pool.goto i .lock with
        terminate := Function.update pool.terminate i record.memset.terminate
        main := .creating (.insert i (turns numWorkers)) } := by
      simp [Threads.step, started.alive, Threads.mainStep, started.main, Threads.nThreadPoolCreate, more, allocated, spawned]
    refine ⟨actions ++ [.main, .main], { pool.goto i .lock with
      terminate := Function.update pool.terminate i record.memset.terminate
      records := (pool.records.listInsert i pool.workers).1, workers := (pool.records.listInsert i pool.workers).2
      main := .creating (.test (i + 1) (turns numWorkers)) }, ?_, ?_⟩
    · rw [exec_append, reached, Option.bind_some, exec_cons, made]
      simp [exec, Threads.step, started.alive, Threads.mainStep, Threads.nThreadPoolCreate, Threads.goto]
    · refine ⟨rfl, started.mutex, started.tasks, started.alive, ?_⟩
      intro worker early
      by_cases here : worker = i
      · simp [Threads.goto, here]
      · simpa [Threads.goto, here] using started.locking worker (by omega)

theorem leaves {worker : Nat} (mutex : pool.mutex = none) (tasks : pool.tasks = none)
    (alive : pool.crashed = false) (locking : pool.point worker = .lock) (flag : pool.terminate worker ≠ 0) :
    ∃ last, exec (Threads.step calls) pool (List.replicate 5 (.worker worker)) = some last ∧
      last.point worker = .free ∧ last.main = pool.main ∧ last.created = pool.created := by
  refine ⟨{ pool.goto worker .free with mutex := none }, ?_, by simp [Threads.goto], rfl, rfl⟩
  simp [List.replicate, exec, Threads.step, Threads.nThreadPoolCallback, Threads.goto, mutex, tasks, alive,
    locking, flag]

theorem returns (links : Links T) (records : Links Nat) (works : ¬ Fails calls numWorkers) :
    ∃ actions pool, exec (Threads.step calls) (Threads.start true numWorkers links records) actions = some pool ∧
      (pool.main = .idle ∧ pool.created = some 0) ∧ pool.mutex = none ∧ pool.tasks = none ∧ pool.crashed = false ∧
      ∀ worker : Nat, worker < turns numWorkers → pool.point worker = .lock := by
  have positive := turns_pos numWorkers
  obtain ⟨actions, pool, reached, started⟩ := starts links records works (turns numWorkers).toNat (by omega)
  refine ⟨actions ++ [.main], pool.leave 0, ?_, ⟨rfl, rfl⟩, started.mutex, started.tasks, started.alive, ?_⟩
  · rw [exec_snoc, reached, Option.bind_some]
    simp [Threads.step, started.alive, Threads.mainStep, started.main, Threads.nThreadPoolCreate]
  · intro worker inside
    exact started.locking worker (by omega)

theorem promise_clear (works : ¬ Fails calls numWorkers) (promise : Promise calls true numWorkers links records) :
    Clear calls numWorkers := by
  intro worker inside record allocated
  rw [← terminate_eq_zero]
  by_contra flag
  obtain ⟨actions, pool, reached, ⟨main, created⟩, mutex, tasks, alive, locking⟩ := returns links records works
  have early : destroying pool.main = false := by
    rw [main]
    rfl
  obtain ⟨-, count, all, registered⟩ := created_registered (reached_listed reached) created early
  have first : worker < count := by omega
  obtain ⟨same, allocated', -, held⟩ := registered.records worker first
  obtain rfl : record = same := Option.some.inj (allocated.symm.trans allocated')
  obtain ⟨last, continued, free, main', created'⟩ := leaves mutex tasks alive (locking worker (turns_eq numWorkers ▸ inside))
    (held ▸ flag)
  have whole : exec (Threads.step calls) (Threads.start true numWorkers links records)
      (actions ++ List.replicate 5 (.worker worker)) = some last := by
    rw [exec_append, reached, Option.bind_some, continued]
  have created : last.created = some 0 := created'.trans created
  have early : destroying last.main = false := main' ▸ early
  obtain ⟨items, linked, -, loops⟩ := promise _ last whole created early
  obtain ⟨-, count, all, registered⟩ := created_registered (reached_listed whole) created early
  have member : worker ∈ items := by
    rw [linked.unique registered.linked]
    simp
    omega
  have stays := loops worker member
  rw [free] at stays
  cases stays

/-- The promise is kept when no worker finds its flag set, and there is none to keep
when the pool is not made. -/
theorem promise_iff_clear (calls : Calls) (present : Bool) (numWorkers : Int) (links : Links T) (records : Links Nat) :
    Promise calls present numWorkers links records ↔ present = false ∨ Fails calls numWorkers ∨ Clear calls numWorkers := by
  constructor
  · intro promise
    by_contra neither
    obtain ⟨given, works, unclear⟩ : present = true ∧ ¬ Fails calls numWorkers ∧ ¬ Clear calls numWorkers := by
      simpa using neither
    subst given
    exact unclear (promise_clear works promise)
  · intro condition actions pool reached created early
    obtain ⟨given, count, all, registered⟩ := created_registered (reached_listed reached) created early
    have staying : Staying pool := by
      rcases condition with absent | fails | clear
      · simp [given] at absent
      · obtain ⟨i, inside, failed⟩ := fails
        obtain ⟨record, allocated, spawned, -⟩ := registered.records i (by omega)
        simp [allocated, spawned] at failed
      · exact reached_staying clear reached early
    refine ⟨_, registered.linked, by simpa using all, ?_⟩
    intro worker member
    have inside : worker < count := by simpa using member
    have started := (registered.running worker).mpr inside
    have stays := staying worker
    cases point : pool.point worker <;> simp_all [leaving, inLoop]

end runs

theorem used_size : (List.replicate 8 (0 : UInt8) ++ 1 :: List.replicate 31 0).length = 40 := by simp

/-- Memory that was used before: the flag is one. -/
def used : Calls := ⟨fun _ => some ⟨List.replicate 8 0 ++ 1 :: List.replicate 31 0, used_size⟩, fun _ => 0⟩

/-- The pool is made and its only worker leaves at once. -/
def makeThenLeave : List (Action Nat) :=
  [.main, .main, .main, .main, .worker 0, .worker 0, .worker 0, .worker 0, .worker 0]

theorem used_memory_unserved : ¬ ∀ (T : Type) [DecidableEq T] (calls : Calls) (numWorkers : Int) (links : Links T)
    (records : Links Nat), Promise calls true numWorkers links records := by
  intro always
  obtain ⟨items, linked, -, loops⟩ := always Nat used 1 ⟨fun _ => none, fun _ => none⟩ ⟨fun _ => none, fun _ => none⟩
    makeThenLeave _ rfl rfl rfl
  have member : 0 ∈ items := List.mem_of_head? linked.head.symm
  have left : inLoop WorkerPoint.free = true := loops 0 member
  cases left

end NetPrograms.Proofs.PoolCreation
