import NetPrograms.Proofs.PoolSteps

/-! What `nThreadPoolDestory` would have to wait for. It joins no thread: the
marking loop may read a record that its thread has freed, and a woken worker may
take a mutex that is destroyed. -/

namespace NetPrograms.Proofs.PoolShutdown
open ThreadPool PoolSteps

variable {n : Nat} {T : Type}

structure Safe (pool : Pool n T) : Prop where
  untouched : pool.dead = false
  awake : pool.mutexDestroyed → ∀ worker, pool.stage worker ≠ .waiting

/-- Where the marking loop goes on. -/
def reading (pool : Pool n T) : Option (Fin n) :=
  match pool.destroyer with
  | .before => pool.workers
  | .test worker => worker
  | .marked worker => some worker
  | _ => none

/-- The workers whose records the marking loop has not read. -/
def unread (pool : Pool n T) : List (Fin n) := (pool.records.toList n (reading pool)).getD []

/-- A worker behind its last unlock. -/
def Left (stage : WorkerStage T) : Prop := stage = .leaving ∨ stage = .freed

instance [DecidableEq T] (stage : WorkerStage T) : Decidable (Left stage) := inferInstanceAs (Decidable (_ ∨ _))

/-- A record is freed behind the marking loop, and the mutex is destroyed when all
workers have left their loops. -/
def Orderly (pool : Pool n T) : Event n T → Prop
  | .run worker => pool.stage worker = .leaving → worker ∉ unread pool
  | .destroy => pool.destroyer = .destroyMutex → ∀ worker, Left (pool.stage worker)
  | _ => True

instance [DecidableEq T] (pool : Pool n T) (event : Event n T) : Decidable (Orderly pool event) :=
  match event with
  | .run _ | .destroy => inferInstanceAs (Decidable (_ → _))
  | .push _ | .finish .. => inferInstanceAs (Decidable True)

structure Intact (pool : Pool n T) : Prop where
  untouched : pool.dead = false
  left : pool.mutexDestroyed → ∀ worker, Left (pool.stage worker)
  path : ∃ items, Path pool.records (reading pool) items ∧ items.length ≤ n ∧ ∀ worker ∈ items, pool.stage worker ≠ .freed

theorem unread_path {pool : Pool n T} {items : List (Fin n)} (path : Path pool.records (reading pool) items)
    (short : items.length ≤ n) : unread pool = items := by
  rw [unread, path.toList short, Option.getD_some]

namespace Intact
variable {pool : Pool n T} (intact : Intact pool)
include intact

theorem safe : Safe pool := by
  refine ⟨intact.untouched, ?_⟩
  intro destroyed worker waiting
  rcases intact.left destroyed worker with leaving | freed
  · rw [waiting] at leaving
    cases leaving
  · rw [waiting] at freed
    cases freed

/-- While a worker is in its loop the mutex is there. -/
theorem mutex_alive {worker : Fin n} (inside : ¬ Left (pool.stage worker)) : pool.mutexDestroyed = false := by
  cases destroyed : pool.mutexDestroyed with
  | false => rfl
  | true => exact absurd (intact.left destroyed worker) inside

theorem touch (alive : pool.mutexDestroyed = false) : Intact pool.touch := by
  refine ⟨?_, intact.left, intact.path⟩
  simp [Pool.touch, intact.untouched, alive]

theorem setStage {worker : Fin n} {stage : WorkerStage T} (out : pool.mutexDestroyed → Left stage)
    (read : stage = .freed → worker ∉ unread pool) : Intact (pool.setStage worker stage) := by
  refine ⟨intact.untouched, ?_, ?_⟩
  · intro destroyed other
    by_cases same : other = worker
    · subst same
      simpa [Pool.setStage] using out destroyed
    · simpa [Pool.setStage, same] using intact.left destroyed other
  · obtain ⟨items, path, short, unfreed⟩ := intact.path
    rw [unread_path path short] at read
    refine ⟨items, path, short, ?_⟩
    intro other member freed
    by_cases same : other = worker
    · subst same
      exact read (by simpa [Pool.setStage] using freed) member
    · exact unfreed other member (by simpa [Pool.setStage, same] using freed)

/-- A step of a worker in its loop. -/
theorem moved {worker : Fin n} {stage : WorkerStage T} (inside : ¬ Left (pool.stage worker)) (kept : stage ≠ .freed) :
    Intact (pool.setStage worker stage) := by
  apply intact.setStage
  · intro destroyed
    exact absurd (intact.left destroyed worker) inside
  · exact fun freed => absurd freed kept

theorem touched {worker : Fin n} {stage : WorkerStage T} (inside : ¬ Left (pool.stage worker)) (kept : stage ≠ .freed) :
    Intact (pool.touch.setStage worker stage) :=
  (intact.touch (intact.mutex_alive inside)).moved inside kept

/-- The fields that do not matter for the shutdown. -/
theorem frame {after : Pool n T} (dead : after.dead = pool.dead) (stage : after.stage = pool.stage)
    (destroyer : after.destroyer = pool.destroyer) (records : after.records = pool.records)
    (workers : after.workers = pool.workers) : Intact after := by
  have reads : reading after = reading pool := by rw [reading, reading, destroyer, workers]
  have destroyed : after.mutexDestroyed = pool.mutexDestroyed := by rw [Pool.mutexDestroyed, Pool.mutexDestroyed, destroyer]
  refine ⟨dead ▸ intact.untouched, ?_, ?_⟩
  · rw [destroyed, stage]
    exact intact.left
  · rw [reads, records, stage]
    exact intact.path

theorem destroy [DecidableEq T] {after : Pool n T} (orderly : Orderly pool .destroy)
    (taken : pool.nThreadPoolDestory = some after) : Intact after := by
  obtain ⟨items, path, short, unfreed⟩ := intact.path
  unfold Pool.nThreadPoolDestory at taken
  split at taken
  next stage =>
    cases taken
    rw [reading, stage] at path
    exact ⟨intact.untouched, by simp [Pool.mutexDestroyed], items, path, short, unfreed⟩
  next worker stage =>
    cases taken
    rw [reading, stage] at path
    exact ⟨intact.untouched, by simp [Pool.mutexDestroyed], items, path, short, unfreed⟩
  next worker stage =>
    cases taken
    rw [reading, stage] at path
    cases path with
    | @step _ rest behind =>
      refine ⟨?_, by simp [Pool.mutexDestroyed], rest, behind, ?_, ?_⟩
      · simp [intact.untouched, unfreed worker List.mem_cons_self]
      · exact Nat.le_of_succ_le short
      · intro other member
        exact unfreed other (List.mem_cons_of_mem worker member)
  next =>
    split at taken
    next =>
      cases taken
      exact ⟨intact.untouched, by simp [Pool.mutexDestroyed], [], .done, Nat.zero_le n, by simp⟩
    next => cases taken
  next =>
    cases taken
    exact ⟨intact.untouched, by simp [Pool.mutexDestroyed], [], .done, Nat.zero_le n, by simp⟩
  next stage =>
    cases taken
    exact ⟨intact.untouched, fun _ => orderly stage, [], .done, Nat.zero_le n, by simp⟩
  next stage =>
    cases taken
    refine ⟨intact.untouched, fun _ => intact.left ?_, [], .done, Nat.zero_le n, by simp⟩
    rw [Pool.mutexDestroyed, stage]
  next => cases taken

end Intact

theorem create_intact (terminate : Fin n → Bool) (links : Links T) : Intact (nThreadPoolCreate terminate links) := by
  refine ⟨rfl, by simp [nThreadPoolCreate, Pool.mutexDestroyed], ?_⟩
  have linked : Linked (workerList n).1 (workerList n).2 ((List.finRange n).reverse ++ []) := by
    apply (Linked.empty _).insertAll (List.nodup_finRange n)
    intro worker _ inside
    cases inside
  exact ⟨_, linked.path, by simp, by simp [nThreadPoolCreate]⟩

theorem ready_inside {pool : Pool n T} {worker : Fin n} (ready : Ready pool worker) : ¬ Left (pool.stage worker) := by
  obtain ⟨-, locking | waiting⟩ := ready
  · simp [Left, locking]
  · simp [Left, waiting]

section run
variable [DecidableEq T] {before after : Pool n T} {event : Event n T}

theorem law_intact (intact : Intact before) (orderly : Orderly before event) (law : Law before event after) :
    Intact after := by
  cases law with
  | push => exact intact.frame rfl rfl rfl rfl rfl
  | wait ready idle => exact intact.touched (ready_inside ready) (by simp)
  | @quit worker ready terminate =>
    have quits : Intact (before.touch.setStage worker (.unlocking none)) := intact.touched (ready_inside ready) (by simp)
    exact quits.frame rfl rfl rfl rfl rfl
  | @pop worker task ready first =>
    have pops : Intact (before.touch.setStage worker (.unlocking (some task))) :=
      intact.touched (ready_inside ready) (by simp)
    exact pops.frame rfl rfl rfl rfl rfl
  | @leave worker held =>
    have leaves : Intact (before.touch.setStage worker .leaving) := intact.touched (by simp [Left, held]) (by simp)
    exact leaves.frame rfl rfl rfl rfl rfl
  | @unlock worker task held =>
    have unlocks : Intact (before.touch.setStage worker (.calling task)) :=
      intact.touched (by simp [Left, held]) (by simp)
    exact unlocks.frame rfl rfl rfl rfl rfl
  | @call worker task ready =>
    have calls : Intact (before.setStage worker (.running task)) := intact.moved (by simp [Left, ready]) (by simp)
    exact calls.frame rfl rfl rfl rfl rfl
  | free left =>
    apply intact.setStage
    · exact fun _ => .inr rfl
    · exact fun _ => orderly left
  | @finish worker task next prev running =>
    have finishes : Intact (before.setStage worker .locking) := intact.moved (by simp [Left, running]) (by simp)
    exact finishes.frame rfl rfl rfl rfl rfl
  | destroy taken => exact intact.destroy orderly taken

theorem orderly_shutdown_safe (terminate : Fin n → Bool) (links : Links T) (events : List (Event n T)) (last : Pool n T)
    (reached : exec (meeting Orderly Pool.step) (nThreadPoolCreate terminate links) events = some last) : Safe last := by
  apply Intact.safe
  apply (Run.of_exec reached).invariant Intact (create_intact terminate links)
  intro before event after intact step
  obtain ⟨orderly, taken⟩ := meeting_eq_some step
  exact law_intact intact orderly (step_law taken)

end run

private def waits : Fin 2 := ⟨0, Nat.zero_lt_two⟩

private def works : Fin 2 := ⟨1, Nat.one_lt_two⟩

/-- One worker waits and the other one has a task when the marking loop begins. Both
leave before the mutex is destroyed. -/
def joined : List (Event 2 Nat) :=
  [.run waits, .push 7, .run works, .destroy, .run works, .destroy, .destroy, .run works, .destroy, .destroy, .run waits,
    .finish works none none, .run waits, .destroy, .run works, .run waits, .run works, .run works, .destroy, .destroy,
    .destroy]

theorem joined_shutdown_safe : ∃ last : Pool 2 Nat,
    exec (meeting Orderly Pool.step) (nThreadPoolCreate (fun _ => false) ⟨fun _ => none, fun _ => none⟩) joined =
        some last ∧
      Safe last ∧ last.destroyer = .returned ∧ last.called = [(works, 7)] :=
  ⟨_, rfl, orderly_shutdown_safe (fun _ => false) ⟨fun _ => none, fun _ => none⟩ joined _ rfl, rfl, rfl⟩

/-- The worker sees its mark and frees its record before the caller reads the next worker. -/
def early : List (Event 1 Nat) := [.destroy, .destroy, .run 0, .run 0, .run 0, .destroy]

theorem freed_record_read : ¬ ∀ (n : Nat) (T : Type) [DecidableEq T] (terminate : Fin n → Bool) (links : Links T)
    (events : List (Event n T)) (last : Pool n T),
    exec Pool.step (nThreadPoolCreate terminate links) events = some last → Safe last := by
  intro always
  have safe := always 1 Nat (fun _ => false) ⟨fun _ => none, fun _ => none⟩ early _ rfl
  cases safe.untouched

end NetPrograms.Proofs.PoolShutdown
