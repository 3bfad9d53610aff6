import NetPrograms.ThreadPool.Threads

/-! What one access of a worker does, and what `nThreadPoolCreate` and the marking
loop of `nThreadPoolDestory` leave in the list of the workers. -/

namespace NetPrograms.Proofs.ThreadSteps
open ThreadPool

variable {T : Type}

inductive Law [DecidableEq T] (pool : Threads T) (worker : Nat) : Threads T → Prop where
  | lock (free : pool.mutex = none) (out : pool.point worker = .lock ∨ pool.point worker = .waiting) :
      Law pool worker { pool.goto worker .testTasks with mutex := some (.worker worker) }
  | found (now : pool.point worker = .testTasks) (some : pool.tasks ≠ none) :
      Law pool worker (pool.goto worker .testTerminate)
  | empty (now : pool.point worker = .testTasks) : Law pool worker (pool.goto worker .testBreak)
  | broken (now : pool.point worker = .testBreak) (flag : pool.terminate worker ≠ 0) :
      Law pool worker (pool.goto worker .testTerminate)
  | idle (now : pool.point worker = .testBreak) : Law pool worker (pool.goto worker .wait)
  | wait (now : pool.point worker = .wait) : Law pool worker { pool.goto worker .waiting with mutex := none }
  | quit (now : pool.point worker = .testTerminate) (flag : pool.terminate worker ≠ 0) :
      Law pool worker (pool.goto worker .unlockTerminated)
  | serve (now : pool.point worker = .testTerminate) (clear : pool.terminate worker = 0) :
      Law pool worker (pool.goto worker .readHead)
  | leave (now : pool.point worker = .unlockTerminated) :
      Law pool worker { pool.goto worker .free with mutex := none }
  | read (now : pool.point worker = .readHead) : Law pool worker (pool.goto worker (.compareHead pool.tasks))
  | null (now : pool.point worker = .compareHead none) : Law pool worker { pool with crashed := true }
  | first {task} (now : pool.point worker = .compareHead (some task)) (first : pool.tasks = some task) :
      Law pool worker (pool.goto worker (.moveHead task))
  | inner {task} (now : pool.point worker = .compareHead (some task)) (other : pool.tasks ≠ some task) :
      Law pool worker (pool.goto worker (.changeLinks task))
  | lost {task} (now : pool.point worker = .moveHead task) (cleared : pool.tasks = none) :
      Law pool worker { pool with crashed := true }
  | move {task head} (now : pool.point worker = .moveHead task) (first : pool.tasks = some head) :
      Law pool worker { pool.goto worker (.changeLinks task) with tasks := pool.links.next head }
  | remove {task} (now : pool.point worker = .changeLinks task) :
      Law pool worker { pool.goto worker (.unlock task) with
        links := (pool.links.listRemove task none).1, popped := (worker, task) :: pool.popped }
  | unlock {task} (now : pool.point worker = .unlock task) :
      Law pool worker { pool.goto worker (.call task) with mutex := none }
  | call {task} (now : pool.point worker = .call task) : Law pool worker (pool.goto worker (.running task))
  | free (now : pool.point worker = .free) : Law pool worker (pool.goto worker .freed)

theorem callback_law [DecidableEq T] {pool after : Threads T} {worker : Nat}
    (taken : pool.nThreadPoolCallback worker = some after) : Law pool worker after := by
  unfold Threads.nThreadPoolCallback at taken
  split at taken
  next => cases taken
  next now =>
    split at taken
    next free =>
      cases taken
      exact .lock free (.inl now)
    next => cases taken
  next now =>
    split at taken
    next free =>
      cases taken
      exact .lock free (.inr now)
    next => cases taken
  next now =>
    cases taken
    split
    next => exact .empty now
    next some => exact .found now some
  next now =>
    cases taken
    split
    next flag => exact .broken now flag
    next => exact .idle now
  next now =>
    cases taken
    exact .wait now
  next now =>
    cases taken
    split
    next flag => exact .quit now flag
    next clear => exact .serve now (not_not.mp clear)
  next now =>
    cases taken
    exact .leave now
  next now =>
    cases taken
    exact .read now
  next now =>
    cases taken
    exact .null now
  next now =>
    cases taken
    split
    next first => exact .first now first
    next other => exact .inner now other
  next now =>
    split at taken
    next cleared =>
      cases taken
      exact .lost now cleared
    next first =>
      cases taken
      exact .move now first
  next now =>
    cases taken
    exact .remove now
  next now =>
    cases taken
    exact .unlock now
  next now =>
    cases taken
    exact .call now
  next => cases taken
  next now =>
    cases taken
    exact .free now
  next => cases taken

/-- The thread that takes a step and the call it is in. -/
inductive Turn [DecidableEq T] (calls : Calls) (pool after : Threads T) : Prop where
  | enter {point} (called : (∃ task, point = .pushing (.lock task)) ∨ point = .destroying (.test pool.workers))
      (taken : pool.enter point = some after)
  | create {point} (main : pool.main = .creating point) (taken : pool.nThreadPoolCreate calls point = some after)
  | push {point} (main : pool.main = .pushing point) (taken : pool.nThreadPoolPushTask point = some after)
  | destroy {point} (main : pool.main = .destroying point) (taken : pool.nThreadPoolDestory point = some after)
  | worker {worker} (law : Law pool worker after)
  | finish {worker next prev} (taken : pool.finish worker next prev = some after)

theorem step_turn [DecidableEq T] {calls : Calls} {pool after : Threads T} {action : Action T}
    (taken : pool.step calls action = some after) : Turn calls pool after := by
  unfold Threads.step at taken
  split at taken
  next => cases taken
  split at taken
  next task =>
    split at taken
    next => cases taken
    next => exact .enter (.inl ⟨task, rfl⟩) taken
  next => exact .enter (.inr rfl) taken
  next =>
    unfold Threads.mainStep at taken
    split at taken
    next main => exact .create main taken
    next => cases taken
    next main => exact .push main taken
    next main => exact .destroy main taken
  next => exact .worker (callback_law taken)
  next => exact .finish taken

/-- What the workers leave to the main thread. -/
structure SameMain (pool after : Threads T) : Prop where
  main : after.main = pool.main
  created : after.created = pool.created
  records : after.records = pool.records
  workers : after.workers = pool.workers
  terminate : after.terminate = pool.terminate
  absent : ∀ worker, after.point worker = .absent ↔ pool.point worker = .absent

namespace SameMain
variable {pool : Threads T} {worker : Nat}

theorem goto {after : Threads T} {point : WorkerPoint T} (moved : after.point = Function.update pool.point worker point)
    (main : after.main = pool.main) (created : after.created = pool.created) (records : after.records = pool.records)
    (workers : after.workers = pool.workers) (terminate : after.terminate = pool.terminate)
    (present : pool.point worker ≠ .absent) (stays : point ≠ .absent) : SameMain pool after := by
  refine ⟨main, created, records, workers, terminate, ?_⟩
  intro other
  rw [moved]
  by_cases same : other = worker
  · simp [same, present, stays]
  · simp [same]

theorem crash : SameMain pool { pool with crashed := true } := ⟨rfl, rfl, rfl, rfl, rfl, fun _ => Iff.rfl⟩

theorem of_law [DecidableEq T] {after : Threads T} (law : Law pool worker after) : SameMain pool after := by
  cases law with
  | lock free out =>
    have present : pool.point worker ≠ .absent := by
      rcases out with now | now <;> simp [now]
    exact goto rfl rfl rfl rfl rfl rfl present nofun
  | null | lost => exact crash
  | found now | empty now | broken now | idle now | quit now | serve now | read now | first now | inner now | call now
    | free now | wait now | leave now | move now | remove now | unlock now =>
    exact goto rfl rfl rfl rfl rfl rfl (by simp [now]) nofun

theorem of_finish [DecidableEq T] {after : Threads T} {next prev : Option T}
    (taken : pool.finish worker next prev = some after) : SameMain pool after := by
  unfold Threads.finish at taken
  split at taken
  next now =>
    cases taken
    exact goto rfl rfl rfl rfl rfl rfl (by simp [now]) nofun
  next => cases taken

end SameMain

/-- The list after some turns of `nThreadPoolCreate`, whose last thread may have been
started before its record is inserted. -/
structure Registered (calls : Calls) (pool : Threads T) (inserted started : Nat) : Prop where
  linked : Linked pool.records pool.workers (List.range inserted).reverse
  running : ∀ worker, pool.point worker ≠ .absent ↔ worker < started
  records : ∀ worker < started, ∃ record, calls.malloc worker = some record ∧ calls.pthread_create worker = 0 ∧
    pool.terminate worker = record.memset.terminate

/-- The number of turns of the loop. -/
def turns (numWorkers : Int) : Int := if numWorkers < 1 then 1 else numWorkers

theorem turns_pos (numWorkers : Int) : 0 < turns numWorkers := by
  unfold turns
  split <;> omega

/-- The workers that the marking loop has still to reach. -/
def pending (records : Links Nat) : DestroyPoint → Option Nat
  | .test worker => worker
  | .mark worker => some worker
  | .next worker => records.next worker
  | _ => none

/-- A running worker is in the list, and behind the marking loop its flag is set. -/
def Listed (calls : Calls) (present : Bool) (numWorkers : Int) (pool : Threads T) : Prop :=
  match pool.main with
  | .creating (.enter given count) => given = present ∧ count = numWorkers ∧ pool.created = none ∧ pool.workers = none ∧
      ∀ worker, pool.point worker = .absent
  | .creating (.test i count) => present ∧ count = turns numWorkers ∧ pool.created = none ∧ i ≤ count ∧
      Registered calls pool i i
  | .creating (.insert i count) => present ∧ count = turns numWorkers ∧ pool.created = none ∧ i < count ∧
      Registered calls pool i (i + 1)
  | .idle | .pushing _ => ∃ count : Nat, Registered calls pool count count ∧ count ≤ turns numWorkers ∧
      (pool.created = some 0 → present ∧ count = turns numWorkers)
  | .destroying point => ∃ items, Path pool.records (pending pool.records point) items ∧
      ∀ worker, pool.point worker ≠ .absent → worker ∈ items ∨ pool.terminate worker ≠ 0

variable {calls : Calls} {present : Bool} {numWorkers : Int} {pool after : Threads T}

theorem Registered.frame {inserted started : Nat} (registered : Registered calls pool inserted started)
    (records : after.records = pool.records) (workers : after.workers = pool.workers)
    (terminate : after.terminate = pool.terminate)
    (absent : ∀ worker, after.point worker = .absent ↔ pool.point worker = .absent) :
    Registered calls after inserted started := by
  refine ⟨?_, ?_, ?_⟩
  · rw [records, workers]
    exact registered.linked
  · intro worker
    rw [← registered.running worker, ne_eq, absent worker]
  · rw [terminate]
    exact registered.records

/-- No worker is made yet. -/
theorem Registered.empty (none : pool.workers = none) (absent : ∀ worker, pool.point worker = .absent) :
    Registered calls pool 0 0 := by
  refine ⟨?_, ?_, ?_⟩
  · rw [none]
    exact .empty _
  · simp [absent]
  · intro worker early
    cases early

namespace Listed

theorem frame (listed : Listed calls present numWorkers pool) (same : SameMain pool after) :
    Listed calls present numWorkers after := by
  have kept {inserted started : Nat} (registered : Registered calls pool inserted started) :
      Registered calls after inserted started :=
    registered.frame same.records same.workers same.terminate same.absent
  unfold Listed at listed ⊢
  rw [same.main]
  split at listed
  next =>
    obtain ⟨given, count, none, empty, absent⟩ := listed
    exact ⟨given, count, same.created.trans none, same.workers.trans empty,
      fun worker => (same.absent worker).mpr (absent worker)⟩
  next =>
    obtain ⟨given, count, none, most, registered⟩ := listed
    exact ⟨given, count, same.created.trans none, most, kept registered⟩
  next =>
    obtain ⟨given, count, none, more, registered⟩ := listed
    exact ⟨given, count, same.created.trans none, more, kept registered⟩
  next =>
    obtain ⟨count, registered, most, all⟩ := listed
    exact ⟨count, kept registered, most, same.created ▸ all⟩
  next =>
    obtain ⟨count, registered, most, all⟩ := listed
    exact ⟨count, kept registered, most, same.created ▸ all⟩
  next =>
    obtain ⟨items, path, marked⟩ := listed
    rw [same.records, same.terminate]
    exact ⟨items, path, fun worker present => marked worker (fun away => present ((same.absent worker).mpr away))⟩

/-- The main thread leaves `nThreadPoolCreate` or a push. -/
theorem returned {count : Nat} (registered : Registered calls pool count count) (most : count ≤ turns numWorkers)
    (all : pool.created = some 0 → present ∧ count = turns numWorkers) (main : pool.main = .idle) :
    Listed calls present numWorkers pool := by
  unfold Listed
  rw [main]
  exact ⟨count, registered, most, all⟩

theorem create [DecidableEq T] {point : CreatePoint} (listed : Listed calls present numWorkers pool)
    (main : pool.main = .creating point) (taken : pool.nThreadPoolCreate calls point = some after) :
    Listed calls present numWorkers after := by
  rw [Listed, main] at listed
  unfold Threads.nThreadPoolCreate at taken
  split at taken
  next =>
    cases taken
    obtain ⟨-, -, -, empty, absent⟩ := listed
    exact returned (.empty empty absent) (turns_pos numWorkers).le (by simp [Threads.leave]) rfl
  next =>
    cases taken
    obtain ⟨rfl, rfl, none, -, absent⟩ := listed
    exact ⟨rfl, rfl, none, (turns_pos _).le, .empty rfl absent⟩
  next i count =>
    obtain ⟨given, rfl, none, most, registered⟩ := listed
    split at taken
    next more =>
      split at taken
      next =>
        cases taken
        exact returned (registered.frame rfl rfl rfl (fun _ => Iff.rfl)) most (by simp [Threads.leave]) rfl
      next record allocated =>
        split at taken
        next started =>
          cases taken
          refine ⟨given, rfl, none, more, registered.linked, ?_, ?_⟩
          · intro worker
            have before := registered.running worker
            by_cases here : worker = i
            · simp [Threads.goto, here]
            · simp only [Threads.goto, Function.update_of_ne here, before]
              omega
          · intro worker early
            by_cases here : worker = i
            · subst here
              exact ⟨record, allocated, started, by simp⟩
            · simpa [Threads.goto, here] using registered.records worker (by omega)
        next =>
          cases taken
          exact returned (registered.frame rfl rfl rfl (fun _ => Iff.rfl)) most (by simp [Threads.leave]) rfl
    next done =>
      cases taken
      refine returned (registered.frame rfl rfl rfl (fun _ => Iff.rfl)) most ?_ rfl
      intro _
      exact ⟨given, by omega⟩
  next i count =>
    cases taken
    obtain ⟨given, same, none, more, registered⟩ := listed
    refine ⟨given, same, none, by omega, ?_, registered.running, registered.records⟩
    rw [List.range_succ, List.reverse_append]
    apply registered.linked.insert
    simp

theorem push [DecidableEq T] {point : PushPoint T} (listed : Listed calls present numWorkers pool)
    (main : pool.main = .pushing point) (taken : pool.nThreadPoolPushTask point = some after) :
    Listed calls present numWorkers after := by
  rw [Listed, main] at listed
  obtain ⟨count, registered, most, all⟩ := listed
  unfold Threads.nThreadPoolPushTask at taken
  split at taken
  next =>
    split at taken
    next =>
      cases taken
      exact ⟨count, registered.frame rfl rfl rfl (fun _ => Iff.rfl), most, all⟩
    next => cases taken
  next =>
    cases taken
    exact ⟨count, registered.frame rfl rfl rfl (fun _ => Iff.rfl), most, all⟩
  next =>
    cases taken
    exact ⟨count, registered.frame rfl rfl rfl (fun _ => Iff.rfl), most, all⟩

/-- A call from outside all other calls. -/
theorem enter [DecidableEq T] {point : MainPoint T} (listed : Listed calls present numWorkers pool)
    (taken : pool.enter point = some after)
    (called : (∃ task, point = .pushing (.lock task)) ∨ point = .destroying (.test pool.workers)) :
    Listed calls present numWorkers after := by
  unfold Threads.enter at taken
  split at taken
  next ready =>
    cases taken
    rw [Listed, ready.1] at listed
    obtain ⟨count, registered, most, all⟩ := listed
    rcases called with ⟨task, rfl⟩ | rfl
    · exact ⟨count, registered.frame rfl rfl rfl (fun _ => Iff.rfl), most, all⟩
    · refine ⟨_, registered.linked.path, ?_⟩
      intro worker present
      refine .inl (List.mem_reverse.mpr (List.mem_range.mpr ?_))
      exact (registered.running worker).mp present
  next => cases taken

theorem destroy [DecidableEq T] {point : DestroyPoint} (listed : Listed calls present numWorkers pool)
    (main : pool.main = .destroying point) (taken : pool.nThreadPoolDestory point = some after) :
    Listed calls present numWorkers after := by
  rw [Listed, main] at listed
  obtain ⟨items, path, marked⟩ := listed
  unfold Threads.nThreadPoolDestory at taken
  split at taken
  case h_3 worker =>
    cases taken
    cases path with
    | @step _ rest behind =>
      refine ⟨rest, behind, ?_⟩
      intro other present
      by_cases same : other = worker
      · exact .inr (by simp [same])
      · rcases marked other present with reached | flag
        · exact .inl ((List.mem_cons.mp reached).resolve_left same)
        · exact .inr (by simpa [same] using flag)
  case h_5 =>
    split at taken
    next =>
      cases taken
      exact ⟨items, path, marked⟩
    next => cases taken
  case h_11 => cases taken
  all_goals
    cases taken
    exact ⟨items, path, marked⟩

theorem step [DecidableEq T] (listed : Listed calls present numWorkers pool) (turn : Turn calls pool after) :
    Listed calls present numWorkers after := by
  cases turn with
  | enter called taken => exact listed.enter taken called
  | create main taken => exact listed.create main taken
  | push main taken => exact listed.push main taken
  | destroy main taken => exact listed.destroy main taken
  | worker law => exact listed.frame (.of_law law)
  | finish taken => exact listed.frame (.of_finish taken)

end Listed

/-- A program that makes a pool keeps its workers in the list. -/
theorem start_listed (calls : Calls) (present : Bool) (numWorkers : Int) (links : Links T) (records : Links Nat) :
    Listed calls present numWorkers (Threads.start present numWorkers links records) :=
  ⟨rfl, rfl, rfl, rfl, fun _ => rfl⟩

end NetPrograms.Proofs.ThreadSteps
