import NetPrograms.Lib.Linked
import NetPrograms.Lib.Run

/-! The thread pool of threadpool.c, whose code is also that of threadpool.h in
threadpool+connpool. A critical section takes effect when the mutex is taken and
lasts until the mutex is released. Which thread goes next is in the events. -/

namespace NetPrograms.ThreadPool

/-- Where a thread is in `nThreadPoolCallback`. -/
inductive WorkerStage (T : Type) where
  | locking
  | waiting
  | unlocking (task : Option T)
  | calling (task : T)
  | running (task : T)
  | leaving
  | freed
deriving DecidableEq

/-- Where the caller is in `nThreadPoolDestory`. In the marking loop it is at the
test of the loop or before `worker = worker->next`. -/
inductive DestroyStage (n : Nat) where
  | before
  | test (worker : Option (Fin n))
  | marked (worker : Fin n)
  | clear
  | destroyMutex
  | destroyCond
  | returned
deriving DecidableEq

/-- The pool with its threads. The mutex has a holder. What was pushed, popped and
called is kept, and whether a dead object has been touched. -/
structure Pool (n : Nat) (T : Type) where
  links : Links T
  tasks : Option T
  records : Links (Fin n)
  workers : Option (Fin n)
  terminate : Fin n → Bool
  mutex : Option (Fin n)
  stage : Fin n → WorkerStage T
  destroyer : DestroyStage n
  pushed : List T
  popped : List (Fin n × T)
  called : List (Fin n × T)
  dead : Bool

inductive Event (n : Nat) (T : Type) where
  | push (task : T)
  | run (worker : Fin n)
  | finish (worker : Fin n) (next prev : Option T)
  | destroy

variable {n : Nat} {T : Type}

/-- `LIST_INSERT` of the worker of each turn of the loop in `nThreadPoolCreate`. -/
def workerList (n : Nat) : Links (Fin n) × Option (Fin n) :=
  (List.finRange n).foldl (fun list worker => list.1.listInsert worker list.2) (⟨fun _ => none, fun _ => none⟩, none)

/-- `memset(worker, 0, sizeof(worker))` clears the size of a pointer, so the field
`terminate` keeps what was in the memory. -/
def nThreadPoolCreate (terminate : Fin n → Bool) (links : Links T) : Pool n T where
  links
  tasks := none
  records := (workerList n).1
  workers := (workerList n).2
  terminate
  mutex := none
  stage _ := .locking
  destroyer := .before
  pushed := []
  popped := []
  called := []
  dead := false

namespace Pool

def setStage (pool : Pool n T) (worker : Fin n) (stage : WorkerStage T) : Pool n T :=
  { pool with stage := Function.update pool.stage worker stage }

def mutexDestroyed (pool : Pool n T) : Bool :=
  match pool.destroyer with
  | .destroyCond | .returned => true
  | _ => false

/-- A call of a mutex or condition variable function by a worker. -/
def touch (pool : Pool n T) : Pool n T :=
  { pool with dead := pool.dead || pool.mutexDestroyed }

variable [DecidableEq T]

def nThreadPoolPushTask (pool : Pool n T) (task : T) : Pool n T :=
  let list := pool.links.listInsert task pool.tasks
  { pool with links := list.1, tasks := list.2, pushed := task :: pool.pushed }

/-- From the test `tasks == NULL` with the mutex taken to the next call of a mutex
or condition variable function, which is the wait or the unlock. -/
def serve (pool : Pool n T) (worker : Fin n) : Pool n T :=
  match pool.tasks with
  | none =>
    if pool.terminate worker then
      { pool.setStage worker (.unlocking none) with mutex := some worker }
    else
      pool.setStage worker .waiting
  | some task =>
    if pool.terminate worker then
      { pool.setStage worker (.unlocking none) with mutex := some worker }
    else
      let list := pool.links.listRemove task pool.tasks
      { pool.setStage worker (.unlocking (some task)) with
        links := list.1, tasks := list.2, mutex := some worker, popped := (worker, task) :: pool.popped }

/-- The next step of a worker, up to the end of a task. A wait may end at any time. -/
def nThreadPoolCallback (pool : Pool n T) (worker : Fin n) : Option (Pool n T) :=
  match pool.stage worker with
  | .locking | .waiting => if pool.mutex = none then some (pool.touch.serve worker) else none
  | .unlocking none => some { pool.touch.setStage worker .leaving with mutex := none }
  | .unlocking (some task) => some { pool.touch.setStage worker (.calling task) with mutex := none }
  | .calling task => some { pool.setStage worker (.running task) with called := (worker, task) :: pool.called }
  | .running _ => none
  | .leaving => some (pool.setStage worker .freed)
  | .freed => none

/-- The end of `task_func`, which has freed the task. -/
def finish (pool : Pool n T) (worker : Fin n) (next prev : Option T) : Option (Pool n T) :=
  match pool.stage worker with
  | .running task =>
    some { pool.setStage worker .locking with links := (pool.links.setNext task next).setPrev task prev }
  | _ => none

/-- The next step of `nThreadPoolDestory`. The broadcast wakes waits that may end
at any time, so its critical section only waits for the mutex. -/
def nThreadPoolDestory (pool : Pool n T) : Option (Pool n T) :=
  match pool.destroyer with
  | .before => some { pool with destroyer := .test pool.workers }
  | .test (some worker) =>
    some { pool with terminate := Function.update pool.terminate worker true, destroyer := .marked worker }
  | .marked worker =>
    some { pool with destroyer := .test (pool.records.next worker)
                     dead := pool.dead || pool.stage worker = .freed }
  | .test none => if pool.mutex = none then some { pool with destroyer := .clear } else none
  | .clear => some { pool with workers := none, tasks := none, destroyer := .destroyMutex }
  | .destroyMutex => some { pool with destroyer := .destroyCond }
  | .destroyCond => some { pool with destroyer := .returned }
  | .returned => none

/-- The tasks are distinct and are pushed by the thread that destroys the pool. -/
def step (pool : Pool n T) : Event n T → Option (Pool n T)
  | .push task =>
    if pool.mutex = none ∧ pool.destroyer = .before ∧ task ∉ pool.pushed then
      some (pool.nThreadPoolPushTask task)
    else none
  | .run worker => pool.nThreadPoolCallback worker
  | .finish worker next prev => pool.finish worker next prev
  | .destroy => pool.nThreadPoolDestory

end Pool
end NetPrograms.ThreadPool
