import NetPrograms.Lib.Block
import NetPrograms.Lib.ByteOrder
import NetPrograms.Lib.Linked
import NetPrograms.Lib.Run

/-! The threads of threadpool.c, one access to the shared memory after the other. The
workers run while the pool is made, and `pool->tasks` is cleared without the mutex.
A record that is freed keeps its fields and a destroyed mutex goes on excluding. -/

namespace NetPrograms.ThreadPool

/-- The memory of a `struct nWorker` on a 64-bit ABI: `threadid`, `terminate` with
its padding, `manager`, `prev` and `next`, of eight bytes each. -/
structure Record where
  bytes : List UInt8
  size : bytes.length = 40
deriving DecidableEq

/-- The bytes of the field `terminate`. -/
def Record.flag (record : Record) : List UInt8 := Block.slice record.bytes 8 4

theorem Record.memset_size (record : Record) : (Block.overlay record.bytes 0 (List.replicate 8 0)).length = 40 := by
  have inside : 0 + (List.replicate 8 (0 : UInt8)).length ≤ record.bytes.length := by simp [record.size]
  rw [Block.overlay_length inside, record.size]

/-- `memset(worker, 0, sizeof(worker))`, which clears the size of a pointer. -/
def Record.memset (record : Record) : Record where
  bytes := Block.overlay record.bytes 0 (List.replicate 8 0)
  size := record.memset_size

def Record.terminate (record : Record) : Nat := ofLittleEndian record.flag

/-- What `malloc` and `pthread_create` return in each turn of `nThreadPoolCreate`. -/
structure Calls where
  malloc : Nat → Option Record
  pthread_create : Nat → Int

/-- Where a thread is in `nThreadPoolCallback`. `LIST_REMOVE` compares the head,
moves it on and then changes the links. -/
inductive WorkerPoint (T : Type) where
  | absent
  | lock
  | testTasks
  | testBreak
  | wait
  | waiting
  | testTerminate
  | unlockTerminated
  | readHead
  | compareHead (task : Option T)
  | moveHead (task : T)
  | changeLinks (task : T)
  | unlock (task : T)
  | call (task : T)
  | running (task : T)
  | free
  | freed
deriving DecidableEq

inductive CreatePoint where
  | enter (present : Bool) (numWorkers : Int)
  | test (i : Nat) (numWorkers : Int)
  | insert (i : Nat) (numWorkers : Int)
deriving DecidableEq

inductive PushPoint (T : Type) where
  | lock (task : T)
  | insert (task : T)
  | unlock
deriving DecidableEq

inductive DestroyPoint where
  | test (worker : Option Nat)
  | mark (worker : Nat)
  | next (worker : Nat)
  | lock
  | unlock
  | clearWorkers
  | clearTasks
  | destroyMutex
  | destroyCond
  | returned
deriving DecidableEq

/-- Where the thread is that makes the pool, pushes the tasks and destroys the pool. -/
inductive MainPoint (T : Type) where
  | creating (point : CreatePoint)
  | idle
  | pushing (point : PushPoint T)
  | destroying (point : DestroyPoint)
deriving DecidableEq

/-- The destroyer has released the mutex. -/
def MainPoint.released {T : Type} : MainPoint T → Bool
  | .destroying .clearWorkers | .destroying .clearTasks | .destroying .destroyMutex | .destroying .destroyCond
  | .destroying .returned => true
  | _ => false

inductive Holder where
  | main
  | worker (worker : Nat)
deriving DecidableEq

/-- A worker is the turn of `nThreadPoolCreate` that made its record. What
`nThreadPoolCreate` returned is kept, and what was pushed and removed. -/
structure Threads (T : Type) where
  links : Links T
  tasks : Option T
  records : Links Nat
  workers : Option Nat
  terminate : Nat → Nat
  mutex : Option Holder
  point : Nat → WorkerPoint T
  main : MainPoint T
  created : Option Int
  pushed : List T
  popped : List (Nat × T)
  crashed : Bool

inductive Action (T : Type) where
  | push (task : T)
  | destroy
  | main
  | worker (worker : Nat)
  | finish (worker : Nat) (next prev : Option T)

namespace Threads
variable {T : Type}

/-- The program before it calls `nThreadPoolCreate(pool, numWorkers)`. -/
def start (present : Bool) (numWorkers : Int) (links : Links T) (records : Links Nat) : Threads T where
  links
  tasks := none
  records
  workers := none
  terminate _ := 0
  mutex := none
  point _ := .absent
  main := .creating (.enter present numWorkers)
  created := none
  pushed := []
  popped := []
  crashed := false

def goto (pool : Threads T) (worker : Nat) (point : WorkerPoint T) : Threads T :=
  { pool with point := Function.update pool.point worker point }

variable [DecidableEq T]

/-- The next access of a worker, up to the end of a task. A wait may end at any time,
and a null pointer that is followed ends the program. -/
def nThreadPoolCallback (pool : Threads T) (worker : Nat) : Option (Threads T) :=
  match pool.point worker with
  | .absent => none
  | .lock | .waiting =>
    if pool.mutex = none then some { pool.goto worker .testTasks with mutex := some (.worker worker) } else none
  | .testTasks => some (pool.goto worker (if pool.tasks = none then .testBreak else .testTerminate))
  | .testBreak => some (pool.goto worker (if pool.terminate worker ≠ 0 then .testTerminate else .wait))
  | .wait => some { pool.goto worker .waiting with mutex := none }
  | .testTerminate => some (pool.goto worker (if pool.terminate worker ≠ 0 then .unlockTerminated else .readHead))
  | .unlockTerminated => some { pool.goto worker .free with mutex := none }
  | .readHead => some (pool.goto worker (.compareHead pool.tasks))
  | .compareHead none => some { pool with crashed := true }
  | .compareHead (some task) =>
    some (pool.goto worker (if pool.tasks = some task then .moveHead task else .changeLinks task))
  | .moveHead task =>
    match pool.tasks with
    | none => some { pool with crashed := true }
    | some head => some { pool.goto worker (.changeLinks task) with tasks := pool.links.next head }
  | .changeLinks task =>
    some { pool.goto worker (.unlock task) with
      links := (pool.links.listRemove task none).1, popped := (worker, task) :: pool.popped }
  | .unlock task => some { pool.goto worker (.call task) with mutex := none }
  | .call task => some (pool.goto worker (.running task))
  | .running _ => none
  | .free => some (pool.goto worker .freed)
  | .freed => none

/-- The end of `task_func`, which has freed the task. -/
def finish (pool : Threads T) (worker : Nat) (next prev : Option T) : Option (Threads T) :=
  match pool.point worker with
  | .running task =>
    some { pool.goto worker .lock with links := (pool.links.setNext task next).setPrev task prev }
  | _ => none

/-- A return of `nThreadPoolCreate`. -/
def leave (pool : Threads T) (code : Int) : Threads T :=
  { pool with main := .idle, created := some code }

/-- A thread that `pthread_create` starts runs before its record is in the list. -/
def nThreadPoolCreate (calls : Calls) (pool : Threads T) : CreatePoint → Option (Threads T)
  | .enter false _ => some (pool.leave (-1))
  | .enter true numWorkers =>
    let numWorkers := if numWorkers < 1 then 1 else numWorkers
    some { pool with tasks := none, workers := none, mutex := none, main := .creating (.test 0 numWorkers) }
  | .test i numWorkers =>
    if i < numWorkers then
      match calls.malloc i with
      | none => some (pool.leave (-2))
      | some record =>
        if calls.pthread_create i = 0 then
          some { pool.goto i .lock with
            terminate := Function.update pool.terminate i record.memset.terminate
            main := .creating (.insert i numWorkers) }
        else
          some (pool.leave (-3))
    else
      some (pool.leave 0)
  | .insert i numWorkers =>
    let list := pool.records.listInsert i pool.workers
    some { pool with records := list.1, workers := list.2, main := .creating (.test (i + 1) numWorkers) }

def nThreadPoolPushTask (pool : Threads T) : PushPoint T → Option (Threads T)
  | .lock task =>
    if pool.mutex = none then some { pool with mutex := some .main, main := .pushing (.insert task) } else none
  | .insert task =>
    let list := pool.links.listInsert task pool.tasks
    some { pool with links := list.1, tasks := list.2, pushed := task :: pool.pushed, main := .pushing .unlock }
  | .unlock => some { pool with mutex := none, main := .idle }

/-- The broadcast wakes waits that may end at any time. -/
def nThreadPoolDestory (pool : Threads T) : DestroyPoint → Option (Threads T)
  | .test none => some { pool with main := .destroying .lock }
  | .test (some worker) => some { pool with main := .destroying (.mark worker) }
  | .mark worker =>
    some { pool with terminate := Function.update pool.terminate worker 1, main := .destroying (.next worker) }
  | .next worker => some { pool with main := .destroying (.test (pool.records.next worker)) }
  | .lock =>
    if pool.mutex = none then some { pool with mutex := some .main, main := .destroying .unlock } else none
  | .unlock => some { pool with mutex := none, main := .destroying .clearWorkers }
  | .clearWorkers => some { pool with workers := none, main := .destroying .clearTasks }
  | .clearTasks => some { pool with tasks := none, main := .destroying .destroyMutex }
  | .destroyMutex => some { pool with main := .destroying .destroyCond }
  | .destroyCond => some { pool with main := .destroying .returned }
  | .returned => none

/-- The next access of the call that the main thread is in. -/
def mainStep (calls : Calls) (pool : Threads T) : Option (Threads T) :=
  match pool.main with
  | .creating point => pool.nThreadPoolCreate calls point
  | .idle => none
  | .pushing point => pool.nThreadPoolPushTask point
  | .destroying point => pool.nThreadPoolDestory point

/-- A call of the main thread, which calls nothing with the null pointer that
`nThreadPoolCreate` has refused. -/
def enter (pool : Threads T) (point : MainPoint T) : Option (Threads T) :=
  if pool.main = .idle ∧ pool.created ≠ some (-1) then some { pool with main := point } else none

/-- The tasks are distinct and are pushed by the thread that destroys the pool. -/
def step (calls : Calls) (pool : Threads T) (action : Action T) : Option (Threads T) :=
  if pool.crashed then
    none
  else
    match action with
    | .push task => if task ∈ pool.pushed then none else pool.enter (.pushing (.lock task))
    | .destroy => pool.enter (.destroying (.test pool.workers))
    | .main => pool.mainStep calls
    | .worker worker => pool.nThreadPoolCallback worker
    | .finish worker next prev => pool.finish worker next prev

end Threads
end NetPrograms.ThreadPool
