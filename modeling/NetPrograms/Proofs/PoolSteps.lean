import NetPrograms.ThreadPool.Pool

/-! What one step of the thread pool does. -/

namespace NetPrograms.Proofs.PoolSteps
open ThreadPool

variable {n : Nat} {T : Type} [DecidableEq T]

/-- A worker that is about to take the mutex, for the first time or after a wait. -/
def Ready (pool : Pool n T) (worker : Fin n) : Prop :=
  pool.mutex = none ∧ (pool.stage worker = .locking ∨ pool.stage worker = .waiting)

inductive Law (pool : Pool n T) : Event n T → Pool n T → Prop where
  | push {task} (free : pool.mutex = none) (early : pool.destroyer = .before) (fresh : task ∉ pool.pushed) :
      Law pool (.push task) (pool.nThreadPoolPushTask task)
  | wait {worker} (ready : Ready pool worker) (idle : pool.tasks = none) :
      Law pool (.run worker) (pool.touch.setStage worker .waiting)
  | quit {worker} (ready : Ready pool worker) (terminate : pool.terminate worker) :
      Law pool (.run worker) { pool.touch.setStage worker (.unlocking none) with mutex := some worker }
  | pop {worker task} (ready : Ready pool worker) (first : pool.tasks = some task) :
      Law pool (.run worker) { pool.touch.setStage worker (.unlocking (some task)) with
        links := (pool.links.listRemove task pool.tasks).1, tasks := (pool.links.listRemove task pool.tasks).2
        mutex := some worker, popped := (worker, task) :: pool.popped }
  | leave {worker} (held : pool.stage worker = .unlocking none) :
      Law pool (.run worker) { pool.touch.setStage worker .leaving with mutex := none }
  | unlock {worker task} (held : pool.stage worker = .unlocking (some task)) :
      Law pool (.run worker) { pool.touch.setStage worker (.calling task) with mutex := none }
  | call {worker task} (ready : pool.stage worker = .calling task) :
      Law pool (.run worker)
        { pool.setStage worker (.running task) with called := (worker, task) :: pool.called }
  | free {worker} (left : pool.stage worker = .leaving) : Law pool (.run worker) (pool.setStage worker .freed)
  | finish {worker task next prev} (running : pool.stage worker = .running task) :
      Law pool (.finish worker next prev)
        { pool.setStage worker .locking with links := (pool.links.setNext task next).setPrev task prev }
  | destroy {after} (taken : pool.nThreadPoolDestory = some after) : Law pool .destroy after

theorem serve_law {pool : Pool n T} {worker : Fin n} (ready : Ready pool worker) :
    Law pool (.run worker) (pool.touch.serve worker) := by
  have tasks : pool.touch.tasks = pool.tasks := rfl
  have terminate : pool.touch.terminate = pool.terminate := rfl
  unfold Pool.serve
  rw [tasks, terminate]
  split
  next idle =>
    split
    next quits => exact .quit ready quits
    next => exact .wait ready idle
  next task first =>
    split
    next quits => exact .quit ready quits
    next => exact .pop ready first

theorem callback_law {pool after : Pool n T} {worker : Fin n} (taken : pool.nThreadPoolCallback worker = some after) :
    Law pool (.run worker) after := by
  unfold Pool.nThreadPoolCallback at taken
  split at taken
  next stage =>
    split at taken
    next free =>
      cases taken
      exact serve_law ⟨free, .inl stage⟩
    next => cases taken
  next stage =>
    split at taken
    next free =>
      cases taken
      exact serve_law ⟨free, .inr stage⟩
    next => cases taken
  next held =>
    cases taken
    exact .leave held
  next held =>
    cases taken
    exact .unlock held
  next ready =>
    cases taken
    exact .call ready
  next => cases taken
  next left =>
    cases taken
    exact .free left
  next => cases taken

theorem step_law {pool after : Pool n T} {event : Event n T} (taken : pool.step event = some after) :
    Law pool event after := by
  cases event with
  | push task =>
    simp only [Pool.step] at taken
    split at taken
    next guard =>
      cases taken
      exact .push guard.1 guard.2.1 guard.2.2
    next => cases taken
  | run worker => exact callback_law taken
  | finish worker next prev =>
    simp only [Pool.step, Pool.finish] at taken
    split at taken
    next running =>
      cases taken
      exact .finish running
    next => cases taken
  | destroy => exact .destroy taken

end NetPrograms.Proofs.PoolSteps
