import NetPrograms.Proofs.PoolSteps

/-! Until the pool is destroyed every pushed task is in the list or was popped by
one worker, who alone calls it. -/

namespace NetPrograms.Proofs.PoolTasks
open ThreadPool PoolSteps

variable {n : Nat} {T : Type}

/-- The task a worker has popped and not finished. -/
def inHand : WorkerStage T → Option T
  | .unlocking task => task
  | .calling task | .running task => some task
  | _ => none

/-- The task a worker has popped and not called. -/
def owed : WorkerStage T → Option T
  | .unlocking task => task
  | .calling task => some task
  | _ => none

theorem owed_inHand {stage : WorkerStage T} {task : T} (debt : owed stage = some task) : inHand stage = some task := by
  cases stage with
  | unlocking | calling => exact debt
  | _ => cases debt

theorem held_update {stages : Fin n → WorkerStage T} {worker other : Fin n} {stage : WorkerStage T} {task : T}
    {held : WorkerStage T → Option T} (has : held (Function.update stages worker stage other) = some task) :
    other = worker ∧ held stage = some task ∨ other ≠ worker ∧ held (stages other) = some task := by
  by_cases same : other = worker
  · subst same
    rw [Function.update_self] at has
    exact .inl ⟨rfl, has⟩
  · rw [Function.update_of_ne same] at has
    exact .inr ⟨same, has⟩

/-- The tasks that the events of a run push. -/
def pushes (events : List (Event n T)) : List T :=
  events.filterMap fun
    | .push task => some task
    | _ => none

structure HandsOut (pushed : List T) (pool : Pool n T) : Prop where
  split : ∃ items, Linked pool.links pool.tasks items ∧ (items ++ pool.popped.map Prod.snd).Perm pushed
  distinct : pushed.Nodup
  poppedOnce : (pool.popped.map Prod.snd).Nodup
  calledOnce : (pool.called.map Prod.snd).Nodup
  byPopper : ∀ call ∈ pool.called, call ∈ pool.popped

structure Valid (pool : Pool n T) : Prop where
  linked : ∃ items, Linked pool.links pool.tasks items ∧ (items ++ pool.popped.map Prod.snd).Perm pool.pushed
  distinct : pool.pushed.Nodup
  popped : ∀ worker task, inHand (pool.stage worker) = some task → (worker, task) ∈ pool.popped
  owing : ∀ worker task, owed (pool.stage worker) = some task → task ∉ pool.called.map Prod.snd
  byPopper : ∀ call ∈ pool.called, call ∈ pool.popped
  calledOnce : (pool.called.map Prod.snd).Nodup

namespace Valid
variable {pool : Pool n T} (valid : Valid pool)
include valid

theorem apart : ∃ items, Linked pool.links pool.tasks items ∧
    (items ++ pool.popped.map Prod.snd).Perm pool.pushed ∧ (items ++ pool.popped.map Prod.snd).Nodup := by
  obtain ⟨items, linked, perm⟩ := valid.linked
  exact ⟨items, linked, perm, perm.nodup_iff.mpr valid.distinct⟩

theorem poppedOnce : (pool.popped.map Prod.snd).Nodup := by
  obtain ⟨items, -, -, nodup⟩ := valid.apart
  exact (List.nodup_append.mp nodup).2.1

theorem popper {worker other : Fin n} {task : T} (popped : (worker, task) ∈ pool.popped)
    (again : (other, task) ∈ pool.popped) : worker = other := by
  have same := List.inj_on_of_nodup_map valid.poppedOnce popped again rfl
  exact congrArg Prod.fst same

theorem handsOut {pushed : List T} (same : pool.pushed.Perm pushed) : HandsOut pushed pool := by
  obtain ⟨items, linked, perm⟩ := valid.linked
  exact ⟨⟨items, linked, perm.trans same⟩, same.nodup_iff.mp valid.distinct, valid.poppedOnce, valid.calledOnce,
    valid.byPopper⟩

/-- A step after which the worker has no other task than before. -/
theorem moved {worker : Fin n} {stage : WorkerStage T} (hand : inHand stage ∈ [none, inHand (pool.stage worker)])
    (debt : owed stage ∈ [none, owed (pool.stage worker)]) : Valid (pool.setStage worker stage) := by
  refine ⟨valid.linked, valid.distinct, ?_, ?_, valid.byPopper, valid.calledOnce⟩
  · intro other task held
    rcases held_update held with ⟨rfl, here⟩ | ⟨-, earlier⟩
    · rw [here] at hand
      exact valid.popped other task (by simpa [eq_comm] using hand)
    · exact valid.popped other task earlier
  · intro other task held
    rcases held_update held with ⟨rfl, here⟩ | ⟨-, earlier⟩
    · rw [here] at debt
      exact valid.owing other task (by simpa [eq_comm] using debt)
    · exact valid.owing other task earlier

theorem touch : Valid pool.touch :=
  ⟨valid.linked, valid.distinct, valid.popped, valid.owing, valid.byPopper, valid.calledOnce⟩

theorem mutex (holder : Option (Fin n)) : Valid { pool with mutex := holder } :=
  ⟨valid.linked, valid.distinct, valid.popped, valid.owing, valid.byPopper, valid.calledOnce⟩

theorem push [DecidableEq T] {task : T} (fresh : task ∉ pool.pushed) : Valid (pool.nThreadPoolPushTask task) := by
  refine ⟨?_, List.nodup_cons.mpr ⟨fresh, valid.distinct⟩, valid.popped, valid.owing, valid.byPopper, valid.calledOnce⟩
  obtain ⟨items, linked, perm⟩ := valid.linked
  have outside : task ∉ items := by
    intro member
    exact fresh (perm.mem_iff.mp (List.mem_append_left _ member))
  exact ⟨task :: items, linked.insert outside, perm.cons task⟩

theorem pop [DecidableEq T] {worker : Fin n} {task : T} (first : pool.tasks = some task) :
    Valid { pool.touch.setStage worker (.unlocking (some task)) with
      links := (pool.links.listRemove task pool.tasks).1, tasks := (pool.links.listRemove task pool.tasks).2
      mutex := some worker, popped := (worker, task) :: pool.popped } := by
  obtain ⟨items, linked, perm, nodup⟩ := valid.apart
  obtain ⟨rest, rfl⟩ : ∃ rest, items = task :: rest := by
    apply List.head?_eq_some_iff.mp
    rw [← linked.head, first]
  have unpopped : task ∉ pool.popped.map Prod.snd := by
    intro member
    exact (List.nodup_append.mp nodup).2.2 task List.mem_cons_self task member rfl
  have front : Linked pool.links pool.tasks ([] ++ task :: rest) := linked
  refine ⟨⟨rest, front.remove, ?_⟩, valid.distinct, ?_, ?_, ?_, valid.calledOnce⟩
  · exact List.perm_middle.trans perm
  · intro other taken held
    rcases held_update held with ⟨rfl, here⟩ | ⟨-, earlier⟩
    · cases here
      exact List.mem_cons_self
    · exact List.mem_cons_of_mem _ (valid.popped other taken earlier)
  · intro other taken held
    rcases held_update held with ⟨rfl, here⟩ | ⟨-, earlier⟩
    · cases here
      intro member
      obtain ⟨call, called, here⟩ := List.mem_map.mp member
      exact unpopped (List.mem_map.mpr ⟨call, valid.byPopper call called, here⟩)
    · exact valid.owing other taken earlier
  · intro call member
    exact List.mem_cons_of_mem _ (valid.byPopper call member)

theorem call {worker : Fin n} {task : T} (ready : pool.stage worker = .calling task) :
    Valid { pool.setStage worker (.running task) with called := (worker, task) :: pool.called } := by
  have popped : (worker, task) ∈ pool.popped := valid.popped worker task (by rw [ready]; rfl)
  have uncalled : task ∉ pool.called.map Prod.snd := valid.owing worker task (by rw [ready]; rfl)
  refine ⟨valid.linked, valid.distinct, ?_, ?_, ?_, List.nodup_cons.mpr ⟨uncalled, valid.calledOnce⟩⟩
  · intro other taken held
    rcases held_update held with ⟨rfl, here⟩ | ⟨-, earlier⟩
    · cases here
      exact popped
    · exact valid.popped other taken earlier
  · intro other taken held member
    rcases held_update held with ⟨rfl, here⟩ | ⟨apart, earlier⟩
    · cases here
    · rcases List.mem_cons.mp member with here | before
      · -- Two workers would have popped one task.
        subst here
        exact apart (valid.popper (valid.popped other taken (owed_inHand earlier)) popped)
      · exact valid.owing other taken earlier before
  · intro call member
    cases member with
    | head => exact popped
    | tail _ earlier => exact valid.byPopper call earlier

theorem finish [DecidableEq T] {worker : Fin n} {task : T} (running : pool.stage worker = .running task)
    (next prev : Option T) :
    Valid { pool.setStage worker .locking with links := (pool.links.setNext task next).setPrev task prev } := by
  have stays : Valid (pool.setStage worker .locking) := valid.moved (by simp [inHand]) (by simp [owed])
  refine ⟨?_, stays.distinct, stays.popped, stays.owing, stays.byPopper, stays.calledOnce⟩
  obtain ⟨items, linked, perm, nodup⟩ := valid.apart
  refine ⟨items, linked.congr ?_, perm⟩
  intro other member
  have apart : other ≠ task := by
    rintro rfl
    have popped : (worker, other) ∈ pool.popped := valid.popped worker other (by rw [running]; rfl)
    exact (List.nodup_append.mp nodup).2.2 other member other (List.mem_map.mpr ⟨_, popped, rfl⟩) rfl
  exact ⟨Function.update_of_ne apart .., Function.update_of_ne apart ..⟩

end Valid

theorem create_valid (terminate : Fin n → Bool) (links : Links T) : Valid (nThreadPoolCreate terminate links) := by
  refine ⟨⟨[], Linked.empty links, .refl _⟩, List.nodup_nil, ?_, ?_, ?_, List.nodup_nil⟩
  · intro worker task held
    cases held
  · intro worker task held
    cases held
  · intro call member
    cases member

section run
variable [DecidableEq T] {before after : Pool n T} {event : Event n T}

theorem destroy_closed {pool after : Pool n T} (taken : pool.nThreadPoolDestory = some after) :
    after.destroyer ≠ .before := by
  unfold Pool.nThreadPoolDestory at taken
  split at taken <;> try split at taken
  all_goals
    cases taken
    try simp

theorem still_early (law : Law before event after) (early : after.destroyer = .before) : before.destroyer = .before := by
  cases law with
  | destroy taken => exact absurd early (destroy_closed taken)
  | _ => exact early

theorem law_valid (valid : Valid before) (law : Law before event after) (early : after.destroyer = .before) :
    Valid after := by
  cases law with
  | push free early fresh => exact valid.push fresh
  | wait ready idle => exact valid.touch.moved (by simp [inHand]) (by simp [owed])
  | quit ready terminate => exact (valid.touch.moved (by simp [inHand]) (by simp [owed])).mutex _
  | pop ready first => exact valid.pop first
  | leave held => exact (valid.touch.moved (by simp [inHand]) (by simp [owed])).mutex none
  | unlock held =>
    apply Valid.mutex _ none
    apply valid.touch.moved
    · simp [inHand, Pool.touch, held]
    · simp [owed, Pool.touch, held]
  | call ready => exact valid.call ready
  | free left => exact valid.moved (by simp [inHand]) (by simp [owed])
  | finish running => exact valid.finish running _ _
  | destroy taken => exact absurd early (destroy_closed taken)

theorem destroy_pushed {pool after : Pool n T} (taken : pool.nThreadPoolDestory = some after) :
    after.pushed = pool.pushed := by
  unfold Pool.nThreadPoolDestory at taken
  split at taken <;> try split at taken
  all_goals
    cases taken
    try rfl

theorem law_pushed (law : Law before event after) : after.pushed = (pushes [event]).reverse ++ before.pushed := by
  cases law with
  | destroy taken => exact destroy_pushed taken
  | _ => rfl

/-- What the pool keeps as pushed are the pushes of the run, the last one first. -/
theorem run_pushed {terminate : Fin n → Bool} {links : Links T} {events : List (Event n T)} {last : Pool n T}
    (reached : exec Pool.step (nThreadPoolCreate terminate links) events = some last) :
    last.pushed = (pushes events).reverse := by
  have run := Run.of_exec reached
  clear reached
  induction run with
  | start => rfl
  | @next events before event after _ step ih =>
    have whole : pushes (events ++ [event]) = pushes events ++ pushes [event] := List.filterMap_append
    rw [law_pushed (step_law step), ih, whole, List.reverse_append]

/-- As long as the pool is not destroyed, each task of the run's pushes is in the list
or was popped once, and it is called at most once, by the worker that popped it. -/
theorem every_task_once (terminate : Fin n → Bool) (links : Links T) (events : List (Event n T)) (last : Pool n T)
    (reached : exec Pool.step (nThreadPoolCreate terminate links) events = some last)
    (early : last.destroyer = .before) : HandsOut (pushes events) last := by
  have invariant : last.destroyer = .before → Valid last := by
    apply (Run.of_exec reached).invariant (fun pool => pool.destroyer = .before → Valid pool)
    · exact fun _ => create_valid terminate links
    · intro before event after held step early
      have law := step_law step
      exact law_valid (held (still_early law early)) law early
  apply (invariant early).handsOut
  rw [run_pushed reached]
  exact List.reverse_perm _

/-- One worker waits, pops the second task and calls it while the other pops the first. -/
def twoTasks {n : Nat} (first second : Fin n) : List (Event n Nat) :=
  [.run first, .push 1, .push 2, .run first, .run first, .run first, .run second]

theorem two_tasks_once : ∃ last : Pool 2 Nat,
    exec Pool.step (nThreadPoolCreate (fun _ => false) ⟨fun _ => none, fun _ => none⟩) (twoTasks 0 1) = some last ∧
      HandsOut [1, 2] last ∧ last.called = [(0, 2)] ∧ last.tasks = none :=
  ⟨_, rfl, every_task_once (fun _ => false) ⟨fun _ => none, fun _ => none⟩ (twoTasks 0 1) _ rfl rfl, rfl, rfl⟩

end run
end NetPrograms.Proofs.PoolTasks
