import NetPrograms.Proofs.ThreadSteps

/-! `nThreadPoolDestory` clears the list of the tasks without the mutex. A worker that
takes the mutex after the destroyer finds its flag set before it looks at the list. -/

namespace NetPrograms.Proofs.PoolClearing
open ThreadPool ThreadSteps

variable {T : Type}

/-- The points between the lock and the unlock, of a worker and of the main thread. -/
def inside : WorkerPoint T → Bool
  | .testTasks | .testBreak | .wait | .testTerminate | .unlockTerminated | .readHead | .compareHead _ | .moveHead _
  | .changeLinks _ | .unlock _ => true
  | _ => false

def holding : MainPoint T → Bool
  | .pushing (.insert _) | .pushing .unlock | .destroying .unlock => true
  | _ => false

/-- What a worker knows that is going to use the head of the list. -/
def Fits (tasks : Option T) (flag released : Prop) : WorkerPoint T → Prop
  | .testTerminate => tasks ≠ none ∨ flag
  | .readHead => tasks ≠ none ∧ ¬ released
  | .compareHead task => task = tasks ∧ tasks ≠ none ∧ ¬ released
  | .moveHead task => tasks = some task ∧ ¬ released
  | .changeLinks _ => ¬ released
  | _ => True

theorem outside_fits {tasks : Option T} {flag released : Prop} {point : WorkerPoint T} (outside : inside point = false) :
    Fits tasks flag released point := by
  cases point <;> trivial

theorem Fits.flagged {tasks : Option T} {flag set released : Prop} {point : WorkerPoint T}
    (fits : Fits tasks flag released point) (kept : flag → set) : Fits tasks set released point := by
  cases point with
  | testTerminate => exact fits.imp_right kept
  | _ => exact fits

/-- The list is cleared when no worker uses its head any more. -/
theorem Fits.cleared {tasks : Option T} {flag released : Prop} {point : WorkerPoint T} (fits : Fits tasks flag released point)
    (now : released) (marked : point ≠ .absent → flag) : Fits none flag released point := by
  cases point with
  | testTerminate => exact .inr (marked nofun)
  | readHead => exact absurd now fits.2
  | compareHead => exact absurd now fits.2.2
  | moveHead => exact absurd now fits.2
  | _ => exact fits

/-- The order of the shutdown: all flags are set before the mutex is released. -/
theorem released_marked {calls : Calls} {present : Bool} {numWorkers : Int} {pool : Threads T}
    (listed : Listed calls present numWorkers pool)
    (released : pool.main.released) {worker : Nat} (started : pool.point worker ≠ .absent) : pool.terminate worker ≠ 0 := by
  unfold MainPoint.released at released
  split at released
  case h_6 => cases released
  all_goals
    next main =>
    rw [Listed, main] at listed
    obtain ⟨items, path, marked⟩ := listed
    cases path
    exact (marked worker started).resolve_left List.not_mem_nil

structure Sound (pool : Threads T) : Prop where
  holder : ∀ worker, inside (pool.point worker) → pool.mutex = some (.worker worker)
  main : holding pool.main → pool.mutex = some .main
  fits : ∀ worker, Fits pool.tasks (pool.terminate worker ≠ 0) pool.main.released (pool.point worker)
  alive : pool.crashed = false

namespace Sound
variable {pool after : Threads T} {worker : Nat} {point : WorkerPoint T}

/-- While another thread holds the mutex a worker is outside. -/
theorem outside (sound : Sound pool) (other : pool.mutex ≠ some (.worker worker)) : inside (pool.point worker) = false :=
  Bool.eq_false_iff.mpr fun held => other (sound.holder worker held)

/-- A step of a worker in its critical section. -/
theorem within (sound : Sound pool) (held : inside (pool.point worker))
    (moved : after.point = Function.update pool.point worker point) (main : after.main = pool.main)
    (terminate : after.terminate = pool.terminate) (alive : after.crashed = pool.crashed)
    (mutex : after.mutex = if inside point then some (.worker worker) else none)
    (fits : Fits after.tasks (pool.terminate worker ≠ 0) pool.main.released point) : Sound after := by
  have taken : pool.mutex = some (.worker worker) := sound.holder worker held
  have others : ∀ other, other ≠ worker → inside (pool.point other) = false := by
    intro other apart
    apply sound.outside
    simp [taken, Ne.symm apart]
  refine ⟨?_, ?_, ?_, alive.trans sound.alive⟩
  · intro other within
    rw [moved] at within
    by_cases same : other = worker
    · subst same
      rw [Function.update_self] at within
      rw [mutex, if_pos within]
    · rw [Function.update_of_ne same, others other same] at within
      cases within
  · intro holds
    rw [main] at holds
    simp [sound.main holds] at taken
  · intro other
    rw [moved, terminate, main]
    by_cases same : other = worker
    · subst same
      rw [Function.update_self]
      exact fits
    · rw [Function.update_of_ne same]
      exact outside_fits (others other same)

theorem moved (sound : Sound pool) (held : inside (pool.point worker)) (stays : inside point)
    (fits : Fits pool.tasks (pool.terminate worker ≠ 0) pool.main.released point) : Sound (pool.goto worker point) := by
  refine sound.within held rfl rfl rfl rfl ?_ fits
  rw [if_pos stays]
  exact sound.holder worker held

theorem left (sound : Sound pool) (held : inside (pool.point worker)) (leaves : inside point = false) :
    Sound { pool.goto worker point with mutex := none } :=
  sound.within held rfl rfl rfl rfl (by simp [leaves]) (outside_fits leaves)

/-- A step that takes a worker to a point outside. -/
theorem without (sound : Sound pool) (moved : after.point = Function.update pool.point worker point)
    (main : holding after.main = holding pool.main) (released : after.main.released = pool.main.released)
    (terminate : ∀ other ≠ worker, after.terminate other = pool.terminate other) (alive : after.crashed = pool.crashed)
    (mutex : after.mutex = pool.mutex) (tasks : after.tasks = pool.tasks) (stays : inside point = false) :
    Sound after := by
  refine ⟨?_, ?_, ?_, alive.trans sound.alive⟩
  · intro other within
    rw [moved] at within
    by_cases same : other = worker
    · rw [same, Function.update_self, stays] at within
      cases within
    · rw [Function.update_of_ne same] at within
      rw [mutex]
      exact sound.holder other within
  · rw [main, mutex]
    exact sound.main
  · intro other
    rw [moved, released, tasks]
    by_cases same : other = worker
    · rw [same, Function.update_self]
      exact outside_fits stays
    · rw [Function.update_of_ne same, terminate other same]
      exact sound.fits other

theorem lock (sound : Sound pool) (free : pool.mutex = none) :
    Sound { pool.goto worker .testTasks with mutex := some (.worker worker) } := by
  have nobody : ∀ other, inside (pool.point other) = false := fun other => sound.outside (by simp [free])
  refine ⟨?_, ?_, ?_, sound.alive⟩
  · intro other within
    by_cases same : other = worker
    · rw [same]
    · simp [Threads.goto, same, nobody other] at within
  · intro holds
    simp [sound.main holds] at free
  · intro other
    by_cases same : other = worker
    · simp [Threads.goto, same, Fits]
    · simpa [Threads.goto, same] using outside_fits (nobody other)

theorem callback [DecidableEq T] {calls : Calls} {present : Bool} {numWorkers : Int} (sound : Sound pool)
    (listed : Listed calls present numWorkers pool) (law : Law pool worker after) : Sound after := by
  have known := sound.fits worker
  cases law with
  | lock free => exact sound.lock free
  | found now some => exact sound.moved (by rw [now]; rfl) rfl (.inl some)
  | empty now => exact sound.moved (by rw [now]; rfl) rfl trivial
  | broken now flag => exact sound.moved (by rw [now]; rfl) rfl (.inr flag)
  | idle now => exact sound.moved (by rw [now]; rfl) rfl trivial
  | wait now => exact sound.left (by rw [now]; rfl) rfl
  | quit now flag => exact sound.moved (by rw [now]; rfl) rfl trivial
  | serve now clear =>
    have early : ¬ pool.main.released := fun released => released_marked listed released (by simp [now]) clear
    rw [now] at known
    exact sound.moved (by rw [now]; rfl) rfl ⟨known.resolve_right (not_not.mpr clear), early⟩
  | leave now => exact sound.left (by rw [now]; rfl) rfl
  | read now =>
    rw [now] at known
    exact sound.moved (by rw [now]; rfl) rfl ⟨rfl, known⟩
  | null now =>
    rw [now] at known
    exact absurd known.1.symm known.2.1
  | first now first =>
    rw [now] at known
    exact sound.moved (by rw [now]; rfl) rfl ⟨first, known.2.2⟩
  | inner now other =>
    rw [now] at known
    exact absurd known.1.symm other
  | lost now cleared =>
    rw [now, cleared] at known
    cases known.1
  | move now first =>
    rw [now] at known
    refine sound.within (by rw [now]; rfl) rfl rfl rfl rfl ?_ known.2
    exact sound.holder worker (by rw [now]; rfl)
  | remove now =>
    refine sound.within (by rw [now]; rfl) rfl rfl rfl rfl ?_ trivial
    exact sound.holder worker (by rw [now]; rfl)
  | unlock now => exact sound.left (by rw [now]; rfl) rfl
  | call now => exact sound.without rfl rfl rfl (fun _ _ => rfl) rfl rfl rfl rfl
  | free now => exact sound.without rfl rfl rfl (fun _ _ => rfl) rfl rfl rfl rfl

theorem finish [DecidableEq T] {next prev : Option T} (sound : Sound pool)
    (taken : pool.finish worker next prev = some after) : Sound after := by
  unfold Threads.finish at taken
  split at taken
  next =>
    cases taken
    exact sound.without rfl rfl rfl (fun _ _ => rfl) rfl rfl rfl rfl
  next => cases taken

/-- A step of the main thread that only moves on. -/
theorem main_moved (sound : Sound pool) (tasks : after.tasks = pool.tasks) (terminate : after.terminate = pool.terminate)
    (mutex : after.mutex = pool.mutex) (same : after.point = pool.point) (alive : after.crashed = pool.crashed)
    (holds : holding after.main → holding pool.main) (released : after.main.released = pool.main.released) : Sound after := by
  refine ⟨?_, ?_, ?_, alive.trans sound.alive⟩
  · rw [same, mutex]
    exact sound.holder
  · rw [mutex]
    exact sound.main ∘ holds
  · rw [tasks, terminate, same, released]
    exact sound.fits

/-- A step of the main thread while no worker is inside. -/
theorem main_alone (same : after.point = pool.point) (nobody : ∀ worker, inside (pool.point worker) = false)
    (alive : after.crashed = false) (holds : holding after.main → after.mutex = some .main) : Sound after := by
  refine ⟨?_, holds, ?_, alive⟩
  · intro worker within
    rw [same, nobody worker] at within
    cases within
  · intro worker
    rw [same]
    exact outside_fits (nobody worker)

theorem nobody (sound : Sound pool) (held : pool.mutex = none ∨ holding pool.main) (worker : Nat) :
    inside (pool.point worker) = false := by
  apply sound.outside
  rcases held with free | holds
  · simp [free]
  · simp [sound.main holds]

theorem leave {point : CreatePoint} (sound : Sound pool) (main : pool.main = .creating point) (code : Int) :
    Sound (pool.leave code) := by
  refine sound.main_moved rfl rfl rfl rfl rfl (fun holds => by cases holds) ?_
  rw [main]
  rfl

theorem create [DecidableEq T] {calls : Calls} {present : Bool} {numWorkers : Int} {point : CreatePoint} (sound : Sound pool)
    (listed : Listed calls present numWorkers pool) (main : pool.main = .creating point)
    (taken : pool.nThreadPoolCreate calls point = some after) : Sound after := by
  have early : pool.main.released = false := by rw [main]; rfl
  unfold Threads.nThreadPoolCreate at taken
  split at taken
  next =>
    cases taken
    exact sound.leave main _
  next =>
    cases taken
    rw [Listed, main] at listed
    refine main_alone rfl ?_ sound.alive (fun holds => by cases holds)
    intro worker
    rw [listed.2.2.2.2 worker]
    rfl
  next =>
    split at taken
    next =>
      split at taken
      next =>
        cases taken
        exact sound.leave main _
      next =>
        split at taken
        next =>
          cases taken
          refine sound.without rfl ?_ ?_ ?_ rfl rfl rfl rfl
          · rw [main]
            rfl
          · rw [early]
            rfl
          · intro other apart
            exact Function.update_of_ne apart ..
        next =>
          cases taken
          exact sound.leave main _
    next =>
      cases taken
      exact sound.leave main _
  next =>
    cases taken
    exact sound.main_moved rfl rfl rfl rfl rfl (fun holds => by cases holds) early.symm

theorem push [DecidableEq T] {point : PushPoint T} (sound : Sound pool) (main : pool.main = .pushing point)
    (taken : pool.nThreadPoolPushTask point = some after) : Sound after := by
  unfold Threads.nThreadPoolPushTask at taken
  split at taken
  next =>
    split at taken
    next free =>
      cases taken
      exact main_alone rfl (sound.nobody (.inl free)) sound.alive (fun _ => rfl)
    next => cases taken
  next =>
    cases taken
    have holds : holding pool.main := by
      rw [main]
      rfl
    exact main_alone rfl (sound.nobody (.inr holds)) sound.alive (fun _ => sound.main holds)
  next =>
    cases taken
    have holds : holding pool.main := by
      rw [main]
      rfl
    exact main_alone rfl (sound.nobody (.inr holds)) sound.alive (fun idle => by cases idle)

theorem destroy [DecidableEq T] {calls : Calls} {present : Bool} {numWorkers : Int} {point : DestroyPoint} (sound : Sound pool)
    (listed : Listed calls present numWorkers pool) (main : pool.main = .destroying point)
    (taken : pool.nThreadPoolDestory point = some after) : Sound after := by
  unfold Threads.nThreadPoolDestory at taken
  split at taken
  case h_3 worker =>
    cases taken
    refine ⟨sound.holder, (fun holds => by cases holds), ?_, sound.alive⟩
    intro other
    have known := sound.fits other
    rw [main] at known
    apply known.flagged
    intro flag
    by_cases same : other = worker
    · simp [same]
    · simpa [same] using flag
  case h_5 =>
    split at taken
    next free =>
      cases taken
      exact main_alone rfl (sound.nobody (.inl free)) sound.alive (fun _ => rfl)
    next => cases taken
  case h_6 =>
    cases taken
    have holds : holding pool.main := by
      rw [main]
      rfl
    exact main_alone rfl (sound.nobody (.inr holds)) sound.alive (fun out => by cases out)
  case h_8 =>
    cases taken
    have released : pool.main.released := by rw [main]; rfl
    refine ⟨sound.holder, (fun holds => by cases holds), ?_, sound.alive⟩
    intro worker
    have known := sound.fits worker
    rw [main] at known
    exact known.cleared rfl (fun present => released_marked listed released present)
  case h_11 => cases taken
  all_goals
    cases taken
    refine sound.main_moved rfl rfl rfl rfl rfl (fun holds => by cases holds) ?_
    rw [main]
    rfl

theorem step [DecidableEq T] {calls : Calls} {present : Bool} {numWorkers : Int} (sound : Sound pool)
    (listed : Listed calls present numWorkers pool) (turn : Turn calls pool after) : Sound after := by
  cases turn with
  | enter called taken =>
    unfold Threads.enter at taken
    split at taken
    next ready =>
      cases taken
      rcases called with ⟨task, rfl⟩ | rfl
      all_goals
        refine sound.main_moved rfl rfl rfl rfl rfl (fun holds => by cases holds) ?_
        rw [ready.1]
        rfl
    next => cases taken
  | create main taken => exact sound.create listed main taken
  | push main taken => exact sound.push main taken
  | destroy main taken => exact sound.destroy listed main taken
  | worker law => exact sound.callback listed law
  | finish taken => exact sound.finish taken

end Sound

/-- The statements of `LIST_REMOVE`. -/
def removing : WorkerPoint T → Bool
  | .compareHead _ | .moveHead _ | .changeLinks _ => true
  | _ => false

section runs
variable {calls : Calls} {present : Bool} {numWorkers : Int} {pool after : Threads T}

theorem Sound.not_removing (sound : Sound pool) (released : pool.main.released) (worker : Nat) :
    removing (pool.point worker) = false := by
  have known := sound.fits worker
  cases point : pool.point worker <;> rw [point] at known <;> first | rfl | skip
  · exact absurd released known.2.2
  · exact absurd released known.2
  · exact absurd released known

theorem Sound.not_null (sound : Sound pool) (worker : Nat) : pool.point worker ≠ .compareHead none := by
  intro now
  have known := sound.fits worker
  rw [now] at known
  exact known.2.1 known.1.symm

/-- Behind its critical section the destroyer never comes back. -/
theorem released_step [DecidableEq T] (sound : Sound pool) (turn : Turn calls pool after) (released : pool.main.released) :
    after.main.released ∧ after.popped = pool.popped := by
  cases turn with
  | enter called taken =>
    unfold Threads.enter at taken
    split at taken
    next ready =>
      rw [ready.1] at released
      cases released
    next => cases taken
  | create main =>
    rw [main] at released
    cases released
  | push main =>
    rw [main] at released
    cases released
  | destroy main taken =>
    rw [main] at released
    unfold Threads.nThreadPoolDestory at taken
    split at taken
    case h_5 => cases released
    all_goals
      cases taken
      first | done | exact ⟨rfl, rfl⟩ | cases released
  | @worker worker law =>
    have quiet := sound.not_removing released worker
    cases law with
    | remove now =>
      rw [now] at quiet
      cases quiet
    | _ => exact ⟨released, rfl⟩
  | finish taken =>
    unfold Threads.finish at taken
    split at taken <;> cases taken
    exact ⟨released, rfl⟩

theorem reached_sound [DecidableEq T] {links : Links T} {records : Links Nat} {actions : List (Action T)}
    (reached : exec (Threads.step calls) (Threads.start present numWorkers links records) actions = some pool) :
    Sound pool ∧ Listed calls present numWorkers pool := by
  apply (Run.of_exec reached).invariant (fun pool => Sound pool ∧ Listed calls present numWorkers pool)
  · refine ⟨⟨?_, ?_, ?_, rfl⟩, start_listed ..⟩
    · intro worker held
      cases held
    · intro holds
      cases holds
    · intro worker
      trivial
  · intro before action after ⟨sound, listed⟩ taken
    have turn := step_turn taken
    exact ⟨sound.step listed turn, listed.step turn⟩

/-- In no interleaving does a worker remove the null pointer, and from the release of
the mutex by the destroyer on no worker removes anything. -/
theorem clearing_after_last_pop [DecidableEq T] (calls : Calls) (present : Bool) (numWorkers : Int) (links : Links T)
    (records : Links Nat) (actions : List (Action T)) (pool : Threads T)
    (reached : exec (Threads.step calls) (Threads.start present numWorkers links records) actions = some pool) :
    pool.crashed = false ∧ (∀ worker, pool.point worker ≠ .compareHead none) ∧
      (pool.main.released → (∀ worker, removing (pool.point worker) = false) ∧
        ∀ more last, exec (Threads.step calls) pool more = some last → last.popped = pool.popped) := by
  obtain ⟨sound, listed⟩ := reached_sound reached
  refine ⟨sound.alive, sound.not_null, fun released => ⟨sound.not_removing released, ?_⟩⟩
  intro more last continued
  let Inv (later : Threads T) : Prop :=
    (Sound later ∧ Listed calls present numWorkers later) ∧ later.main.released ∧ later.popped = pool.popped
  have kept : Inv last := by
    apply (Run.of_exec continued).invariant Inv ⟨⟨sound, listed⟩, released, rfl⟩
    rintro before action after ⟨⟨sound, listed⟩, released, popped⟩ taken
    have turn := step_turn taken
    obtain ⟨still, same⟩ := released_step sound turn released
    exact ⟨⟨sound.step listed turn, listed.step turn⟩, still, same.trans popped⟩
  exact kept.2.2

/-- The pool is made and one task is popped before the destroyer takes the mutex. -/
def popThenDestroy : List (Action Nat) :=
  [.main, .main, .main, .main, .push 7, .main, .main, .main, .worker 0, .worker 0, .worker 0, .worker 0, .worker 0,
    .worker 0, .worker 0, .destroy, .main, .main, .main, .main, .worker 0, .main, .main]

theorem zeros_size : (List.replicate 40 (0 : UInt8)).length = 40 := List.length_replicate

/-- Fresh pages, and no call fails. -/
def fresh : Calls := ⟨fun _ => some ⟨List.replicate 40 0, zeros_size⟩, fun _ => 0⟩

theorem cleared_after_pop : ∃ last : Threads Nat,
    exec (Threads.step fresh) (Threads.start true 1 ⟨fun _ => none, fun _ => none⟩ ⟨fun _ => none, fun _ => none⟩)
        popThenDestroy = some last ∧
      last.main.released ∧ last.popped = [(0, 7)] ∧ ∀ worker, removing (last.point worker) = false :=
  ⟨_, rfl, rfl, rfl, ((clearing_after_last_pop fresh true 1 ⟨fun _ => none, fun _ => none⟩ ⟨fun _ => none, fun _ => none⟩
    popThenDestroy _ rfl).2.2 rfl).1⟩

end runs
end NetPrograms.Proofs.PoolClearing
