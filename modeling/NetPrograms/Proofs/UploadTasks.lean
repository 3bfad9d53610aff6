import NetPrograms.Mysql.Uploads
import NetPrograms.Proofs.ConnHolders

/-! `task_entry` goes on after both of its errors, so an upload has a connection and
an image when the file and the scan of the pool gave it one. No other task has that
connection in any case. -/

namespace NetPrograms.Proofs.UploadTasks
open Mysql ThreadPool ConnHolders

variable {n : Nat} {T M : Type}

/-- Each call of `mysql_write_image` that is about to be made. -/
def OwnsConnection (uploads : Uploads n T M) : Prop :=
  ∀ worker conn length buffer, uploads.entry worker = .write conn length buffer →
    conn ≠ none ∧ (∀ other, other ≠ worker → (other, conn) ∉ uploads.callers.held) ∧ 0 < length

/-- The file is there, and its length is positive as an `int`. -/
def Readable (file : Option (List UInt8)) : Prop :=
  match file with
  | none => False
  | some content => 0 < intLength content

instance (file : Option (List UInt8)) : Decidable (Readable file) :=
  match file with
  | none => inferInstanceAs (Decidable False)
  | some content => inferInstanceAs (Decidable (0 < intLength content))

/-- The first slot that is not used is a connected one. -/
def Connectable (pool : ConnPool M) : Prop :=
  ∃ i, pool.used i = false ∧ (∀ j, j < i → pool.used j = true) ∧ (pool.conns i).isSome

instance (pool : ConnPool M) : Decidable (Connectable pool) := inferInstanceAs (Decidable (∃ _, _))

/-- The two error branches of `task_entry` are not taken. -/
def Served (files : T → Option (List UInt8)) (pool : ConnPool M) : WorkerStage T → Entry M → Prop
  | .running task, .read => Readable (files task)
  | .running _, .get _ _ => Connectable pool
  | _, _ => True

def AllServed (files : T → Option (List UInt8)) (uploads : Uploads n T M) : Uploads.Event n T → Prop
  | .pool _ => True
  | .entry worker => Served files uploads.callers.pool (uploads.pool.stage worker) (uploads.entry worker)

instance (files : T → Option (List UInt8)) (pool : ConnPool M) (stage : WorkerStage T) (entry : Entry M) :
    Decidable (Served files pool stage entry) :=
  match stage, entry with
  | .running task, .read => inferInstanceAs (Decidable (Readable (files task)))
  | .running _, .get _ _ => inferInstanceAs (Decidable (Connectable pool))
  | .running _, .write .. | .running _, .release _ | .running _, .returned => inferInstanceAs (Decidable True)
  | .locking, _ | .waiting, _ | .unlocking _, _ | .calling _, _ | .leaving, _ | .freed, _ =>
    inferInstanceAs (Decidable True)

instance (files : T → Option (List UInt8)) (uploads : Uploads n T M) (event : Uploads.Event n T) :
    Decidable (AllServed files uploads event) :=
  match event with
  | .pool _ => inferInstanceAs (Decidable True)
  | .entry _ => inferInstanceAs (Decidable (Served ..))

theorem connectable_getConn {pool : ConnPool M} (connectable : Connectable pool) : ∃ conn, pool.getConn.1 = some conn := by
  obtain ⟨i, unused, before, connected⟩ := connectable
  rw [getConn_first unused before]
  exact Option.isSome_iff_exists.mp connected

theorem readable_length {file : Option (List UInt8)} (readable : Readable file) {length : Int}
    {buffer after : Buffer UInt8 fileImageLength} (taken : readImage file buffer = some (length, after)) : 0 < length := by
  cases file with
  | none => cases readable
  | some content =>
    obtain ⟨filled, written, same⟩ := Option.bind_eq_some_iff.mp taken
    cases same
    exact readable

/-- What an upload has at each point of `task_entry`. -/
def Holds (held : List (Fin n × Option M)) (worker : Fin n) : Entry M → Prop
  | .get length _ => 0 < length
  | .write conn length _ => 0 < length ∧ ∃ handle, conn = some handle ∧ (worker, conn) ∈ held
  | _ => True

structure Valid (connects : Connects M) (uploads : Uploads n T M) : Prop where
  callers : ConnHolders.Valid connects uploads.callers
  entries : ∀ worker, Holds uploads.callers.held worker (uploads.entry worker)

theorem Valid.owns {connects : Connects M} {uploads : Uploads n T M} (valid : Valid connects uploads) :
    OwnsConnection uploads := by
  intro worker conn length buffer writing
  have holds := valid.entries worker
  rw [writing] at holds
  obtain ⟨positive, handle, rfl, mine⟩ := holds
  refine ⟨by simp, ?_, positive⟩
  intro other apart theirs
  exact apart (one_holder valid.callers.once theirs mine)

section steps
variable [DecidableEq M] {connects : Connects M} {files : T → Option (List UInt8)}

theorem taskEntry_holds {callers after : Callers (Fin n) M} {worker : Fin n} {task : T} {entry next : Entry M}
    (valid : ConnHolders.Valid connects callers) (holds : Holds callers.held worker entry)
    (served : Served files callers.pool (.running task) entry)
    (taken : taskEntry (files task) worker callers entry = some (next, after)) :
    ConnHolders.Valid connects after ∧ Holds after.held worker next ∧
      ∀ other, other ≠ worker → ∀ conn, (other, conn) ∈ callers.held → (other, conn) ∈ after.held := by
  cases entry with
  | read =>
    obtain ⟨⟨length, buffer⟩, read, same⟩ := Option.bind_eq_some_iff.mp taken
    cases same
    exact ⟨valid, readable_length served read, fun _ _ _ held => held⟩
  | get length buffer =>
    obtain ⟨conn, given⟩ := connectable_getConn served
    simp only [taskEntry, Callers.connStep, Callers.step, Option.bind_eq_bind, Option.bind_some] at taken
    cases taken
    refine ⟨valid.get worker (getConn_got callers.pool), ⟨holds, conn, given, List.mem_cons_self⟩, ?_⟩
    intro other _ conn held
    exact List.mem_cons_of_mem _ held
  | write conn length buffer =>
    cases taken
    exact ⟨valid, trivial, fun _ _ _ held => held⟩
  | release conn =>
    obtain ⟨released, called, same⟩ := Option.bind_eq_some_iff.mp taken
    cases same
    refine ⟨valid.step getConn_got called, trivial, ?_⟩
    simp only [Callers.connStep, Callers.step] at called
    split at called
    next =>
      cases called
      intro other apart kept held
      apply (List.mem_erase_of_ne _).mpr held
      rintro ⟨⟩
      exact apart rfl
    next => cases called
  | returned => cases taken

end steps

theorem Holds.mono {held more : List (Fin n × Option M)} {worker : Fin n} {entry : Entry M} (holds : Holds held worker entry)
    (kept : ∀ conn, (worker, conn) ∈ held → (worker, conn) ∈ more) : Holds more worker entry := by
  cases entry with
  | write conn length buffer =>
    obtain ⟨positive, handle, given, mine⟩ := holds
    exact ⟨positive, handle, given, kept conn mine⟩
  | _ => exact holds

theorem update_holds {held more : List (Fin n × Option M)} {entries : Fin n → Entry M} {worker : Fin n} {entry : Entry M}
    (earlier : ∀ other, Holds held other (entries other)) (here : Holds more worker entry)
    (others : ∀ other, other ≠ worker → ∀ conn, (other, conn) ∈ held → (other, conn) ∈ more) (other : Fin n) :
    Holds more other (Function.update entries worker entry other) := by
  by_cases same : other = worker
  · subst same
    rw [Function.update_self]
    exact here
  · rw [Function.update_of_ne same]
    exact (earlier other).mono (others other same)

theorem start_valid (terminate : Fin n → Bool) (links : Links T) (connects : Connects M) :
    Valid connects (Uploads.start terminate links connects) :=
  ⟨ConnHolders.start_valid connects, fun _ => trivial⟩

section run
variable [DecidableEq T] [DecidableEq M] {connects : Connects M} {files : T → Option (List UInt8)}

theorem Valid.step {uploads after : Uploads n T M} {event : Uploads.Event n T} (valid : Valid connects uploads)
    (served : AllServed files uploads event) (taken : uploads.step files event = some after) : Valid connects after := by
  cases event with
  | pool event =>
    cases event with
    | finish worker next prev =>
      simp only [Uploads.step] at taken
      split at taken
      next =>
        obtain ⟨pool, stepped, same⟩ := Option.bind_eq_some_iff.mp taken
        cases same
        exact ⟨valid.callers, update_holds valid.entries trivial (fun _ _ _ held => held)⟩
      next => cases taken
    | push task | run worker | destroy =>
      obtain ⟨pool, stepped, same⟩ := Option.bind_eq_some_iff.mp taken
      cases same
      exact ⟨valid.callers, valid.entries⟩
  | entry worker =>
    simp only [Uploads.step] at taken
    split at taken
    next task running =>
      obtain ⟨⟨entry, callers⟩, stepped, same⟩ := Option.bind_eq_some_iff.mp taken
      cases same
      simp only [AllServed, running] at served
      obtain ⟨kept, holds, others⟩ := taskEntry_holds valid.callers (valid.entries worker) served stepped
      exact ⟨kept, update_holds valid.entries holds others⟩
    next => cases taken

theorem served_uploads_own (terminate : Fin n → Bool) (links : Links T) (connects : Connects M)
    (files : T → Option (List UInt8)) (events : List (Uploads.Event n T)) (last : Uploads n T M)
    (reached : exec (meeting (AllServed files) (Uploads.step files)) (Uploads.start terminate links connects) events =
      some last) : OwnsConnection last := by
  apply Valid.owns
  apply (Run.of_exec reached).invariant (Valid connects) (start_valid terminate links connects)
  intro before event after valid step
  obtain ⟨served, taken⟩ := meeting_eq_some step
  exact valid.step served taken

end run

def allSlots : Connects Nat where
  handle i := some i.val
  distinct := by
    intro i j conn first second
    exact Fin.ext (Option.some.inj (first.trans second.symm))

/-- The one worker pops the one task and comes to its upload. -/
def oneUpload {n : Nat} (worker : Fin n) : List (Uploads.Event n Nat) :=
  [.pool (.push 5), .pool (.run worker), .pool (.run worker), .pool (.run worker), .entry worker, .entry worker]

private def first : Fin 2 := ⟨0, Nat.zero_lt_two⟩

private def second : Fin 2 := ⟨1, Nat.one_lt_two⟩

/-- The other worker pops another task meanwhile. -/
def twoUploads : List (Uploads.Event 2 Nat) :=
  [.pool (.push 6)] ++ oneUpload first ++ [.pool (.run second), .pool (.run second), .pool (.run second), .entry second,
    .entry second]

theorem two_uploads_own : ∃ last : Uploads 2 Nat Nat,
    exec (meeting (AllServed fun _ => some [255, 216, 255]) (Uploads.step fun _ => some [255, 216, 255]))
        (Uploads.start (fun _ => false) ⟨fun _ => none, fun _ => none⟩ allSlots) twoUploads = some last ∧
      OwnsConnection last ∧ (∃ buffer, last.entry first = .write (some 0) 3 buffer) ∧
        ∃ buffer, last.entry second = .write (some 1) 3 buffer :=
  ⟨_, rfl, served_uploads_own (fun _ => false) ⟨fun _ => none, fun _ => none⟩ allSlots
    (fun _ => some [255, 216, 255]) twoUploads _ rfl, ⟨_, rfl⟩, _, rfl⟩

/-- The file of the task is not there. -/
theorem missing_image_written : ¬ ∀ (n : Nat) (T M : Type) [DecidableEq T] [DecidableEq M] (terminate : Fin n → Bool)
    (links : Links T) (connects : Connects M) (files : T → Option (List UInt8)) (events : List (Uploads.Event n T))
    (last : Uploads n T M),
    exec (Uploads.step files) (Uploads.start terminate links connects) events = some last → OwnsConnection last := by
  intro always
  have owns := always 1 Nat Nat (fun _ => false) ⟨fun _ => none, fun _ => none⟩ allSlots (fun _ => none) (oneUpload 0) _ rfl
  have positive := (owns 0 _ _ _ rfl).2.2
  exact absurd positive (by decide)

end NetPrograms.Proofs.UploadTasks
