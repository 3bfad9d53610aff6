import NetPrograms.Proofs.UringDiscipline

/-! How many entries of the submission queue one batch of completions asks for. The
queue has half as many entries as a batch may have completions. -/

namespace NetPrograms.Proofs.UringCapacity
open Uring UringSteps UringDiscipline

/-- The calls of `io_uring_get_sqe` for one completion. -/
def demand (entry : Cqe) : Nat :=
  match entry.event with
  | .accept => 2
  | .read => if entry.res ≤ 0 then 0 else 1
  | .write => 1

def demands (entries : List Cqe) : Nat := (entries.map demand).sum

def AtMost (clients : Nat) (s : Ring) : Prop :=
  ∀ fds : List Int, fds.Nodup → (∀ fd ∈ fds, s.conns fd ≠ none) → fds.length ≤ clients

/-- `io_uring_submit` hands over all requests, data arrives on descriptors only, and
the completions are taken while no more clients are connected than stated. -/
def Serves (clients : Nat) (s : Ring) : Event → Prop
  | .submit count => count = s.sq.length
  | .peek => AtMost clients s
  | .received index _ => ∀ op, s.flight[index]? = some op → 0 ≤ op.sqe.fd
  | _ => True

def Step (clients : Nat) (socket : Int) (s : Ring) (event : Event) (after : Ring) : Prop :=
  Serves clients s event ∧ step socket s event = some after

/-- The next completion is processed without a null pointer from `io_uring_get_sqe`. -/
def Prepares (socket : Int) (s : Ring) : Prop :=
  ∀ entry entries, s.phase = .batch (entry :: entries) → (step socket s .process).isSome

variable {socket : Int} {s after : Ring} {clients : Nat}

structure Processed (s : Ring) (entry : Cqe) (added : List Sqe) (after : Ring) : Prop where
  sq : after.sq = s.sq ++ added
  length : added.length = demand entry
  phase : after.phase = s.phase
  flight : after.flight = s.flight
  cq : after.cq = s.cq
  sends : ∀ sqe ∈ added, sqe.event = .write → entry.event = .read ∧ sqe.fd = entry.fd

theorem processed {entry : Cqe} (handled : processEntry socket s entry = some after) :
    ∃ added, Processed s entry added after := by
  cases processEntry_cases handled with
  | accept =>
    rw [taken_eq]
    exact ⟨[_, _], List.append_assoc .., rfl, rfl, rfl, rfl, by simp⟩
  | ended gone => exact ⟨[], (List.append_nil _).symm, (if_pos gone).symm, rfl, rfl, rfl, by simp⟩
  | sends more => exact ⟨[_], rfl, (if_neg more).symm, rfl, rfl, rfl, by simp⟩
  | receives => exact ⟨[_], rfl, rfl, rfl, rfl, rfl, by simp⟩

theorem prepare_isSome {sqe : Sqe} (room : s.sq.length < entriesLength) : (prepare s sqe).isSome := by
  rw [prepare, if_pos room]
  rfl

theorem processEntry_isSome (entry : Cqe) (room : s.sq.length + demand entry ≤ entriesLength) :
    (processEntry socket s entry).isSome := by
  obtain ⟨event, fd, res, received⟩ := entry
  cases event with
  | accept =>
    have room : s.sq.length + 2 ≤ entriesLength := room
    have same : (taken s res).sq = s.sq := by rw [taken_eq]
    have first : setEventAccept (taken s res) socket =
        some { taken s res with sq := (taken s res).sq ++ [⟨.accept, socket, 0, []⟩] } := by
      apply if_pos
      rw [same]
      omega
    change ((setEventAccept (taken s res) socket).bind (setEventRecv · res bufferLength)).isSome
    rw [first, Option.bind_some]
    apply prepare_isSome
    rw [same]
    exact List.length_append ▸ room
  | read =>
    simp only [processEntry]
    split
    next => rfl
    next more =>
      apply prepare_isSome
      have one : demand ⟨.read, fd, res, received⟩ = 1 := if_neg more
      rw [one] at room
      exact room
  | write => exact prepare_isSome room

/-- What the queue holds for the completions that are still to come. -/
structure Roomy (s : Ring) : Prop where
  waiting : s.phase = .waiting → s.sq = []
  room : ∀ entries, s.phase = .batch entries → s.sq.length + demands entries ≤ entriesLength
  placed : ∀ entry ∈ s.cq ++ entriesOf s.phase, entry.event ≠ .accept → 0 < demand entry → 0 ≤ entry.fd
  prepared : ∀ sqe ∈ s.sq, sqe.event = .write → 0 ≤ sqe.fd
  flying : ∀ op ∈ s.flight, op.sqe.event = .write → 0 ≤ op.sqe.fd

def busy (entry : Cqe) : Bool := entry.event ≠ .accept ∧ 0 < demand entry

theorem demands_le (entries : List Cqe) :
    demands entries ≤ 2 * entries.countP (·.event = .accept) + entries.countP busy := by
  induction entries with
  | nil => rfl
  | cons entry entries ih =>
    have sum : demands (entry :: entries) = demand entry + demands entries := List.sum_cons
    have here : demand entry ≤ 2 * (if entry.event = .accept then 1 else 0) + if busy entry then 1 else 0 := by
      obtain ⟨event, fd, res, received⟩ := entry
      cases event with
      | accept => simp [demand]
      | read =>
        by_cases ended : res ≤ 0
        · simp [demand, ended]
        · simp [demand, busy, ended]
      | write => simp [demand, busy]
    rw [sum, List.countP_cons, List.countP_cons]
    simp only [decide_eq_true_eq]
    omega

section batch
variable {entries : List Cqe} (completed : (entries.map cqeKey).Sublist (outstanding s))
include completed

theorem accepts_le (held : Disciplined socket s) : entries.countP (·.event = .accept) ≤ 1 := by
  have few : (entries.map cqeKey).countP (·.1 = .accept) ≤ (outstanding s).countP (·.1 = .accept) := completed.countP_le
  have one : (outstanding s).countP (·.1 = .accept) = 1 := by
    rw [List.countP_eq_length_filter]
    exact congrArg List.length held.accept
  rw [one, List.countP_map] at few
  exact few

theorem busy_requests (fd : Int) : (entries.filter busy).countP (·.fd = fd) ≤ (requests s fd).length := by
  have few := completed.countP_le (p := fun op => op.1 ≠ .accept ∧ op.2 = fd)
  rw [List.countP_eq_length_filter (l := outstanding s), List.countP_map] at few
  rw [List.countP_filter]
  apply Nat.le_trans _ few
  apply List.countP_mono_left
  intro entry _ both
  obtain ⟨same, client, -⟩ : entry.fd = fd ∧ entry.event ≠ .accept ∧ 0 < demand entry := by simpa [busy] using both
  simp [cqeKey, same, client]

/-- Every connection has at most one of them. -/
theorem busy_le (held : Disciplined socket s) (placed : ∀ entry ∈ entries, busy entry → 0 ≤ entry.fd)
    (few : AtMost clients s) : entries.countP busy ≤ clients := by
  have known : ∀ fd ∈ (entries.filter busy).map Cqe.fd, s.conns fd ≠ none ∧ (requests s fd).length ≤ 1 := by
    intro fd member
    obtain ⟨entry, inside, rfl⟩ := List.mem_map.mp member
    obtain ⟨inBatch, isBusy⟩ := List.mem_filter.mp inside
    have positive := placed entry inBatch isBusy
    have present : 0 < (requests s entry.fd).length := by
      apply Nat.lt_of_lt_of_le _ (busy_requests completed entry.fd)
      exact List.countP_pos_iff.mpr ⟨entry, inside, by simp⟩
    cases conn : s.conns entry.fd with
    | none => simp [held.dead _ positive conn] at present
    | some history =>
      obtain ⟨-, -, n, -, only⟩ := held.live _ _ conn
      exact ⟨nofun, by simp [only]⟩
  have nodup : ((entries.filter busy).map Cqe.fd).Nodup := by
    apply List.nodup_iff_count.mpr
    intro fd
    by_cases member : fd ∈ (entries.filter busy).map Cqe.fd
    · apply Nat.le_trans _ (known fd member).2
      rw [List.count, List.countP_map]
      exact busy_requests completed fd
    · rw [List.count_eq_zero_of_not_mem member]
      exact Nat.zero_le 1
  have bound := few _ nodup (fun fd member => (known fd member).1)
  rwa [List.length_map, ← List.countP_eq_length_filter] at bound

end batch

theorem not_busy {entry : Cqe} (read : entry.event = .read) (ended : entry.res ≤ 0) : demand entry = 0 := by
  simp [demand, read, ended]

theorem completed_entries (waiting : s.phase = .waiting) (count : Nat) :
    ((s.cq.take count).map cqeKey).Sublist (outstanding s) := by
  have part : ((s.cq.take count).map cqeKey).Sublist (s.cq.map cqeKey) := (List.take_sublist _ _).map _
  rw [outstanding, waiting, List.append_assoc]
  exact part.trans ((List.sublist_append_left _ _).trans (List.sublist_append_right _ _))

namespace Roomy

theorem kernel (roomy : Roomy s) (sq : after.sq = s.sq) (phase : after.phase = s.phase)
    (placed : ∀ entry ∈ after.cq, entry ∈ s.cq ∨ (entry.event ≠ .accept → 0 < demand entry → 0 ≤ entry.fd))
    (flying : ∀ op ∈ after.flight, op.sqe.event = .write → 0 ≤ op.sqe.fd) : Roomy after := by
  refine ⟨?_, ?_, ?_, ?_, flying⟩
  · rw [sq, phase]
    exact roomy.waiting
  · rw [sq, phase]
    exact roomy.room
  · intro entry member
    rw [phase] at member
    rcases List.mem_append.mp member with queued | batch
    · rcases placed entry queued with earlier | new
      · exact roomy.placed entry (List.mem_append_left _ earlier)
      · exact new
    · exact roomy.placed entry (List.mem_append_right _ batch)
  · rw [sq]
    exact roomy.prepared

theorem process (roomy : Roomy s) {entry : Cqe} {entries : List Cqe} (batch : s.phase = .batch (entry :: entries))
    (handled : processEntry socket { s with phase := .batch entries } entry = some after) : Roomy after := by
  obtain ⟨added, sq, length, phase, flight, cq, sends⟩ := processed handled
  have room := roomy.room _ batch
  have sum : demands (entry :: entries) = demand entry + demands entries := List.sum_cons
  have inside : ∀ other ∈ s.cq ++ (entry :: entries), other.event ≠ .accept → 0 < demand other → 0 ≤ other.fd := by
    have placed := roomy.placed
    rwa [batch] at placed
  refine ⟨?_, ?_, ?_, ?_, ?_⟩
  · intro waiting
    rw [phase] at waiting
    cases waiting
  · intro rest same
    rw [phase] at same
    cases same
    rw [sq, List.length_append, length]
    change s.sq.length + demand entry + demands entries ≤ entriesLength
    omega
  · rw [cq, phase]
    intro other member
    apply inside other
    rcases List.mem_append.mp member with queued | later
    · exact List.mem_append_left _ queued
    · exact List.mem_append_right _ (List.mem_cons_of_mem _ later)
  · rw [sq]
    intro sqe member write
    rcases List.mem_append.mp member with earlier | new
    · exact roomy.prepared sqe earlier write
    · obtain ⟨read, same⟩ := sends sqe new write
      have asks : 0 < demand entry := length ▸ List.length_pos_of_mem new
      rw [same]
      exact inside entry (List.mem_append_right _ List.mem_cons_self) (by simp [read]) asks
  · rw [flight]
    exact roomy.flying

theorem peek (roomy : Roomy s) (held : Disciplined socket s) (waiting : s.phase = .waiting) (few : AtMost clients s)
    (small : clients ≤ 1022) :
    Roomy { s with
      phase := .batch (s.cq.take (entriesLength * 2))
      cq := s.cq.drop (entriesLength * 2) } := by
  have placed : ∀ entry ∈ s.cq, entry.event ≠ .accept → 0 < demand entry → 0 ≤ entry.fd :=
    fun entry member => roomy.placed entry (List.mem_append_left _ member)
  refine ⟨nofun, ?_, ?_, roomy.prepared, roomy.flying⟩
  · intro entries same
    cases same
    have completed := completed_entries waiting (entriesLength * 2)
    have accepted := accepts_le completed held
    have busy := busy_le completed held (fun entry member busy => by
      obtain ⟨client, asks⟩ : entry.event ≠ .accept ∧ 0 < demand entry := by simpa [UringCapacity.busy] using busy
      exact placed entry (List.mem_of_mem_take member) client asks) few
    have sum := demands_le (s.cq.take (entriesLength * 2))
    rw [roomy.waiting waiting, List.length_nil]
    simp only [entriesLength] at *
    omega
  · intro entry member
    apply placed entry
    rcases List.mem_append.mp member with later | now
    · exact List.mem_of_mem_drop later
    · exact List.mem_of_mem_take now

theorem submit (roomy : Roomy s) {count : Nat} (all : count = s.sq.length) :
    Roomy { s with
      phase := .waiting
      sq := s.sq.drop count
      flight := s.flight ++ (s.sq.take count).map (⟨·, false⟩) } := by
  subst all
  refine ⟨fun _ => List.drop_length, (fun _ same => nomatch same), ?_, ?_, ?_⟩
  · intro entry member
    apply roomy.placed entry
    exact List.mem_append_left _ (by simpa [entriesOf] using member)
  · intro sqe member
    exact roomy.prepared sqe (List.mem_of_mem_drop member)
  · intro op member
    rcases List.mem_append.mp member with earlier | new
    · exact roomy.flying op earlier
    · obtain ⟨sqe, inside, rfl⟩ := List.mem_map.mp new
      exact roomy.prepared sqe (List.mem_of_mem_take inside)

theorem completes (roomy : Roomy s) {index : Nat} {cqe : Cqe} (sq : after.sq = s.sq) (phase : after.phase = s.phase)
    (flight : after.flight = s.flight.eraseIdx index) (cq : after.cq = s.cq ++ [cqe])
    (placed : cqe.event ≠ .accept → 0 < demand cqe → 0 ≤ cqe.fd) : Roomy after := by
  apply roomy.kernel sq phase
  · rw [cq]
    intro entry member
    rcases List.mem_append.mp member with earlier | new
    · exact .inl earlier
    · obtain rfl := List.mem_singleton.mp new
      exact .inr placed
  · rw [flight]
    intro other member
    exact roomy.flying other (List.mem_of_mem_eraseIdx member)

theorem step (roomy : Roomy s) (held : Disciplined socket s) (small : clients ≤ 1022) {event : Event}
    (taken : Step clients socket s event after) : Roomy after := by
  obtain ⟨serves, stepped⟩ := taken
  cases step_cases stepped with
  | submit top enough => exact roomy.submit serves
  | peek waiting => exact roomy.peek held waiting serves small
  | process batch handled => exact roomy.process batch handled
  | advance batch =>
    refine ⟨nofun, (fun _ same => nomatch same), ?_, roomy.prepared, roomy.flying⟩
    have placed := roomy.placed
    rwa [batch] at placed
  | @transmit index op bytes found unsent read =>
    refine roomy.kernel rfl rfl (fun entry => Or.inl) ?_
    intro other member write
    rcases List.mem_or_eq_of_mem_set member with earlier | rfl
    · exact roomy.flying other earlier write
    · exact roomy.flying op (List.mem_of_getElem? found) write
  | @received index op bytes buffer found may stored => exact roomy.completes rfl rfl rfl rfl fun _ _ => serves op found
  | @completed index op res found may =>
    refine roomy.completes rfl rfl rfl rfl ?_
    intro client asks
    cases event : op.sqe.event with
    | accept => exact absurd event client
    | read =>
      rw [event] at may
      have nothing : demand ⟨op.sqe.event, op.sqe.fd, res, []⟩ = 0 := not_busy event (of_decide_eq_true may)
      rw [nothing] at asks
      cases asks
    | write => exact roomy.flying op (List.mem_of_getElem? found) event

end Roomy

theorem start_roomy (socket : Int) (files : Int → Bool) : Roomy (start socket files) := by
  refine ⟨nofun, (fun _ same => nomatch same), ?_, ?_, ?_⟩
  · intro entry member
    cases member
  · intro sqe member write
    obtain rfl := List.mem_singleton.mp member
    cases write
  · intro op member
    cases member

/-- In a run with a few clients every request finds an entry. -/
theorem few_prepare {files : Int → Bool} {events : List Event} (small : clients ≤ 1022)
    (run : Run (Step clients socket) (start socket files) events s) : Prepares socket s := by
  have held : Roomy s ∧ Disciplined socket s := by
    apply run.invariant (fun s => Roomy s ∧ Disciplined socket s) ⟨start_roomy socket files, start_disciplined socket files⟩
    intro before event after ⟨roomy, held⟩ taken
    exact ⟨roomy.step held small taken, step_disciplined held taken.2⟩
  intro entry entries batch
  have room := held.1.room _ batch
  have sum : demands (entry :: entries) = demand entry + demands entries := List.sum_cons
  rw [Uring.step, batch]
  apply processEntry_isSome
  change s.sq.length + demand entry ≤ entriesLength
  omega

end NetPrograms.Proofs.UringCapacity
