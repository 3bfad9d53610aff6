import NetPrograms.Proofs.UringCapacity
import Mathlib.Data.List.Perm.Subperm

/-! A crowd of clients that all send before the server looks. Their completions make
one batch, which asks for more entries than the submission queue has. -/

namespace NetPrograms.Proofs.UringOverflow
open Uring UringSteps UringCapacity

def client (i : Nat) : Int := i + 4

theorem client_nonneg (i : Nat) : 0 ≤ client i := by
  unfold client
  omega

theorem client_ne {i j : Nat} (apart : i ≠ j) : client i ≠ client j := by
  unfold client
  omega

def acceptSqe : Sqe := ⟨.accept, 3, 0, []⟩

def recvSqe (i : Nat) : Sqe := ⟨.read, client i, bufferLength, []⟩

/-- A byte has arrived from a client. -/
def readCqe (i : Nat) : Cqe := ⟨.read, client i, 1, [7]⟩

def acceptCqe (i : Nat) : Cqe := ⟨.accept, 3, client i, []⟩

def waitingClients (clients : List Nat) : List Flight := clients.map fun i => ⟨recvSqe i, false⟩

/-- The clients from `0` to `k` are connected and wait for data. -/
structure Crowd (k : Nat) (s : Ring) : Prop where
  phase : s.phase = .top
  sq : s.sq = [acceptSqe, recvSqe k]
  flight : s.flight = waitingClients (List.range k)
  cq : s.cq = []
  files : ∀ i, k < i → s.files (client i) = false
  conns : ∀ fd, s.conns fd ≠ none → ∃ i ≤ k, fd = client i

variable {clients k : Nat} {s : Ring}

theorem few_clients {conns : Int → Option (List Kind)} (same : s.conns = conns)
    (known : ∀ fd, conns fd ≠ none → ∃ i ≤ k, fd = client i) (enough : k < clients) : AtMost clients s := by
  intro fds nodup connected
  have inside : fds ⊆ (List.range (k + 1)).map client := by
    intro fd member
    obtain ⟨i, small, rfl⟩ := known fd (same ▸ connected fd member)
    exact List.mem_map_of_mem (List.mem_range.mpr (by omega))
  have short := (List.Nodup.subperm nodup inside).length_le
  rw [List.length_map, List.length_range] at short
  omega

/-- The requests are handed over and the accept completes with one more client. -/
theorem crowd_accepts (clients : Nat) (crowd : Crowd k s) : ∃ middle,
    Run (Step clients 3) s [.submit 2, .completed k (client (k + 1))] middle ∧ middle.phase = .waiting ∧ middle.sq = [] ∧
      middle.flight = waitingClients (List.range (k + 1)) ∧ middle.cq = [acceptCqe (k + 1)] ∧ middle.conns = s.conns ∧
      middle.files = Function.update s.files (client (k + 1)) true := by
  obtain ⟨phase, sq, flight, cq, buffer, files, conns, wire⟩ := s
  obtain ⟨rfl, rfl, rfl, rfl, closed, known⟩ := crowd
  let flown : List Flight := waitingClients (List.range k) ++ [⟨acceptSqe, false⟩, ⟨recvSqe k, false⟩]
  have submitted : step 3 ⟨.top, [acceptSqe, recvSqe k], waitingClients (List.range k), [], buffer, files, conns, wire⟩
      (.submit 2) = some ⟨.waiting, [], flown, [], buffer, files, conns, wire⟩ := rfl
  have found : flown[k]? = some ⟨acceptSqe, false⟩ := by
    rw [List.getElem?_append_right (by simp [waitingClients])]
    simp [waitingClients]
  have erased : flown.eraseIdx k = waitingClients (List.range (k + 1)) := by
    rw [List.eraseIdx_append_of_length_le (by simp [waitingClients])]
    simp [waitingClients, List.range_succ]
  have fresh : files (client (k + 1)) = false := closed (k + 1) (Nat.lt_succ_self k)
  have may : mayComplete files (client (k + 1)) acceptSqe.event = true := by simp [mayComplete, acceptSqe, fresh]
  have positive := client_nonneg (k + 1)
  have accepted : step 3 ⟨.waiting, [], flown, [], buffer, files, conns, wire⟩ (.completed k (client (k + 1))) =
      some ⟨.waiting, [], waitingClients (List.range (k + 1)), [acceptCqe (k + 1)], buffer,
        Function.update files (client (k + 1)) true, conns, wire⟩ := by
    simp only [step, found, Option.bind_eq_bind, Option.bind_some]
    rw [if_pos may, erased, if_pos ⟨rfl, positive⟩]
    rfl
  exact ⟨_, Run.next (Run.next .start ⟨rfl, submitted⟩) ⟨trivial, accepted⟩, rfl, rfl, rfl, rfl, rfl, rfl⟩

/-- One more client is connected. -/
theorem crowd_grows (crowd : Crowd k s) (enough : k < clients) : ∃ events after,
    Run (Step clients 3) s events after ∧ Crowd (k + 1) after := by
  obtain ⟨middle, run, phase, sq, flight, cq, conns, files⟩ := crowd_accepts clients crowd
  have few : AtMost clients middle := few_clients conns crowd.conns enough
  obtain ⟨phase', sq', flight', cq', buffer, files', conns', wire⟩ := middle
  cases phase
  cases sq
  cases flight
  cases cq
  cases conns
  cases files
  have positive := client_nonneg (k + 1)
  let ring (phase : Phase) (sq : List Sqe) (cq : List Cqe) (conns : Int → Option (List Kind)) : Ring :=
    ⟨phase, sq, waitingClients (List.range (k + 1)), cq, buffer, Function.update s.files (client (k + 1)) true, conns, wire⟩
  let joined := Function.update s.conns (client (k + 1)) (some [.read])
  have peeked : Step clients 3 (ring .waiting [] [acceptCqe (k + 1)] s.conns) .peek
      (ring (.batch [acceptCqe (k + 1)]) [] [] s.conns) := ⟨few, rfl⟩
  have handled : processEntry 3 (ring (.batch []) [] [] s.conns) (acceptCqe (k + 1)) =
      some (ring (.batch []) [acceptSqe, recvSqe (k + 1)] [] joined) := by
    simp [processEntry, acceptCqe, setEventAccept, setEventRecv, taken, noted, prepare, positive, entriesLength, acceptSqe,
      recvSqe, ring, joined]
  have processed : Step clients 3 (ring (.batch [acceptCqe (k + 1)]) [] [] s.conns) .process
      (ring (.batch []) [acceptSqe, recvSqe (k + 1)] [] joined) := ⟨trivial, handled⟩
  have advanced : Step clients 3 (ring (.batch []) [acceptSqe, recvSqe (k + 1)] [] joined) .advance
      (ring .top [acceptSqe, recvSqe (k + 1)] [] joined) := ⟨trivial, rfl⟩
  refine ⟨_, ring .top [acceptSqe, recvSqe (k + 1)] [] joined, run.append (.next (.next (.next .start peeked) processed) advanced),
    rfl, rfl, rfl, rfl, ?_, ?_⟩
  · intro i later
    have apart : client i ≠ client (k + 1) := client_ne (by omega)
    simpa [ring, Function.update_of_ne apart] using crowd.files i (by omega)
  · intro fd connected
    by_cases new : fd = client (k + 1)
    · exact ⟨k + 1, Nat.le_refl _, new⟩
    · obtain ⟨i, early, same⟩ := crowd.conns fd (by simpa [ring, joined, Function.update_of_ne new] using connected)
      exact ⟨i, Nat.le_succ_of_le early, same⟩

theorem crowd_start (enough : 0 < clients) : ∃ events after,
    Run (Step clients 3) (start 3 (· == 3)) events after ∧ Crowd 0 after := by
  let ring (phase : Phase) (sq : List Sqe) (flight : List Flight) (cq : List Cqe) (files : Int → Bool)
      (conns : Int → Option (List Kind)) : Ring := ⟨phase, sq, flight, cq, Buffer.fill 0, files, conns, []⟩
  let files : Int → Bool := Function.update (· == 3) (client 0) true
  let joined : Int → Option (List Kind) := Function.update (fun _ => none) (client 0) (some [.read])
  have submitted : Step clients 3 (start 3 (· == 3)) (.submit 1)
      (ring .waiting [] [⟨acceptSqe, false⟩] [] (· == 3) fun _ => none) :=
    ⟨rfl, rfl⟩
  have accepted : Step clients 3 (ring .waiting [] [⟨acceptSqe, false⟩] [] (· == 3) fun _ => none) (.completed 0 (client 0))
      (ring .waiting [] [] [acceptCqe 0] files fun _ => none) := ⟨trivial, rfl⟩
  have few : AtMost clients (ring .waiting [] [] [acceptCqe 0] files fun _ => none) :=
    few_clients (k := 0) rfl (fun _ connected => absurd rfl connected) enough
  have peeked : Step clients 3 (ring .waiting [] [] [acceptCqe 0] files fun _ => none) .peek
      (ring (.batch [acceptCqe 0]) [] [] [] files fun _ => none) := ⟨few, rfl⟩
  have handled : processEntry 3 (ring (.batch []) [] [] [] files fun _ => none) (acceptCqe 0) =
      some (ring (.batch []) [acceptSqe, recvSqe 0] [] [] files joined) := by
    simp [processEntry, acceptCqe, setEventAccept, setEventRecv, taken, noted, prepare, client_nonneg, entriesLength,
      acceptSqe, recvSqe, ring, joined]
  have processed : Step clients 3 (ring (.batch [acceptCqe 0]) [] [] [] files fun _ => none) .process
      (ring (.batch []) [acceptSqe, recvSqe 0] [] [] files joined) := ⟨trivial, handled⟩
  have advanced : Step clients 3 (ring (.batch []) [acceptSqe, recvSqe 0] [] [] files joined) .advance
      (ring .top [acceptSqe, recvSqe 0] [] [] files joined) := ⟨trivial, rfl⟩
  refine ⟨_, ring .top [acceptSqe, recvSqe 0] [] [] files joined,
    .next (.next (.next (.next (.next .start submitted) accepted) peeked) processed) advanced, rfl, rfl, rfl, rfl, ?_, ?_⟩
  · intro i later
    have apart : client i ≠ client 0 := client_ne (by omega)
    have other : client i ≠ 3 := by
      unfold client
      omega
    simp [ring, files, Function.update_of_ne apart, other]
  · intro fd connected
    refine ⟨0, Nat.le_refl _, ?_⟩
    by_contra other
    simp [ring, joined, Function.update_of_ne other] at connected

theorem crowds (k : Nat) (enough : k < clients) : ∃ events after,
    Run (Step clients 3) (start 3 (· == 3)) events after ∧ Crowd k after := by
  induction k with
  | zero => exact crowd_start enough
  | succ k ih =>
    obtain ⟨events, before, run, crowd⟩ := ih (by omega)
    obtain ⟨more, after, grows, larger⟩ := crowd_grows crowd (by omega : k < clients)
    exact ⟨_, after, run.append grows, larger⟩

/-- A byte arrives from each client. -/
theorem receives (clients : Nat) (l : List Nat) (waiting : s.phase = .waiting)
    (flight : s.flight = waitingClients l) : ∃ events after,
    Run (Step clients 3) s events after ∧ after.phase = .waiting ∧ after.sq = s.sq ∧ after.cq = s.cq ++ l.map readCqe ∧
      after.conns = s.conns := by
  induction l generalizing s with
  | nil => exact ⟨[], s, .start, waiting, rfl, (List.append_nil _).symm, rfl⟩
  | cons i l ih =>
    obtain ⟨buffer, written, -⟩ := Buffer.write_of_le s.buffer 0 [7] (by decide)
    have found : s.flight[0]? = some ⟨recvSqe i, false⟩ := by rw [flight]; rfl
    have received : step 3 s (.received 0 [7]) = some { s with
        flight := s.flight.eraseIdx 0, cq := s.cq ++ [readCqe i], buffer } := by
      simp only [step, found, Option.bind_eq_bind, Option.bind_some, written]
      rfl
    have serves : Serves clients s (.received 0 [7]) := by
      intro op same
      obtain rfl := Option.some.inj (found.symm.trans same)
      exact client_nonneg i
    obtain ⟨events, after, run, phase, sq, cq, conns⟩ := ih (s := { s with
      flight := s.flight.eraseIdx 0, cq := s.cq ++ [readCqe i], buffer }) waiting (by rw [flight]; rfl)
    refine ⟨_, after, (Run.single ⟨serves, received⟩).append run, phase, sq, ?_, conns⟩
    rw [cq, List.append_assoc]
    rfl

/-- The batch is processed as long as the queue has room. -/
theorem processes (clients : Nat) (entries rest : List Cqe) (batch : s.phase = .batch (entries ++ rest))
    (room : s.sq.length + demands entries ≤ entriesLength) : ∃ events after, Run (Step clients 3) s events after ∧
      after.phase = .batch rest ∧ after.sq.length = s.sq.length + demands entries := by
  induction entries generalizing s with
  | nil => exact ⟨[], s, .start, batch, rfl⟩
  | cons entry entries ih =>
    have sum : demands (entry :: entries) = demand entry + demands entries := List.sum_cons
    have here : s.sq.length + demand entry ≤ entriesLength := by omega
    have fits : (processEntry 3 { s with phase := .batch (entries ++ rest) } entry).isSome := processEntry_isSome entry here
    obtain ⟨middle, handled⟩ := Option.isSome_iff_exists.mp fits
    obtain ⟨added, done⟩ := processed handled
    have length : middle.sq.length = s.sq.length + demand entry := by
      rw [done.sq, List.length_append, done.length]
    have taken : Step clients 3 s .process middle := by
      refine ⟨trivial, ?_⟩
      rw [step, batch]
      exact handled
    obtain ⟨events, after, run, phase, grown⟩ := ih done.phase (by omega)
    exact ⟨_, after, (Run.single taken).append run, phase, by omega⟩

theorem reads_demands (l : List Nat) : demands (l.map readCqe) = l.length := by
  induction l with
  | nil => rfl
  | cons i l ih =>
    have sum : demands ((i :: l).map readCqe) = 1 + demands (l.map readCqe) := List.sum_cons
    rw [sum, ih, List.length_cons, Nat.add_comm]

/-- With one client more than the queue has entries beside an accept, a batch asks for
one entry too many. -/
theorem crowd_overflows (queue : entriesLength = k + 2) (many : k < clients) : ∃ events after,
    Run (Step clients 3) (start 3 (· == 3)) events after ∧ ¬ Prepares 3 after := by
  obtain ⟨events, before, run, crowd⟩ := crowds k many
  obtain ⟨middle, accepted, waiting, sq, flight, cq, conns, -⟩ := crowd_accepts clients crowd
  obtain ⟨received, full, arrive, waiting', sq', cq', conns'⟩ := receives clients (List.range (k + 1)) waiting flight
  have few : AtMost clients full := few_clients (conns'.trans conns) crowd.conns many
  have all : full.cq.take (entriesLength * 2) =
      (acceptCqe (k + 1) :: (List.range k).map readCqe) ++ [readCqe k] := by
    rw [cq', cq, List.range_succ, List.map_append]
    apply List.take_of_length_le
    simp
    omega
  have peeked : Step clients 3 full .peek { full with
      phase := .batch ((acceptCqe (k + 1) :: (List.range k).map readCqe) ++ [readCqe k])
      cq := full.cq.drop (entriesLength * 2) } := by
    refine ⟨few, ?_⟩
    rw [step, waiting', ← all]
  have asked : demands (acceptCqe (k + 1) :: (List.range k).map readCqe) = 2 + k := by
    have sum : demands (acceptCqe (k + 1) :: (List.range k).map readCqe) = 2 + demands ((List.range k).map readCqe) :=
      List.sum_cons
    rw [sum, reads_demands, List.length_range]
  have empty : full.sq.length = 0 := by rw [sq', sq]; rfl
  obtain ⟨processed, last, process, phase, length⟩ := processes clients
    (s := { full with
      phase := .batch ((acceptCqe (k + 1) :: (List.range k).map readCqe) ++ [readCqe k])
      cq := full.cq.drop (entriesLength * 2) })
    (acceptCqe (k + 1) :: (List.range k).map readCqe) [readCqe k] rfl (by rw [asked]; change full.sq.length + _ ≤ _; omega)
  refine ⟨_, last, run.append (accepted.append (arrive.append ((Run.single peeked).append process))), ?_⟩
  intro prepares
  have next := prepares (readCqe k) [] phase
  have outside : ¬ last.sq.length < entriesLength := by
    rw [length, asked]
    change ¬ full.sq.length + _ < _
    omega
  rw [step, phase] at next
  simp [processEntry, readCqe, setEventSend, prepare, noted, outside] at next

/-- No call of `io_uring_get_sqe` has no entry to return, in all runs with a number of
clients, exactly when the queue has an entry for each and two for an accept. -/
theorem prepares_iff_few_clients (clients : Nat) :
    (∀ socket files events last, Run (Step clients socket) (start socket files) events last → Prepares socket last) ↔
      clients ≤ 1022 := by
  constructor
  · intro prepares
    by_contra many
    have enough : 1022 < clients := Nat.lt_of_not_le many
    obtain ⟨events, last, run, full⟩ := crowd_overflows rfl enough
    exact full (prepares 3 _ events last run)
  · intro few socket files events last run
    exact few_prepare few run

theorem queue_overflows : ¬ ∀ clients socket files events last,
    Run (Step clients socket) (start socket files) events last → Prepares socket last := by
  intro always
  obtain ⟨events, last, run, full⟩ := crowd_overflows rfl (Nat.lt_succ_self 1022)
  exact full (always 1023 3 (· == 3) events last run)

end NetPrograms.Proofs.UringOverflow
