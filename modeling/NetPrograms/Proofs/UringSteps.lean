import NetPrograms.Uring.Server

/-! What one step of the program or of the kernel can do, with the conditions under
which it does it. -/

namespace NetPrograms.Proofs.UringSteps
open Uring

variable {socket : Int} {s after : Ring}

inductive Stepped (socket : Int) (s : Ring) : Event → Ring → Prop where
  | submit {count} (top : s.phase = .top) (enough : count ≤ s.sq.length) :
      Stepped socket s (.submit count) { s with
        phase := .waiting
        sq := s.sq.drop count
        flight := s.flight ++ (s.sq.take count).map (⟨·, false⟩) }
  | peek (waiting : s.phase = .waiting) :
      Stepped socket s .peek { s with
        phase := .batch (s.cq.take (entriesLength * 2))
        cq := s.cq.drop (entriesLength * 2) }
  | process {entry entries after} (batch : s.phase = .batch (entry :: entries))
      (handled : processEntry socket { s with phase := .batch entries } entry = some after) :
      Stepped socket s .process after
  | advance (batch : s.phase = .batch []) : Stepped socket s .advance { s with phase := .top }
  | transmit {index op bytes} (found : s.flight[index]? = some op) (unsent : op.sqe.event = .write ∧ op.sent = false)
      (read : s.buffer.read 0 op.sqe.len = some bytes) :
      Stepped socket s (.transmit index) { s with
        flight := s.flight.set index { op with sent := true }
        wire := s.wire ++ [⟨op.sqe.fd, bytes, op.sqe.received⟩] }
  | received {index op bytes buffer} (found : s.flight[index]? = some op)
      (may : op.sqe.event = .read ∧ bytes ≠ [] ∧ bytes.length ≤ op.sqe.len) (stored : s.buffer.write 0 bytes = some buffer) :
      Stepped socket s (.received index bytes) { s with
        flight := s.flight.eraseIdx index
        cq := s.cq ++ [⟨.read, op.sqe.fd, bytes.length, bytes⟩]
        buffer }
  | completed {index op res} (found : s.flight[index]? = some op) (may : mayComplete s.files res op.sqe.event = true) :
      Stepped socket s (.completed index res) { s with
        flight := s.flight.eraseIdx index
        cq := s.cq ++ [⟨op.sqe.event, op.sqe.fd, res, []⟩]
        files := if op.sqe.event = .accept ∧ 0 ≤ res then Function.update s.files res true else s.files }

theorem step_cases {event : Event} (stepped : step socket s event = some after) : Stepped socket s event after := by
  cases event with
  | submit count =>
    simp only [step] at stepped
    split at stepped
    next top =>
      split at stepped
      next enough =>
        obtain rfl := Option.some.inj stepped
        exact .submit top enough
      next => cases stepped
    next => cases stepped
  | peek =>
    simp only [step] at stepped
    split at stepped
    next waiting =>
      obtain rfl := Option.some.inj stepped
      exact .peek waiting
    next => cases stepped
  | process =>
    simp only [step] at stepped
    split at stepped
    next entry entries batch => exact .process batch stepped
    next => cases stepped
  | advance =>
    simp only [step] at stepped
    split at stepped
    next batch =>
      obtain rfl := Option.some.inj stepped
      exact .advance batch
    next => cases stepped
  | transmit index =>
    obtain ⟨op, found, sends⟩ := Option.bind_eq_some_iff.mp stepped
    split at sends
    next unsent =>
      obtain ⟨bytes, read, written⟩ := Option.bind_eq_some_iff.mp sends
      obtain rfl := Option.some.inj written
      exact .transmit found unsent read
    next => cases sends
  | received index bytes =>
    obtain ⟨op, found, receives⟩ := Option.bind_eq_some_iff.mp stepped
    split at receives
    next may =>
      obtain ⟨buffer, stored, written⟩ := Option.bind_eq_some_iff.mp receives
      obtain rfl := Option.some.inj written
      exact .received found may stored
    next => cases receives
  | completed index res =>
    obtain ⟨op, found, completes⟩ := Option.bind_eq_some_iff.mp stepped
    split at completes
    next may =>
      obtain rfl := Option.some.inj completes
      exact .completed found may
    next => cases completes

theorem prepare_eq_some {sqe : Sqe} (room : prepare s sqe = some after) :
    after = { s with sq := s.sq ++ [sqe] } := by
  unfold prepare at room
  split at room
  · exact (Option.some.inj room).symm
  · cases room

theorem taken_eq (s : Ring) (res : Int) : taken s res = { s with conns := (taken s res).conns } := by
  unfold taken
  split
  · rfl
  · rfl

/-- The state with one more request. -/
abbrev asked (s : Ring) (sqe : Sqe) : Ring := { s with sq := s.sq ++ [sqe] }

/-- What the body of the loop does for a completion: an accept asks for the next one and for
a receive, a receive for its echo unless the client is gone, an echo for a receive. -/
inductive Handled (socket : Int) (s : Ring) : Cqe → Ring → Prop where
  | accept {fd res received} : Handled socket s ⟨.accept, fd, res, received⟩
      (asked (noted (asked (taken s res) ⟨.accept, socket, 0, []⟩) res .read) ⟨.read, res, bufferLength, []⟩)
  | ended {fd res received} (gone : res ≤ 0) : Handled socket s ⟨.read, fd, res, received⟩ (close s fd)
  | sends {fd res received} (more : ¬ res ≤ 0) : Handled socket s ⟨.read, fd, res, received⟩
      (asked (noted s fd .write) ⟨.write, fd, res.toNat, received⟩)
  | receives {fd res received} : Handled socket s ⟨.write, fd, res, received⟩
      (asked (noted s fd .read) ⟨.read, fd, bufferLength, []⟩)

theorem processEntry_cases {entry : Cqe} (handled : processEntry socket s entry = some after) : Handled socket s entry after := by
  obtain ⟨event, fd, res, received⟩ := entry
  cases event with
  | accept =>
    obtain ⟨middle, accept, receive⟩ := Option.bind_eq_some_iff.mp handled
    obtain rfl := prepare_eq_some accept
    obtain rfl := prepare_eq_some receive
    exact .accept
  | read =>
    simp only [processEntry] at handled
    split at handled
    next gone =>
      cases handled
      exact .ended gone
    next more =>
      obtain rfl := prepare_eq_some handled
      exact .sends more
  | write =>
    simp only [processEntry] at handled
    obtain rfl := prepare_eq_some handled
    exact .receives

end NetPrograms.Proofs.UringSteps
