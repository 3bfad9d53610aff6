import NetPrograms.Proofs.UringDiscipline

/-! What the server sends back. All connections share one buffer, and an echo relies
on it from the completion of its receive until its send has read it. -/

namespace NetPrograms.Proofs.UringEcho
open Uring UringSteps UringDiscipline

def sqeEcho (sqe : Sqe) : Option (Nat × List UInt8) :=
  if sqe.event = .write then some (sqe.len, sqe.received) else none

def cqeEcho (entry : Cqe) : Option (Nat × List UInt8) :=
  if entry.event = .read ∧ 0 < entry.res then some (entry.res.toNat, entry.received) else none

/-- The echoes that rely on the buffer: how many bytes, and which were received. -/
def pending (s : Ring) : List (Nat × List UInt8) :=
  s.sq.filterMap sqeEcho ++ (s.flight.filter (!·.sent)).filterMap (fun op => sqeEcho op.sqe) ++
    (s.cq ++ entriesOf s.phase).filterMap cqeEcho

/-- A receive does not change the bytes an echo relies on. -/
def Spares (s : Ring) : Event → Prop
  | .received _ bytes => ∀ echo ∈ pending s, bytes <+: echo.2 ∨ echo.2 <+: bytes
  | _ => True

instance (s : Ring) (event : Event) : Decidable (Spares s event) :=
  match event with
  | .received _ bytes => inferInstanceAs (Decidable (∀ echo ∈ pending s, bytes <+: echo.2 ∨ echo.2 <+: bytes))
  | .submit _ | .peek | .process | .advance | .transmit _ | .completed _ _ => isTrue trivial

structure Faithful (s : Ring) : Prop where
  pending : ∀ echo ∈ pending s, echo.1 = echo.2.length ∧ echo.2 <+: s.buffer.cells
  wire : ∀ sent ∈ s.wire, sent.bytes = sent.received

variable {socket : Int} {s after : Ring}

theorem Faithful.frame (held : Faithful s) (fewer : UringEcho.pending after ⊆ UringEcho.pending s)
    (buffer : after.buffer = s.buffer) (wire : after.wire = s.wire) : Faithful after := by
  refine ⟨?_, wire ▸ held.wire⟩
  intro echo member
  rw [buffer]
  exact held.pending echo (fewer member)

theorem mem_pending {echo : Nat × List UInt8} : echo ∈ pending s ↔ (∃ sqe ∈ s.sq, sqeEcho sqe = some echo) ∨
    (∃ op ∈ s.flight, op.sent = false ∧ sqeEcho op.sqe = some echo) ∨
      ∃ entry ∈ s.cq ++ entriesOf s.phase, cqeEcho entry = some echo := by
  unfold pending
  simp only [List.mem_append, List.mem_filterMap, List.mem_filter, Bool.not_eq_true', or_assoc, and_assoc]

private theorem pending_fewer (prepared : ∀ sqe ∈ after.sq, ∀ echo, sqeEcho sqe = some echo → echo ∈ pending s)
    (flown : ∀ op ∈ after.flight, op.sent = false → ∀ echo, sqeEcho op.sqe = some echo → echo ∈ pending s)
    (completed : ∀ entry ∈ after.cq ++ entriesOf after.phase, ∀ echo, cqeEcho entry = some echo → echo ∈ pending s) :
    pending after ⊆ pending s := by
  intro echo member
  rcases mem_pending.mp member with ⟨sqe, inside, same⟩ | ⟨op, inside, unsent, same⟩ | ⟨entry, inside, same⟩
  · exact prepared sqe inside echo same
  · exact flown op inside unsent echo same
  · exact completed entry inside echo same

private theorem of_sq {sqe : Sqe} (inside : sqe ∈ s.sq) (echo : Nat × List UInt8) (same : sqeEcho sqe = some echo) :
    echo ∈ pending s := mem_pending.mpr (Or.inl ⟨sqe, inside, same⟩)

private theorem of_flight {op : Flight} (inside : op ∈ s.flight) (unsent : op.sent = false) (echo : Nat × List UInt8)
    (same : sqeEcho op.sqe = some echo) : echo ∈ pending s := mem_pending.mpr (Or.inr (Or.inl ⟨op, inside, unsent, same⟩))

private theorem of_entries {entry : Cqe} (inside : entry ∈ s.cq ++ entriesOf s.phase) (echo : Nat × List UInt8)
    (same : cqeEcho entry = some echo) : echo ∈ pending s := mem_pending.mpr (Or.inr (Or.inr ⟨entry, inside, same⟩))

private theorem pending_entries (sq : after.sq = s.sq) (flight : after.flight = s.flight)
    (entries : ∀ entry ∈ after.cq ++ entriesOf after.phase, entry ∈ s.cq ++ entriesOf s.phase) :
    pending after ⊆ pending s := by
  apply pending_fewer
  · exact fun sqe inside => of_sq (sq ▸ inside)
  · exact fun op inside => of_flight (flight ▸ inside)
  · exact fun entry inside => of_entries (entries entry inside)

private theorem prefix_overlay {cells bytes received : List UInt8} (kept : received <+: cells)
    (agrees : bytes <+: received ∨ received <+: bytes) : received <+: bytes ++ cells.drop bytes.length := by
  rcases agrees with shorter | longer
  · obtain ⟨rest, rfl⟩ := shorter
    obtain ⟨back, rfl⟩ := kept
    rw [List.append_assoc, List.drop_left]
    exact ⟨back, by rw [List.append_assoc]⟩
  · exact longer.trans (List.prefix_append _ _)

theorem Faithful.receives (held : Faithful s) {index : Nat} {op : Flight} {bytes : List UInt8} {buffer : Buffer UInt8 bufferLength}
    (spares : Spares s (.received index bytes)) (stored : s.buffer.write 0 bytes = some buffer) :
    Faithful { s with
      flight := s.flight.eraseIdx index
      cq := s.cq ++ [⟨.read, op.sqe.fd, bytes.length, bytes⟩]
      buffer } := by
  have cells := (Buffer.write_eq_some stored).2
  rw [Block.overlay_zero] at cells
  refine ⟨?_, held.wire⟩
  intro echo member
  by_cases earlier : echo ∈ UringEcho.pending s
  · obtain ⟨length, kept⟩ := held.pending echo earlier
    refine ⟨length, ?_⟩
    rw [cells]
    exact prefix_overlay kept (spares echo earlier)
  · -- the only new echo is the one of the receive
    have new : cqeEcho ⟨.read, op.sqe.fd, bytes.length, bytes⟩ = some echo := by
      rcases mem_pending.mp member with ⟨sqe, inside, same⟩ | ⟨other, inside, unsent, same⟩ | ⟨entry, inside, same⟩
      · exact absurd (@of_sq s _ inside echo same) earlier
      · exact absurd (of_flight (List.mem_of_mem_eraseIdx inside) unsent echo same) earlier
      · simp only [List.mem_append, List.mem_singleton] at inside
        rcases inside with (before | rfl) | batch
        · exact absurd (of_entries (List.mem_append_left _ before) echo same) earlier
        · exact same
        · exact absurd (of_entries (List.mem_append_right _ batch) echo same) earlier
    unfold cqeEcho at new
    split at new
    · obtain rfl := Option.some.inj new
      refine ⟨rfl, ?_⟩
      rw [cells]
      exact List.prefix_append _ _
    · cases new

theorem Faithful.transmits (held : Faithful s) {index : Nat} {op : Flight} {bytes : List UInt8}
    (found : s.flight[index]? = some op) (unsent : op.sqe.event = .write ∧ op.sent = false)
    (read : s.buffer.read 0 op.sqe.len = some bytes) :
    Faithful { s with
      flight := s.flight.set index { op with sent := true }
      wire := s.wire ++ [⟨op.sqe.fd, bytes, op.sqe.received⟩] } := by
  have echoed : sqeEcho op.sqe = some (op.sqe.len, op.sqe.received) := if_pos unsent.1
  obtain ⟨length, kept⟩ := held.pending _ (of_flight (List.mem_of_getElem? found) unsent.2 _ echoed)
  refine ⟨?_, ?_⟩
  · intro echo member
    apply held.pending
    revert member
    apply pending_fewer
    · exact fun sqe inside => of_sq inside
    · intro other inside still
      rcases List.mem_or_eq_of_mem_set inside with earlier | rfl
      · exact of_flight earlier still
      · cases still
    · exact fun entry inside => of_entries inside
  · intro sent member
    rcases List.mem_append.mp member |>.imp_right List.mem_singleton.mp with earlier | rfl
    · exact held.wire sent earlier
    · obtain ⟨-, rfl⟩ := Block.read_eq_some read
      rw [Block.slice_zero]
      obtain ⟨back, whole⟩ := kept
      change s.buffer.cells.take op.sqe.len = op.sqe.received
      replace length : op.sqe.len = op.sqe.received.length := length
      rw [length, ← whole, List.take_left]

/-- The program prepares a request: an echo of what the buffer holds, or none. -/
theorem Faithful.prepares (held : Faithful s) {sqe : Sqe}
    (faithful : ∀ echo, sqeEcho sqe = some echo → echo.1 = echo.2.length ∧ echo.2 <+: s.buffer.cells) :
    Faithful { s with sq := s.sq ++ [sqe] } := by
  refine ⟨?_, held.wire⟩
  intro echo member
  rcases mem_pending.mp member with ⟨other, inside, same⟩ | ⟨op, inside, unsent, same⟩ | ⟨entry, inside, same⟩
  · rcases List.mem_append.mp inside |>.imp_right List.mem_singleton.mp with earlier | rfl
    · exact held.pending echo (of_sq earlier echo same)
    · exact faithful echo same
  · exact held.pending echo (@of_flight s op inside unsent echo same)
  · exact held.pending echo (@of_entries s entry inside echo same)

theorem Faithful.asks (held : Faithful s) {sqe : Sqe} (idle : sqeEcho sqe = none) :
    Faithful { s with sq := s.sq ++ [sqe] } := by
  apply held.prepares
  intro echo same
  rw [idle] at same
  cases same

theorem Faithful.notes (held : Faithful s) (fd : Int) (event : Kind) : Faithful (noted s fd event) :=
  ⟨held.pending, held.wire⟩

theorem Faithful.processed {entry : Cqe} {entries : List Cqe}
    (held : Faithful { s with phase := .batch (entry :: entries) })
    (handled : processEntry socket { s with phase := .batch entries } entry = some after) : Faithful after := by
  have remaining : Faithful { s with phase := .batch entries } := by
    refine held.frame (pending_entries rfl rfl ?_) rfl rfl
    intro other inside
    simp only [List.mem_append, entriesOf, List.mem_cons] at inside ⊢
    tauto
  cases processEntry_cases handled with
  | @accept _ res =>
    have connected : Faithful (taken { s with phase := .batch entries } res) := by
      rw [taken_eq]
      exact ⟨remaining.pending, remaining.wire⟩
    apply Faithful.asks _ rfl
    apply Faithful.notes
    exact connected.asks rfl
  | ended => exact ⟨remaining.pending, remaining.wire⟩
  | @sends fd _ _ more =>
    apply (remaining.notes fd .write).prepares
    intro echo same
    obtain rfl := Option.some.inj same
    apply held.pending
    apply of_entries (List.mem_append_right _ List.mem_cons_self)
    exact if_pos ⟨rfl, Int.not_le.mp more⟩
  | @receives fd => exact (remaining.notes fd .read).asks rfl

private theorem cqeEcho_idle {files : Int → Bool} {event : Kind} {fd res : Int}
    (may : mayComplete files res event = true) : cqeEcho ⟨event, fd, res, []⟩ = none := by
  apply if_neg
  intro read
  obtain ⟨kind, positive⟩ := read
  replace kind : event = .read := kind
  replace positive : 0 < res := positive
  rw [kind, mayComplete, decide_eq_true_eq] at may
  omega

theorem step_faithful (held : Faithful s) {event : Event} (spares : Spares s event)
    (stepped : step socket s event = some after) : Faithful after := by
  cases step_cases stepped with
  | submit top enough =>
    refine held.frame ?_ rfl rfl
    apply pending_fewer
    · exact fun sqe inside => of_sq (List.mem_of_mem_drop inside)
    · intro op inside unsent
      rcases List.mem_append.mp inside with earlier | submitted
      · exact of_flight earlier unsent
      · obtain ⟨sqe, prepared, rfl⟩ := List.mem_map.mp submitted
        exact of_sq (List.mem_of_mem_take prepared)
    · intro entry inside
      apply of_entries
      rwa [top]
  | peek waiting =>
    refine held.frame (pending_entries rfl rfl ?_) rfl rfl
    intro entry inside
    apply List.mem_append_left
    rcases List.mem_append.mp inside with later | now
    · exact List.mem_of_mem_drop later
    · exact List.mem_of_mem_take now
  | process batch handled =>
    apply Faithful.processed _ handled
    rw [← batch]
    exact held
  | advance batch =>
    refine held.frame (pending_entries rfl rfl ?_) rfl rfl
    intro entry inside
    rwa [batch]
  | transmit found unsent read => exact held.transmits found unsent read
  | received found may stored => exact held.receives spares stored
  | completed found may =>
    refine held.frame ?_ rfl rfl
    apply pending_fewer
    · exact fun sqe inside => of_sq inside
    · exact fun other inside => of_flight (List.mem_of_mem_eraseIdx inside)
    · intro entry inside echo same
      simp only [List.mem_append, List.mem_singleton] at inside
      rcases inside with (before | rfl) | batch
      · exact of_entries (List.mem_append_left _ before) echo same
      · rw [cqeEcho_idle may] at same
        cases same
      · exact of_entries (List.mem_append_right _ batch) echo same

theorem start_faithful (socket : Int) (files : Int → Bool) : Faithful (start socket files) := by
  refine ⟨?_, ?_⟩
  · intro echo member
    cases member
  · intro sent member
    cases member

/-- In a run in which every receive spares the echoes that are pending, a send
transmits what the receive before it on its connection received. -/
theorem uring_echo_when_spared {files : Int → Bool} {events : List Event} {last : Ring}
    (run : Run (Taken (meeting Spares (step socket))) (start socket files) events last) :
    ∀ sent ∈ last.wire, sent.bytes = sent.received := by
  have held := run.invariant Faithful (start_faithful socket files) fun _ _ _ held taken =>
    step_faithful held (meeting_eq_some taken).1 (meeting_eq_some taken).2
  exact held.wire

def clients : List Event :=
  [.submit 1, .completed 0 5, .peek, .process, .advance, .submit 2, .completed 0 6, .peek, .process, .advance, .submit 2]

/-- The second client sends after the first one's byte is back on its way. -/
def inTurn : List Event :=
  clients ++ [.received 0 [1], .peek, .process, .advance, .submit 1, .transmit 2,
    .received 1 [2], .peek, .process, .advance, .submit 1, .transmit 2]

theorem uring_echo_in_turn : ∃ last,
    exec (meeting Spares (step 3)) (start 3 (· == 3)) inTurn = some last ∧
      last.wire.map (·.bytes) = [[1], [2]] ∧ ∀ sent ∈ last.wire, sent.bytes = sent.received := by
  have wire : (exec (meeting Spares (step 3)) (start 3 (· == 3)) inTurn).map (·.wire.map (·.bytes)) = some [[1], [2]] := by
    decide +kernel
  obtain ⟨last, reached, bytes⟩ := Option.map_eq_some_iff.mp wire
  exact ⟨last, reached, bytes, uring_echo_when_spared (Run.of_exec reached)⟩

/-- Both clients send before the program looks at either. -/
def together : List Event :=
  clients ++ [.received 0 [1], .received 1 [2], .peek, .process, .process, .advance, .submit 2, .transmit 1]

/-- The first client is sent the byte of the second one. -/
theorem uring_echo_mixes_clients : ¬ ∀ socket files events last,
    Run (Taken (step socket)) (start socket files) events last → ∀ sent ∈ last.wire, sent.bytes = sent.received := by
  intro faithful
  have wire : (exec (step 3) (start 3 (· == 3)) together).map (·.wire) = some [⟨5, [2], [1]⟩] := by decide +kernel
  obtain ⟨last, reached, sent⟩ := Option.map_eq_some_iff.mp wire
  have same := faithful 3 (· == 3) together last (Run.of_exec reached) ⟨5, [2], [1]⟩ (sent ▸ List.mem_singleton_self _)
  revert same
  decide

end NetPrograms.Proofs.UringEcho
