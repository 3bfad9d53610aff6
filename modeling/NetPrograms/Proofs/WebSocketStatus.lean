import NetPrograms.Proofs.ReactorRule
import NetPrograms.Proofs.WebSocketLines
import NetPrograms.WebSocket.Server

/-! When `status` 1 means that the handshake was answered. -/

namespace NetPrograms.Proofs.WebSocketStatus
open WebSocket WebSocketHandshake WebSocketLines ReactorRule

variable {ssl : OpenSsl}

/-- A 101 response was placed for a text with a header line for the key. -/
def Switched (log : List Act) : Prop :=
  ∃ bytes conn, .requested bytes conn ∈ log ∧ hasKeyLine (textOf bytes) = true ∧ Placed conn

def Keyed (c : Conn) : RecvResult → Prop
  | .data chunk => c.status = 0 → hasKeyLine (textOf chunk.bytes) = true
  | .disconnect | .failed => True

instance (c : Conn) (result : RecvResult) : Decidable (Keyed c result) :=
  match result with
  | .data chunk => inferInstanceAs (Decidable (c.status = 0 → hasKeyLine (textOf chunk.bytes) = true))
  | .disconnect | .failed => isTrue trivial

def Answered (c : Conn) (log : List Act) : Prop := c.status = 0 ∨ c.status = 1 ∧ Switched log

def rules : Rules Conn Act RecvResult Unit where
  idle := Answered
  armed c log _ := Answered c log
  mayRecv := Keyed
  maySend _ _ := True

theorem Switched.append {log : List Act} (switched : Switched log) (more : List Act) : Switched (log ++ more) := by
  obtain ⟨bytes, conn, member, keyed, placed⟩ := switched
  exact ⟨bytes, conn, List.mem_append_left _ member, keyed, placed⟩

/-- What happens later leaves the status. -/
theorem Answered.append {c after : Conn} {log : List Act} (answered : Answered c log) (same : after.status = c.status)
    (more : List Act) : Answered after (log ++ more) := by
  rcases answered with before | upgraded
  · exact Or.inl (same.trans before)
  · exact Or.inr ⟨same.trans upgraded.1, upgraded.2.append more⟩

/-- `recv_cb` sets the status whatever `handshake` found. -/
theorem recvCb_status {slot after : Slot} {chunk : Chunk} (called : recvCb ssl slot (.data chunk) = some after) :
    after.armed = .output ∧
      (slot.conn.status = 0 → after.conn.status = 1 ∧ (hasKeyLine (textOf chunk.bytes) = true → Placed after.conn)) ∧
      (slot.conn.status ≠ 0 → after.conn.status = slot.conn.status) := by
  obtain ⟨rbuffer, written, called⟩ := Option.bind_eq_some_iff.mp called
  obtain ⟨conn, requested, called⟩ := Option.bind_eq_some_iff.mp called
  obtain rfl := Option.some.inj called
  refine ⟨rfl, ?_, ?_⟩
  · intro status
    simp only [wsRequest, if_pos status] at requested
    obtain ⟨shaken, shake, same⟩ := Option.bind_eq_some_iff.mp requested
    obtain rfl := Option.some.inj same
    refine ⟨rfl, ?_⟩
    intro keyed
    have text : textOf rbuffer.cells = textOf chunk.bytes := by
      rw [(Buffer.write_eq_some written).2, Block.overlay_zero]
      exact (congrArg textOf (congrArg _ List.drop_replicate)).trans (textOf_zeros _ _)
    rw [← text] at keyed
    have placed : Placed shaken := handshake_places keyed shake
    exact placed
  · intro status
    simp only [wsRequest, if_neg status] at requested
    split at requested
    next =>
      obtain ⟨d, -, requested⟩ := Option.bind_eq_some_iff.mp requested
      obtain ⟨encoded, -, same⟩ := Option.bind_eq_some_iff.mp requested
      obtain rfl := Option.some.inj same
      rfl
    next =>
      obtain rfl := Option.some.inj requested
      rfl

theorem sendCb_status {slot after : Slot} (called : sendCb slot = some after) :
    after.armed = .input ∧ after.conn = slot.conn := by
  unfold sendCb at called
  split at called
  next =>
    obtain ⟨bytes, -, same⟩ := Option.bind_eq_some_iff.mp called
    obtain rfl := Option.some.inj same
    exact ⟨rfl, rfl⟩
  next =>
    obtain rfl := Option.some.inj called
    exact ⟨rfl, rfl⟩

theorem contract : rules.Contract (program ssl) := by
  refine ⟨fun _ _ _ _ => rfl, ?_, ?_, ?_⟩
  · intro conn log _
    exact Or.inl rfl
  · intro slot log result out armed keyed called
    obtain ⟨after, returned, same⟩ := Option.bind_eq_some_iff.mp called
    obtain rfl := Option.some.inj same
    cases result with
    | data chunk =>
      obtain ⟨output, before, later⟩ := recvCb_status returned
      refine ⟨by simp, ?_⟩
      simp only [output, endOf]
      by_cases status : slot.conn.status = 0
      · obtain ⟨upgraded, placed⟩ := before status
        exact Or.inr ⟨upgraded, chunk.bytes, after.conn, by simp, keyed status, placed (keyed status)⟩
      · exact armed.append (later status) _
    | disconnect =>
      obtain rfl := Option.some.inj returned
      exact ⟨nofun, armed.append rfl _⟩
    | failed =>
      obtain rfl := Option.some.inj returned
      exact ⟨nofun, armed.append rfl _⟩
  · intro slot log _ out armed _ called
    obtain ⟨after, returned, same⟩ := Option.bind_eq_some_iff.mp called
    obtain rfl := Option.some.inj same
    obtain ⟨input, kept⟩ := sendCb_status returned
    refine ⟨by simp, ?_⟩
    simp only [input, endOf, kept]
    exact armed.append rfl _

def Upgrades (s : Reactor.System Conn Act) : Reactor.Event RecvResult Unit → Prop
  | .readable result => ∀ entry ∈ s.batch.head?, Keyed (s.connList entry.1).conn result
  | _ => True

instance (s : Reactor.System Conn Act) (event : Reactor.Event RecvResult Unit) : Decidable (Upgrades s event) :=
  match event with
  | .readable result => inferInstanceAs (Decidable (∀ entry ∈ s.batch.head?, Keyed (s.connList entry.1).conn result))
  | .port _ _ _ | .wait _ | .accepted _ | .writable _ => isTrue trivial

/-- In every run in which each connection first receives a request with a complete header
line for the key, each connection has status 0, or it has status 1 and a 101 response was
placed for such a request. -/
theorem upgraded_is_answered (ssl : OpenSsl) {files : Int → Bool} {events : List (Reactor.Event RecvResult Unit)}
    {last : Reactor.System Conn Act}
    (run : Run (Taken (Reactor.moves (program ssl) Upgrades)) (Reactor.start eventRegister.conn files) events last)
    (fd : Int) : Answered (last.connList fd).conn (last.log fd) := by
  have held : rules.Holds last := by
    apply contract.run _ (Or.inl rfl) run
    intro s event met
    cases event with
    | readable result => exact met
    | writable result => exact fun _ _ => trivial
    | _ => trivial
  rcases held.either fd with idle | client
  · exact idle
  · obtain ⟨_, _, armed⟩ := client
    exact armed

/-- OpenSSL at the key of the example below. -/
private def exampleSsl : OpenSsl where
  sha1 _ := [0xb3, 0x7a, 0x4f, 0x2c, 0xc0, 0x62, 0x4f, 0x16, 0x90, 0xf6, 0x46, 0x06, 0xcf, 0x38, 0x59, 0x45, 0xb2, 0xbe,
    0xc4, 0xea]
  sha1_length _ := rfl
  base64 _ := ascii "s3pPLMBiTxaQ9kYGzzhZRbK+xOo=\n"
  base64_length _ _ := by decide

private def upgrade : Chunk :=
  ⟨ascii "GET / HTTP/1.1\r\nSec-WebSocket-Key: dGhlIHNhbXBsZSBub25jZQ==\r\n\r\n", by decide, by decide⟩

def opening (chunk : Chunk) : List (Reactor.Event RecvResult Unit) :=
  (List.range Reactor.maxPorts).map (fun i => .port (3 + i) 0 0) ++
    [.wait [(3, .input)], .accepted 40, .wait [(40, .input)], .readable (.data chunk)]

theorem upgraded_is_answered_example : ∃ last,
    exec (Reactor.moves (program exampleSsl) Upgrades) (Reactor.start eventRegister.conn fun _ => false) (opening upgrade) =
      some last ∧ (last.connList 40).conn.status = 1 ∧ Answered (last.connList 40).conn (last.log 40) := by
  have reached : ((exec (Reactor.moves (program exampleSsl) Upgrades) (Reactor.start eventRegister.conn fun _ => false)
      (opening upgrade)).map fun s => (s.connList 40).conn.status) = some 1 := by decide +kernel
  obtain ⟨last, reached, status⟩ := Option.map_eq_some_iff.mp reached
  exact ⟨last, reached, status, upgraded_is_answered exampleSsl (Run.of_exec reached) 40⟩

private def plain : Chunk := ⟨ascii "GET / HTTP/1.1\r\n\r\n", by decide, by decide⟩

private def unkeyed : Act → Bool
  | .requested bytes _ => !hasKeyLine (textOf bytes)
  | .handed _ => true

/-- A request without the key has no answer, and the connection counts as upgraded. -/
theorem plain_request_upgrades : ¬ ∀ ssl files events last,
    Run (Taken (Reactor.moves (program ssl) fun _ _ => True)) (Reactor.start eventRegister.conn files) events last →
      ∀ fd, Answered (last.connList fd).conn (last.log fd) := by
  intro always
  have reached : ((exec (Reactor.moves (program exampleSsl) fun _ _ => True) (Reactor.start eventRegister.conn fun _ => false)
      (opening plain)).map fun s => ((s.connList 40).conn.status, (s.log 40).all unkeyed)) = some (1, true) := by decide +kernel
  obtain ⟨last, reached, same⟩ := Option.map_eq_some_iff.mp reached
  obtain ⟨status, none⟩ := Prod.mk.inj same
  have answered := (always exampleSsl _ _ last (Run.of_exec reached) 40).resolve_left (by rw [status]; decide)
  obtain ⟨-, bytes, conn, member, keyed, -⟩ := answered
  have without := List.all_eq_true.mp none _ member
  rw [unkeyed, keyed] at without
  cases without

end NetPrograms.Proofs.WebSocketStatus
