import NetPrograms.Proofs.WebSocketLines

/-! How far `handshake` writes into `linebuf`. -/

namespace NetPrograms.Proofs.WebSocketBounds
open WebSocket WebSocketHandshake WebSocketLines Course

variable {ssl : OpenSsl} {c : Conn}

/-- The handshake comes to an end, and neither `readline` nor `strcat` writes outside
`linebuf`. -/
def LinebufBounded (ssl : OpenSsl) (c : Conn) : Prop :=
  Terminates (Turns.handshake ssl c) ∧ ∀ turns, Turns.handshake ssl c turns ≠ .overflow

/-- The first line that names the key leaves room for the GUID and the NUL. -/
def KeyLineFits (text : List UInt8) : Prop :=
  ∀ line, (examined text).find? namesKey = some line → line.length + guid.length < 1024

theorem handshakeFrom_settled (idx : Nat) : Settled (Turns.handshakeFrom ssl c idx) := by
  intro turns
  induction turns generalizing idx with
  | zero => exact fun ended => absurd rfl ended
  | succ turns ih =>
    unfold Turns.handshakeFrom
    apply bind_ended
    rintro ⟨next, linebuf⟩
    apply bind_ended
    intro line
    split
    next => exact fun _ => rfl
    next =>
      split
      next => exact fun _ => rfl
      next =>
        apply bind_ended
        intro first
        apply bind_ended
        intro blank
        split
        next => exact fun _ => rfl
        next => exact ih _

section
variable {bytes : List UInt8}

theorem handshake_terminates (ssl : OpenSsl) (short : bytes.length ≤ 1023)
    (received : c.rbuffer.cells = bytes ++ List.replicate (1024 - bytes.length) 0) :
    Terminates (Turns.handshake ssl c) :=
  ⟨1024, (received_answers ssl short received).ended⟩

/-- For all that one `recv` leaves in the zeroed buffer, the handshake stays inside
`linebuf` exactly when the first line that names the key has at most 987 bytes. -/
theorem handshake_bounded_iff (ssl : OpenSsl) (c : Conn) (bytes : List UInt8) (short : bytes.length ≤ 1023)
    (received : c.rbuffer.cells = bytes ++ List.replicate (1024 - bytes.length) 0) :
    LinebufBounded ssl c ↔ KeyLineFits (textOf bytes) := by
  have answer := received_answers ssl short received
  have ends := handshake_terminates ssl short received
  constructor
  · intro ⟨_, inside⟩ line found
    by_contra long
    rw [found] at answer
    exact inside 1024 (answer.overflows (Nat.le_of_not_lt long))
  · intro fits
    obtain ⟨after, returned⟩ := answer.returns fits
    have settled : Settled (Turns.handshake ssl c) := handshakeFrom_settled 0
    refine ⟨ends, ?_⟩
    intro turns
    exact (settled.safe_of_returned returned turns).2

end

/-- The digest for the key of the example below. -/
def keyDigest : List UInt8 :=
  [0xb3, 0x7a, 0x4f, 0x2c, 0xc0, 0x62, 0x4f, 0x16, 0x90, 0xf6, 0x46, 0x06, 0xcf, 0x38, 0x59, 0x45, 0xb2, 0xbe, 0xc4, 0xea]

def keyEncoding : List UInt8 := ascii "s3pPLMBiTxaQ9kYGzzhZRbK+xOo=\n"

theorem keyDigest_length (_ : List UInt8) : keyDigest.length = 20 := rfl

theorem keyEncoding_length (bytes : List UInt8) (_ : bytes.length = 20) : keyEncoding.length = 29 := by decide

def keySsl : OpenSsl where
  sha1 _ := keyDigest
  sha1_length := keyDigest_length
  base64 _ := keyEncoding
  base64_length := keyEncoding_length

def keyRequest : List UInt8 := ascii "GET / HTTP/1.1\r\nSec-WebSocket-Key: dGhlIHNhbXBsZSBub25jZQ==\r\n\r\n"

theorem keyRequest_short : keyRequest.length ≤ 1023 := by decide

theorem handshake_bounded_iff_request :
    LinebufBounded keySsl (holding keyRequest keyRequest_short) ↔ KeyLineFits (textOf keyRequest) :=
  handshake_bounded_iff keySsl _ keyRequest keyRequest_short (holding_cells _ _)

/-- A header line of 988 bytes. -/
def longKeyLine : List UInt8 := keyName ++ ascii ": " ++ List.replicate 969 65

def longKeyRequest : List UInt8 := ascii "GET / HTTP/1.1\r\n" ++ longKeyLine ++ ascii "\r\n\r\n"

theorem longKeyRequest_short : longKeyRequest.length ≤ 1023 := by decide +kernel

/-- The NUL behind the GUID is written behind `linebuf`. -/
theorem long_key_line_overflows : ¬ LinebufBounded keySsl (holding longKeyRequest longKeyRequest_short) := by
  have named : (examined (textOf longKeyRequest)).find? namesKey = some longKeyLine := by decide +kernel
  have answer := received_answers keySsl longKeyRequest_short (holding_cells longKeyRequest longKeyRequest_short)
  rw [named] at answer
  intro bounded
  exact bounded.2 1024 (answer.overflows (by decide +kernel))

end NetPrograms.Proofs.WebSocketBounds
