import NetPrograms.Lib.Run
import NetPrograms.WebSocket.Reactor
import NetPrograms.Proofs.WebSocketDecode
import NetPrograms.Proofs.WebSocketEncode
import Mathlib.Data.List.Forall2

/-! The server answers each result of `recv` with one frame. It keeps nothing of
a stream between two results, so the frames of the client have to begin where
the results do. -/

namespace NetPrograms.Proofs.WebSocketEcho
open WebSocket Rfc6455

variable {ssl : OpenSsl}

def echoOf (frame : Frame) : Frame := WebSocketEncode.echoFrame frame.payload frame.bound

def received (events : List Event) : List Chunk :=
  events.filterMap fun
    | .readable (.data chunk) => some chunk
    | _ => none

/-- Each result of `recv` begins with the client's next frame and holds all of it. -/
def Aligned (frames : List Frame) (chunks : List Chunk) : Prop :=
  List.Forall₂ (fun frame chunk => ∃ tail, chunk.bytes = frame.encode ++ tail) frames chunks

/-- `reply` is what the next `send` is called with. -/
structure Prepared (c : Conn) (reply : List UInt8) : Prop where
  length : c.wlength = reply.length
  nonempty : reply ≠ []
  fits : reply.length ≤ 1024
  bytes : c.wbuffer.cells.take reply.length = reply

private theorem short_encode {frame : Frame} (short : frame.payload.length < 126) :
    (echoOf frame).encode = 0x81 :: UInt8.ofNat frame.payload.length :: frame.payload :=
  WebSocketEncode.echoFrame_encode frame.bound short

/-- A result of `recv` that begins with a short frame prepares its echo; what
follows the frame in the buffer is lost with the next result. -/
theorem recvCb_prepares (ssl : OpenSsl) {slot : Slot} {frame : Frame} {key : Key} {chunk : Chunk} {tail : List UInt8}
    (ready : slot.conn.status = 1) (masked : frame.key = some key) (short : frame.payload.length < 126)
    (aligned : chunk.bytes = frame.encode ++ tail) :
    ∃ after, recvCb ssl slot (.data chunk) = some after ∧ after.armed = .output ∧ after.conn.status = 1 ∧
      after.handed = slot.handed ∧ Prepared after.conn (echoOf frame).encode := by
  have fits : chunk.bytes.length ≤ 1024 := chunk.fits
  obtain ⟨rbuffer, written, cells⟩ := Buffer.write_of_le (Buffer.fill 0 : Buffer UInt8 bufferLength) 0
    chunk.bytes (by simpa using fits)
  have stored : rbuffer.cells = frame.encode ++ (tail ++ (Buffer.fill 0 : Buffer UInt8 bufferLength).cells.drop
      chunk.bytes.length) := by
    rw [cells, Block.overlay_zero, aligned, List.append_assoc]
  obtain ⟨d, decoded, ret, -, payload⟩ := WebSocketDecode.decodes_short masked stored short (Buffer.fill 0)
    chunk.bytes.length
  have memory : d.stream.cells.drop d.data = frame.payload ++ (d.stream.cells.drop d.data).drop frame.payload.length := by
    conv => lhs; rw [← List.take_append_drop frame.payload.length (d.stream.cells.drop d.data)]
    exact congrArg (· ++ _) payload
  obtain ⟨wbuffer, encoded, reply⟩ := WebSocketEncode.encodePacket_short slot.conn.wbuffer d.mask
    ((d.stream.cells.drop d.data).drop frame.payload.length) short (show 2 + frame.payload.length ≤ 1024 by omega)
  rw [← memory] at encoded
  let conn : Conn := {
    rbuffer := d.stream
    rlength := chunk.bytes.length
    wbuffer
    wlength := ((2 + frame.payload.length : Nat) : Int)
    status := 1 }
  refine ⟨⟨conn, .output, slot.handed⟩, ?_, rfl, rfl, rfl, ?_⟩
  · simp only [recvCb, written, wsRequest, ready, decoded, ret, encoded, Option.bind_eq_bind, Option.bind_some]
    rfl
  · rw [short_encode short]
    have size : (0x81 :: UInt8.ofNat frame.payload.length :: frame.payload).length = 2 + frame.payload.length := by
      simp only [List.length_cons]; omega
    exact ⟨by rw [size], by simp, by rw [size]; omega, by rw [size]; exact reply⟩

theorem sendCb_sends {slot : Slot} {reply : List UInt8} (prepared : Prepared slot.conn reply) :
    sendCb slot = some { slot with armed := .input, handed := slot.handed ++ reply } := by
  obtain ⟨length, nonempty, fits, bytes⟩ := prepared
  have positive : 0 < reply.length := List.length_pos_iff.mpr nonempty
  have some : slot.conn.wlength ≠ 0 := by omega
  have count : (slot.conn.wlength % 2 ^ 64).toNat = reply.length := by omega
  have inside : 0 + reply.length ≤ bufferLength := by rw [Nat.zero_add]; exact fits
  simp only [sendCb, some, if_true, ne_eq, not_false_iff, count, Buffer.read_of_le inside, Block.slice_zero, bytes,
    Option.bind_eq_bind, Option.bind_some]

theorem aligned_snoc {frames : List Frame} {chunks : List Chunk} {chunk : Chunk}
    (aligned : Aligned frames (chunks ++ [chunk])) :
    ∃ earlier frame tail, frames = earlier ++ [frame] ∧ Aligned earlier chunks ∧
      chunk.bytes = frame.encode ++ tail := by
  induction chunks generalizing frames with
  | nil =>
    cases aligned with
    | cons first rest =>
      cases rest
      obtain ⟨tail, same⟩ := first
      exact ⟨[], _, tail, rfl, .nil, same⟩
  | cons other chunks ih =>
    cases aligned with
    | cons first rest =>
      obtain ⟨earlier, frame, tail, rfl, front, same⟩ := ih rest
      exact ⟨_ :: earlier, frame, tail, rfl, .cons first front, same⟩

/-- The frames received so far are answered up to the reply that is prepared. -/
structure Answered (earlier : List UInt8) (frames : List Frame) (slot : Slot) : Prop where
  status : slot.conn.status = 1
  input : slot.armed = .input → slot.handed = earlier ++ (frames.map echoOf).flatMap Frame.encode
  output : slot.armed = .output → ∃ reply, Prepared slot.conn reply ∧
    slot.handed ++ reply = earlier ++ (frames.map echoOf).flatMap Frame.encode

private theorem received_snoc (events : List Event) (event : Event) :
    received (events ++ [event]) = received events ++ received [event] := by
  simp [received]

theorem readable_answers {earlier : List UInt8} {frames : List Frame} {frame : Frame} {before after : Slot}
    {chunk : Chunk} {tail : List UInt8} (answered : Answered earlier frames before) (armed : before.armed = .input)
    (masked : frame.key.isSome) (short : frame.payload.length < 126) (aligned : chunk.bytes = frame.encode ++ tail)
    (called : recvCb ssl before (.data chunk) = some after) : Answered earlier (frames ++ [frame]) after := by
  obtain ⟨key, masked⟩ := Option.isSome_iff_exists.mp masked
  obtain ⟨other, again, output, status, handed, prepared⟩ := recvCb_prepares ssl answered.status masked short aligned
  obtain rfl : other = after := by rw [called] at again; cases again; rfl
  refine ⟨status, ?_, ?_⟩
  · intro input
    rw [output] at input
    cases input
  · intro _
    refine ⟨_, prepared, ?_⟩
    simp [handed, answered.input armed]

theorem writable_answers {earlier : List UInt8} {frames : List Frame} {before after : Slot}
    (answered : Answered earlier frames before) (armed : before.armed = .output)
    (called : sendCb before = some after) : Answered earlier frames after := by
  obtain ⟨reply, prepared, sent⟩ := answered.output armed
  rw [sendCb_sends prepared] at called
  cases called
  refine ⟨answered.status, fun _ => sent, ?_⟩
  intro output
  cases output

theorem run_answers {slot last : Slot} {events : List Event} (run : Run (Step ssl) slot events last)
    (ready : slot.conn.status = 1) (armed : slot.armed = .input) (frames : List Frame)
    (short : ∀ frame ∈ frames, frame.key.isSome ∧ frame.payload.length < 126)
    (aligned : Aligned frames (received events)) : Answered slot.handed frames last := by
  induction run generalizing frames with
  | start =>
    cases aligned
    refine ⟨ready, fun _ => by simp, ?_⟩
    intro output
    rw [armed] at output
    cases output
  | @next events before event after earlier step ih =>
    rw [received_snoc] at aligned
    cases step with
    | writable output called =>
      simp only [received, List.filterMap_nil, List.filterMap_cons, List.append_nil] at aligned
      exact writable_answers (ih frames short aligned) output called
    | @readable _ result input called =>
      cases result with
      | data chunk =>
        obtain ⟨answered, frame, tail, rfl, front, same⟩ := aligned_snoc aligned
        obtain ⟨masked, fits⟩ := short frame (by simp)
        have kept := ih answered (fun other member => short other (by simp [member])) front
        exact readable_answers kept input masked fits same called
      | disconnect | failed =>
        cases called
        simp only [received, List.filterMap_nil, List.filterMap_cons, List.append_nil] at aligned
        refine ⟨(ih frames short aligned).status, ?_, ?_⟩
        all_goals
          intro impossible
          cases impossible

def exchange (chunks : List Chunk) : List Event :=
  chunks.flatMap fun chunk => [.readable (.data chunk), .writable]

theorem exchange_runs {slot : Slot} (ready : slot.conn.status = 1) (armed : slot.armed = .input)
    {frames : List Frame} {chunks : List Chunk}
    (short : ∀ frame ∈ frames, frame.key.isSome ∧ frame.payload.length < 126) (aligned : Aligned frames chunks) :
    ∃ last, Run (Step ssl) slot (exchange chunks) last ∧ last.armed = .input := by
  induction aligned generalizing slot with
  | nil => exact ⟨slot, .start, armed⟩
  | @cons frame chunk frames chunks first rest ih =>
    obtain ⟨tail, same⟩ := first
    obtain ⟨masked, fits⟩ := short frame (by simp)
    obtain ⟨key, masked⟩ := Option.isSome_iff_exists.mp masked
    obtain ⟨middle, called, output, status, -, prepared⟩ := recvCb_prepares ssl ready masked fits same
    have read : Run (Step ssl) slot _ middle := .single (.readable armed called)
    have wrote : Run (Step ssl) middle _ _ := .single (.writable output (sendCb_sends prepared))
    obtain ⟨last, run, idle⟩ := @ih { middle with armed := .input, handed := middle.handed ++ (echoOf frame).encode }
      status rfl (fun other member => short other (by simp [member]))
    exact ⟨last, (read.append wrote).append run, idle⟩

/-- A connection past its handshake whose results of `recv` each begin with the
client's next frame can answer all of them, and in every run that has answered
them the bytes handed to `send` are exactly one echo for each frame, in order. -/
theorem echo_answers_aligned_frames (ssl : OpenSsl) (slot : Slot) (ready : slot.conn.status = 1)
    (armed : slot.armed = .input) (frames : List Frame)
    (short : ∀ frame ∈ frames, frame.key.isSome ∧ frame.payload.length < 126) :
    (∀ chunks, Aligned frames chunks →
      ∃ last, Run (Step ssl) slot (exchange chunks) last ∧ last.armed = .input) ∧
    ∀ events last, Run (Step ssl) slot events last → last.armed = .input → Aligned frames (received events) →
      ∃ out, last.handed = slot.handed ++ out ∧ Stream out (frames.map echoOf) := by
  refine ⟨fun chunks aligned => exchange_runs ready armed short aligned, ?_⟩
  intro events last run idle aligned
  have answered := run_answers run ready armed frames short aligned
  exact ⟨_, answered.input idle, Stream.encoded _⟩

section
private def letterFrame (letter : UInt8) : Frame := WebSocketDecode.textFrame #v[1, 2, 3, 4] [letter] (by simp)

private def zeroSsl : OpenSsl where
  sha1 _ := List.replicate 20 0
  sha1_length _ := rfl
  base64 _ := List.replicate 29 65
  base64_length _ _ := rfl

private def upgraded : Slot := { eventRegister with conn := { eventRegister.conn with status := 1 } }

/-- Each result of `recv` has one frame, and the first one a part of a frame behind it. -/
private def letters : List Chunk :=
  [⟨(letterFrame 97).encode ++ [129, 129], by decide, by decide⟩, ⟨(letterFrame 98).encode, by decide, by decide⟩]

theorem echo_answers_letters : ∃ last out, Run (Step zeroSsl) upgraded (exchange letters) last ∧ last.armed = .input ∧
    last.handed = upgraded.handed ++ out ∧ Stream out ([letterFrame 97, letterFrame 98].map echoOf) := by
  have aligned : Aligned [letterFrame 97, letterFrame 98] letters := .cons ⟨[129, 129], rfl⟩ (.cons ⟨[], by simp⟩ .nil)
  obtain ⟨runs, answers⟩ :=
    echo_answers_aligned_frames zeroSsl upgraded rfl rfl [letterFrame 97, letterFrame 98] (by decide)
  obtain ⟨last, run, idle⟩ := runs letters aligned
  obtain ⟨out, handed, stream⟩ := answers _ last run idle aligned
  exact ⟨last, out, run, idle, handed, stream⟩

/-- Two frames that arrive together are answered as one. -/
theorem echo_loses_coalesced_frame : ¬ ∀ (ssl : OpenSsl) (slot : Slot) (frames : List Frame) (events : List Event)
    (last : Slot), slot.conn.status = 1 → slot.armed = .input →
    (∀ frame ∈ frames, frame.key.isSome ∧ frame.opcode = 1 ∧ frame.payload.length < 126) →
    Run (Step ssl) slot events last → last.armed = .input →
    (received events).flatMap Chunk.bytes = frames.flatMap Frame.encode →
    ∃ out echoed, last.handed = slot.handed ++ out ∧ Stream out echoed ∧
      echoed.map Frame.payload = frames.map Frame.payload := by
  intro always
  let chunk : Chunk := ⟨(letterFrame 97).encode ++ (letterFrame 98).encode, by decide, by decide⟩
  have short : ∀ frame ∈ [letterFrame 97], frame.key.isSome ∧ frame.payload.length < 126 := by decide
  have aligned : Aligned [letterFrame 97] [chunk] := .cons ⟨_, rfl⟩ .nil
  obtain ⟨last, run, idle⟩ : ∃ last, Run (Step zeroSsl) upgraded (exchange [chunk]) last ∧ last.armed = .input :=
    exchange_runs rfl rfl short aligned
  obtain ⟨out, echoed, handed, stream, same⟩ := always zeroSsl upgraded [letterFrame 97, letterFrame 98] _ last rfl rfl
    (by decide) run idle (by rfl)
  have answered := (run_answers run rfl rfl [letterFrame 97] short aligned).input idle
  have only : out = ([letterFrame 97].map echoOf).flatMap Frame.encode :=
    List.append_cancel_left (handed.symm.trans answered)
  rw [only] at stream
  rw [← (Stream.encoded _).unique stream] at same
  simp at same

end
end NetPrograms.Proofs.WebSocketEcho
