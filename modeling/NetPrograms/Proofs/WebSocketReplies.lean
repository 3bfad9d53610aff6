import NetPrograms.Proofs.WebSocketEcho

/-! What the server sends for the bytes it received depends on nothing it held before. -/

namespace NetPrograms.Proofs.WebSocketReplies
open WebSocket WebSocketEcho

variable {n : Nat} {ssl : OpenSsl}

theorem extended_length (mask : Buffer UInt8 4) (length : Int) :
    ([0x81, 0] ++ ntyWebsocketHead 2 length mask.cells).length = 16 := by
  simp [ntyWebsocketHead]

theorem encodePacket_extended (buffer : Buffer UInt8 n) (mask : Buffer UInt8 4) {p : List UInt8} (tail : List UInt8)
    (long : 126 ≤ p.length) (medium : p.length < 0xffff) (room : 16 + p.length ≤ n) :
    ∃ after : Buffer UInt8 n, encodePacket buffer mask (p ++ tail) p.length = some (after, ((16 + p.length : Nat) : Int)) ∧
      after.cells.take (16 + p.length) = [0x81, 0] ++ ntyWebsocketHead 2 p.length mask.cells ++ p := by
  have size := buffer.size
  have front := extended_length mask p.length
  have extended : (ntyWebsocketHead 2 p.length mask.cells).length = 14 := by
    rw [List.length_append, List.length_cons] at front
    exact Nat.add_left_cancel front
  have length : ((p.length : Int) % 2 ^ 64).toNat = p.length := by omega
  have store : NtyOphdr.store { fin := 1, opcode := 1 } = [0x81, 0] := rfl
  have payload : Block.read (p ++ tail) 0 p.length = some p := Block.read_middle [] p tail
  obtain ⟨first, written, headed⟩ := Buffer.write_behind (show buffer.cells = [] ++ buffer.cells from rfl) [0x81, 0]
    (by rw [size]; simp only [List.length_cons, List.length_nil]; omega)
  have headed : first.cells = [0x81, 0] ++ buffer.cells.drop 2 := headed
  obtain ⟨second, widened, wider⟩ := Buffer.write_behind headed (ntyWebsocketHead 2 p.length mask.cells)
    (by rw [extended, List.length_drop, size]; omega)
  have whole : second.cells = ([0x81, 0] ++ ntyWebsocketHead 2 p.length mask.cells) ++ buffer.cells.drop 16 := by
    rw [wider, extended, List.append_assoc]
    simp
  obtain ⟨after, stored, cells⟩ := Buffer.write_behind whole p (by rw [List.length_drop, size]; omega)
  rw [front] at stored
  refine ⟨after, ?_, ?_⟩
  · have above : ¬ (p.length : Int) < 126 := by omega
    have below : (p.length : Int) < 0xffff := by omega
    have written : buffer.write 0 [0x81, 0] = some first := written
    have widened : first.write 2 (ntyWebsocketHead 2 p.length mask.cells) = some second := widened
    simp only [encodePacket, encodeHeader, above, below, if_true, if_false, store, written, widened, length, payload, stored,
      Option.bind_eq_bind, Option.bind_some]
    rfl
  · rw [cells, ← List.append_assoc]
    exact List.take_left' (by rw [List.length_append, front])

/-- What the encoder stores for a payload of a frame header's 7-bit length does not
depend on the buffer. -/
theorem encodePacket_stores (mask : Buffer UInt8 4) {p : List UInt8} (tail : List UInt8) (small : p.length < 128) :
    ∃ reply : List UInt8, reply ≠ [] ∧ reply.length ≤ 16 + p.length ∧ ∀ buffer : Buffer UInt8 1024,
      ∃ after : Buffer UInt8 1024, encodePacket buffer mask (p ++ tail) p.length = some (after, (reply.length : Int)) ∧
        after.cells.take reply.length = reply := by
  by_cases short : p.length < 126
  · refine ⟨0x81 :: UInt8.ofNat p.length :: p, List.cons_ne_nil _ _, ?_, ?_⟩
    · simp only [List.length_cons]
      omega
    · intro buffer
      obtain ⟨after, encoded, cells⟩ := WebSocketEncode.encodePacket_short buffer mask tail short (by omega)
      have size : (0x81 :: UInt8.ofNat p.length :: p).length = 2 + p.length := by
        simp only [List.length_cons]
        omega
      rw [size]
      exact ⟨after, encoded, cells⟩
  · have size : ([0x81, 0] ++ ntyWebsocketHead 2 p.length mask.cells ++ p).length = 16 + p.length := by
      rw [List.length_append, extended_length]
    refine ⟨[0x81, 0] ++ ntyWebsocketHead 2 p.length mask.cells ++ p, List.cons_ne_nil _ _, size.le, ?_⟩
    intro buffer
    obtain ⟨after, encoded, cells⟩ := encodePacket_extended buffer mask tail (Nat.le_of_not_lt short) (by omega)
      (show 16 + p.length ≤ 1024 by omega)
    rw [size]
    exact ⟨after, encoded, cells⟩

/-- Past the handshake, one and the same reply is prepared on every connection that
receives the bytes. -/
theorem recvCb_replies (ssl : OpenSsl) (chunk : Chunk) : ∃ reply, ∀ slot : Slot, slot.conn.status = 1 →
    ∃ after, recvCb ssl slot (.data chunk) = some after ∧ after.armed = .output ∧ after.conn.status = 1 ∧
      after.handed = slot.handed ∧ Prepared after.conn reply := by
  obtain ⟨rbuffer, written, -⟩ := Buffer.write_of_le (Buffer.fill 0 : Buffer UInt8 bufferLength) 0 chunk.bytes
    (by simpa using chunk.fits)
  have inside : 1 < rbuffer.cells.length := by rw [rbuffer.size]; decide
  obtain ⟨d, decoded, ret, data, -, -⟩ := WebSocketDecode.decodePacket_cells rbuffer (Buffer.fill 0) chunk.bytes.length
    (by decide) _ (List.getElem?_eq_getElem inside)
  -- the payload lies inside the zeroed buffer whatever length its header gives
  obtain ⟨p, tail, memory, size, small⟩ : ∃ p tail, d.stream.cells.drop d.data = p ++ tail ∧ d.ret = p.length ∧
      p.length < 128 := by
    have bound := Nat.mod_lt rbuffer.cells[1].toNat (show 0 < 128 by decide)
    refine ⟨_, _, (List.take_append_drop (rbuffer.cells[1].toNat % 128) _).symm, ?_, ?_⟩
    all_goals
      have whole := d.stream.size
      rw [List.length_take, List.length_drop, data, whole]
    · rw [ret, Nat.min_eq_left]
      change _ ≤ 1024 - 6
      omega
    · omega
  obtain ⟨reply, nonempty, fits, stores⟩ := encodePacket_stores d.mask tail small
  refine ⟨reply, ?_⟩
  intro slot status
  obtain ⟨wbuffer, encoded, cells⟩ := stores slot.conn.wbuffer
  let conn : Conn := {
    rbuffer := d.stream
    rlength := chunk.bytes.length
    wbuffer
    wlength := reply.length
    status := 1 }
  refine ⟨⟨conn, .output, slot.handed⟩, ?_, rfl, rfl, rfl, ⟨rfl, nonempty, by omega, cells⟩⟩
  simp only [recvCb, written, wsRequest, status, decoded, memory, size, encoded, Option.bind_eq_bind, Option.bind_some]
  rfl

/-- `recv_cb` on the bytes and `send_cb` behind it hand `reply` to `send`. -/
def Hands (ssl : OpenSsl) (slot : Slot) (chunk : Chunk) (reply : List UInt8) : Prop :=
  ∃ between after, recvCb ssl slot (.data chunk) = some between ∧ sendCb between = some after ∧
    between.conn.wlength = reply.length ∧ between.conn.wbuffer.cells.take reply.length = reply ∧
    after.handed = slot.handed ++ reply

/-- Two connections past their handshakes, whatever was received on them and is left in
their buffers, hand the same bytes to `send` for the same bytes received. -/
theorem replies_alike (ssl : OpenSsl) (chunk : Chunk) (first second : Slot) (upgraded : first.conn.status = 1)
    (alsoUpgraded : second.conn.status = 1) :
    ∃ reply, reply.length ≤ 1024 ∧ Hands ssl first chunk reply ∧ Hands ssl second chunk reply := by
  obtain ⟨reply, replies⟩ := recvCb_replies ssl chunk
  have hands (slot : Slot) (status : slot.conn.status = 1) : reply.length ≤ 1024 ∧ Hands ssl slot chunk reply := by
    obtain ⟨between, called, -, -, handed, prepared⟩ := replies slot status
    refine ⟨prepared.fits, between, _, called, sendCb_sends prepared, prepared.length, prepared.bytes, ?_⟩
    rw [handed]
  exact ⟨reply, (hands first upgraded).1, (hands first upgraded).2, (hands second alsoUpgraded).2⟩

theorem blank_sha1 (_ : List UInt8) : (List.replicate 20 (0 : UInt8)).length = 20 := rfl

theorem blank_base64 (bytes : List UInt8) (_ : bytes.length = 20) : (List.replicate 29 (65 : UInt8)).length = 29 := rfl

def blankSsl : OpenSsl where
  sha1 _ := List.replicate 20 0
  sha1_length := blank_sha1
  base64 _ := List.replicate 29 65
  base64_length := blank_base64

private def filled (byte : UInt8) : Slot where
  conn := { rbuffer := Buffer.fill byte, rlength := 1024, wbuffer := Buffer.fill byte, wlength := 143, status := 1 }
  armed := .input
  handed := []

private def bareHeader : Chunk := ⟨[0x81, 0xFE], by decide, by decide⟩

theorem replies_alike_header : ∃ reply, reply.length ≤ 1024 ∧ Hands blankSsl (filled 7) bareHeader reply ∧
    Hands blankSsl (filled 9) bareHeader reply := replies_alike blankSsl bareHeader _ _ rfl rfl

/-- Two connections that have been handed the same bytes since `first` and `second`. -/
structure Alike (first second a b : Slot) : Prop where
  status : a.conn.status = 1 ∧ b.conn.status = 1
  armed : a.armed = b.armed
  handed : ∃ out, a.handed = first.handed ++ out ∧ b.handed = second.handed ++ out
  output : a.armed = .output → ∃ reply, Prepared a.conn reply ∧ Prepared b.conn reply

variable {first second a b a' b' last final : Slot} {events : List Event}

theorem Alike.readable (alike : Alike first second a b) {result : RecvResult} (called : recvCb ssl a result = some a')
    (again : recvCb ssl b result = some b') : Alike first second a' b' := by
  obtain ⟨status, armed, handed, -⟩ := alike
  cases result with
  | data chunk =>
    obtain ⟨reply, replies⟩ := recvCb_replies ssl chunk
    obtain ⟨after, returned, output, upgraded, kept, prepared⟩ := replies a status.1
    obtain ⟨after', returned', output', upgraded', kept', prepared'⟩ := replies b status.2
    obtain rfl := Option.some.inj (returned.symm.trans called)
    obtain rfl := Option.some.inj (returned'.symm.trans again)
    exact ⟨⟨upgraded, upgraded'⟩, output.trans output'.symm, by rwa [kept, kept'], fun _ => ⟨reply, prepared, prepared'⟩⟩
  | disconnect =>
    obtain rfl := Option.some.inj called
    obtain rfl := Option.some.inj again
    exact ⟨status, rfl, handed, nofun⟩
  | failed =>
    obtain rfl := Option.some.inj called
    obtain rfl := Option.some.inj again
    exact ⟨status, rfl, handed, nofun⟩

theorem Alike.writable (alike : Alike first second a b) (armed : a.armed = .output) (called : sendCb a = some a')
    (again : sendCb b = some b') : Alike first second a' b' := by
  obtain ⟨status, -, ⟨out, handed, handed'⟩, output⟩ := alike
  obtain ⟨reply, prepared, prepared'⟩ := output armed
  rw [sendCb_sends prepared] at called
  rw [sendCb_sends prepared'] at again
  obtain rfl := Option.some.inj called
  obtain rfl := Option.some.inj again
  refine ⟨status, rfl, ⟨out ++ reply, ?_, ?_⟩, nofun⟩
  · rw [← List.append_assoc, ← handed]
  · rw [← List.append_assoc, ← handed']

/-- Over whole runs from such connections, the same events lead to the same bytes. -/
theorem runs_alike (run : Run (Step ssl) first events last) (other : Run (Step ssl) second events final)
    (upgraded : first.conn.status = 1 ∧ second.conn.status = 1) (armed : first.armed = .input ∧ second.armed = .input) :
    Alike first second last final := by
  have initial : Alike first second first second :=
    ⟨upgraded, armed.1.trans armed.2.symm, ⟨[], (List.append_nil _).symm, (List.append_nil _).symm⟩,
      fun output => nomatch output.symm.trans armed.1⟩
  apply run.relation other _ initial
  intro a b event a' b' alike step again
  cases step with
  | readable _ called =>
    cases again with
    | readable _ called' => exact alike.readable called called'
  | writable output called =>
    cases again with
    | writable _ called' => exact alike.writable output called called'

end NetPrograms.Proofs.WebSocketReplies
