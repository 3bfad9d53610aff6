import NetPrograms.Lib.Rfc6455
import NetPrograms.WebSocket.Frames

/-! `encode_packet` writes the length field of the two-byte header only in its
first branch. The other branches announce an empty payload. -/

namespace NetPrograms.Proofs.WebSocketEncode
open WebSocket Rfc6455

def echoFrame (payload : List UInt8) (bound : payload.length < 2 ^ 63) : Frame :=
  { fin := true, rsv := 0, opcode := 1, key := none, payload, bound }

variable {n : Nat} {buffer after : Buffer UInt8 n} {mask : Buffer UInt8 4} {stream : List UInt8}

theorem echoFrame_encode {p : List UInt8} (bound : p.length < 2 ^ 63) (short : p.length < 126) :
    (echoFrame p bound).encode = 0x81 :: UInt8.ofNat p.length :: p := by
  have first : (echoFrame p bound).firstOctet = 0x81 := rfl
  have second : (echoFrame p bound).secondOctet = UInt8.ofNat p.length := by
    simp [Frame.secondOctet, echoFrame, shortLength, short]
  simp only [Frame.encode, Frame.header, first, second]
  simp [echoFrame, extendedLength, short, Frame.keyOctets, Rfc6455.mask]

/-- A payload below 126 bytes is stored behind the two bytes of its header. -/
theorem encodePacket_short (buffer : Buffer UInt8 n) (mask : Buffer UInt8 4) {p : List UInt8} (tail : List UInt8)
    (short : p.length < 126) (room : 2 + p.length ≤ n) :
    ∃ after : Buffer UInt8 n, encodePacket buffer mask (p ++ tail) p.length = some (after, ((2 + p.length : Nat) : Int)) ∧
      after.cells.take (2 + p.length) = 0x81 :: UInt8.ofNat p.length :: p := by
  have length : ((p.length : Int) % 2 ^ 64).toNat = p.length := by omega
  have seven : UInt8.ofNat ((p.length : Int) % 128).toNat = UInt8.ofNat p.length := by
    congr 1
    omega
  let head : List UInt8 := [0x81, UInt8.ofNat p.length]
  have store : NtyOphdr.store { fin := 1, opcode := 1, payloadLength := UInt8.ofNat p.length } = head := by
    simp [NtyOphdr.store, head]
    rfl
  obtain ⟨first, written, headed⟩ := Buffer.write_of_le buffer 0 head (by simp [head]; omega)
  obtain ⟨after, stored, cells⟩ := Buffer.write_of_le first 2 p room
  have payload : Block.slice (p ++ tail) 0 p.length = p := List.take_left' rfl
  refine ⟨after, ?_, ?_⟩
  · have less : (p.length : Int) < 126 := by omega
    simp only [encodePacket, encodeHeader, less, if_true, seven, store, written, length,
      Block.read_of_le (show 0 + p.length ≤ (p ++ tail).length by simp), payload, stored,
      Option.bind_eq_bind, Option.bind_some]
    rfl
  · have size := first.size
    have front : (Block.overlay first.cells 2 p).take 2 = head := by
      rw [Block.take_overlay (Nat.le_refl _) (by omega), headed, Block.overlay_zero]
      rfl
    have back : Block.slice (Block.overlay first.cells 2 p) 2 p.length = p := Block.slice_overlay (by omega)
    rw [cells, List.take_add, front]
    exact congrArg (head ++ ·) back

/-- From 126 bytes on the second byte of the frame is zero. -/
theorem encodePacket_long {length ret : Int} (long : 126 ≤ length)
    (done : encodePacket buffer mask stream length = some (after, ret)) :
    16 + length ≤ ret ∧ after.cells.take 2 = [0x81, 0] := by
  have size := buffer.size
  have store : NtyOphdr.store { fin := 1, opcode := 1 } = [0x81, 0] := rfl
  simp only [encodePacket, Option.bind_eq_bind, Option.bind_eq_some_iff, Option.some.injEq, Prod.mk.injEq] at done
  obtain ⟨⟨headed, headerLen⟩, header, payload, -, body, stored, rfl, rfl⟩ := done
  obtain ⟨above, front⟩ : 16 ≤ headerLen ∧ headed.cells.take 2 = [0x81, 0] := by
    simp only [encodeHeader, show ¬ length < 126 by omega, if_false, store] at header
    split at header
    all_goals
      simp only [Option.bind_eq_bind, Option.bind_eq_some_iff, Option.some.injEq, Prod.mk.injEq] at header
      obtain ⟨first, written, second, extended, rfl, rfl⟩ := header
      obtain ⟨inside, cells⟩ := Buffer.write_eq_some written
      obtain ⟨_, more⟩ := Buffer.write_eq_some extended
      refine ⟨by omega, ?_⟩
      rw [more, Block.take_overlay (Nat.le_refl _) (by rw [first.size]; simpa using inside), cells, Block.overlay_zero]
      rfl
  obtain ⟨inside, cells⟩ := Buffer.write_eq_some stored
  refine ⟨by omega, ?_⟩
  rw [cells, Block.take_overlay (by omega) (by rw [headed.size]; omega), front]

/-- The written bytes are exactly one unmasked text frame with payload `p`. -/
def Encodes (buffer : Buffer UInt8 n) (mask : Buffer UInt8 4) (p tail : List UInt8) : Prop :=
  ∃ after ret frame, encodePacket buffer mask (p ++ tail) p.length = some (after, ret) ∧ 0 ≤ ret ∧
    parse (after.cells.take ret.toNat) = some (frame, []) ∧
    frame.fin = true ∧ frame.opcode = 1 ∧ frame.key = none ∧ frame.payload = p

theorem encodes_short {p : List UInt8} (short : p.length < 126) (room : 2 + p.length ≤ n) (tail : List UInt8) :
    Encodes buffer mask p tail := by
  obtain ⟨after, done, cells⟩ := encodePacket_short buffer mask tail short room
  have bound : p.length < 2 ^ 63 := by omega
  refine ⟨after, _, echoFrame p bound, done, Int.natCast_nonneg _, ?_, rfl, rfl, rfl, rfl⟩
  have read := parse_encode (echoFrame p bound) []
  rw [List.append_nil, echoFrame_encode bound short] at read
  rw [Int.toNat_natCast, cells, read]

theorem not_encodes_long {p : List UInt8} (long : 126 ≤ p.length) (tail : List UInt8) :
    ¬ Encodes buffer mask p tail := by
  rintro ⟨after, ret, frame, done, -, read, -, -, -, same⟩
  obtain ⟨above, front⟩ := encodePacket_long (by omega) done
  obtain ⟨rest, cells⟩ : ∃ rest, after.cells.take ret.toNat = 0x81 :: 0 :: rest := by
    refine ⟨(after.cells.drop 2).take (ret.toNat - 2), ?_⟩
    rw [show ret.toNat = 2 + (ret.toNat - 2) by omega, List.take_add, front]
    simp
  rw [cells] at read
  have empty : frame.payload = [] := by
    simp [parse, readLength, readKey] at read
    rw [← read.1]
    rfl
  rw [same] at empty
  simp [empty] at long

/-- The bytes written are the frame of the payload exactly when it is shorter
than 126 bytes, whatever the buffer, the key and the memory after the payload. -/
theorem encode_packet_iff (wbuffer : Buffer UInt8 1024) (mask : Buffer UInt8 4) (p tail : List UInt8) :
    Encodes wbuffer mask p tail ↔ p.length < 126 := by
  constructor
  · intro holds
    by_cases short : p.length < 126
    · exact short
    · exact absurd holds (not_encodes_long (by omega) tail)
  · intro short
    exact encodes_short short (by omega) tail

theorem encode_packet_truncates : ¬ ∀ (wbuffer : Buffer UInt8 1024) (mask : Buffer UInt8 4) (p tail : List UInt8)
    (bound : p.length < 2 ^ 63), (echoFrame p bound).encode.length ≤ 1024 → Encodes wbuffer mask p tail := by
  intro always
  have size : (List.replicate 126 (97 : UInt8)).length = 126 := List.length_replicate
  generalize List.replicate 126 (97 : UInt8) = letters at size
  have fits : (echoFrame letters (by omega)).encode.length ≤ 1024 := by
    rw [Frame.encode_length]
    simp [echoFrame, Frame.keyOctets, extendedLength, size]
  exact not_encodes_long (Nat.le_of_eq size.symm) [] (always (Buffer.fill 0) (Buffer.fill 0) letters [] _ fits)

end NetPrograms.Proofs.WebSocketEncode
