import NetPrograms.Lib.Rfc6455
import NetPrograms.WebSocket.Frames
import Mathlib.Data.List.GetD

/-! `decode_packet` never takes its branches for extended lengths, because they
test a one-bit field. It reads every frame as one with a 7-bit length. -/

namespace NetPrograms.Proofs.WebSocketDecode
open WebSocket Rfc6455

variable {n : Nat}

/-- One round of the loop changes one byte, so the whole loop changes exactly
the bytes from `data + i` on that it has rounds for. -/
theorem demaskFrom_cells (stream : Buffer UInt8 n) (data : Nat) (mask : List UInt8) (four : mask.length = 4)
    (i left : Nat) (inside : data + i + left ≤ n) :
    ∃ after, demaskFrom stream data mask i left = some after ∧ ∀ j, after.cells[j]? =
      if data + i ≤ j ∧ j < data + i + left then
        stream.cells[j]?.map (· ^^^ mask.getD ((j - data) % 4) 0)
      else stream.cells[j]? := by
  induction left generalizing stream i with
  | zero => exact ⟨stream, rfl, fun j => (if_neg (by omega)).symm⟩
  | succ left ih =>
    have within : data + i < stream.cells.length := by rw [stream.size]; omega
    have slot : i % 4 < mask.length := by omega
    obtain ⟨stored, written, cells⟩ := Buffer.write_of_le stream (data + i)
      [stream.cells[data + i] ^^^ mask[i % 4]] (by simp; omega)
    obtain ⟨after, done, same⟩ := ih stored (i + 1) (by omega)
    refine ⟨after, ?_, ?_⟩
    · simp only [demaskFrom, List.getElem?_eq_getElem within, List.getElem?_eq_getElem slot,
        Option.bind_eq_bind, Option.bind_some, written, done]
    · intro j
      rw [same j, cells, Block.overlay_single _ within, List.getElem?_set]
      by_cases here : data + i = j
      · subst here
        have low : ¬ (data + (i + 1) ≤ data + i ∧ data + i < data + (i + 1) + left) := by omega
        have high : data + i ≤ data + i ∧ data + i < data + i + (left + 1) := by omega
        simp only [low, high, if_true, if_false, within, and_self, Nat.add_sub_cancel_left,
          List.getElem?_eq_getElem within, Option.map_some, List.getD_eq_getElem _ _ slot]
      · simp only [here, if_false]
        split
        next later => rw [if_pos (by omega)]
        next outside => rw [if_neg (by omega)]

private theorem mask_bit_le (second : UInt8) : (second >>> 7 &&& 0x7F).toNat ≤ 1 := by
  have bound := second.toNat_lt
  rw [UInt8.toNat_and, UInt8.toNat_shiftRight]
  refine Nat.le_trans Nat.and_le_left ?_
  simp only [UInt8.toNat_ofNat, Nat.reduceMod, Nat.shiftRight_eq_div_pow, Nat.reducePow]
  omega

theorem decodeHeader_eq (stream : Buffer UInt8 n) (first second : UInt8) :
    decodeHeader stream (.load first second) =
      (stream.read 2 4).bind fun key => some (((second &&& 0x7F).toNat : Int), key, 6) := by
  have bit := mask_bit_le second
  have not126 : second >>> 7 &&& 0x7F ≠ 126 := by intro same; simp [same] at bit
  have not127 : second >>> 7 &&& 0x7F ≠ 127 := by intro same; simp [same] at bit
  simp only [decodeHeader, NtyOphdr.load, not126, not127, if_false]
  rfl

/-- Whatever a buffer holds, its second byte gives a length below 128, the next
four bytes are the key, and so many bytes from the seventh on are unmasked. -/
theorem decodePacket_cells (stream : Buffer UInt8 n) (mask : Buffer UInt8 4) (length : Int) (room : 133 ≤ n)
    (second : UInt8) (found : stream.cells[1]? = some second) :
    ∃ d, decodePacket stream mask length = some d ∧ d.ret = (second.toNat % 128 : Nat) ∧ d.data = 6 ∧
      d.mask.cells = Block.slice stream.cells 2 4 ∧ ∀ j, d.stream.cells[j]? =
        if 6 ≤ j ∧ j < 6 + second.toNat % 128 then
          stream.cells[j]?.map (· ^^^ (Block.slice stream.cells 2 4).getD ((j - 6) % 4) 0)
        else stream.cells[j]? := by
  have size := stream.size
  have seven : (second &&& 0x7F).toNat = second.toNat % 128 := by
    rw [UInt8.toNat_and]
    exact Nat.and_two_pow_sub_one_eq_mod second.toNat 7
  have start : 0 < stream.cells.length := by omega
  have first : stream.cells[0]? = some stream.cells[0] := List.getElem?_eq_getElem start
  have four : (Block.slice stream.cells 2 4).length = 4 := by rw [Block.slice_length]; omega
  obtain ⟨stored, written, key⟩ := Buffer.write_of_le mask 0 (Block.slice stream.cells 2 4) (by omega)
  have copied : stored.cells = Block.slice stream.cells 2 4 := by
    rw [key, Block.overlay_zero, List.drop_of_length_le (by simp [four]), List.append_nil]
  obtain ⟨after, done, cells⟩ := demaskFrom_cells stream 6 stored.cells (by rw [copied, four]) 0
    (second.toNat % 128) (by omega)
  refine ⟨⟨after, stored, _, 6⟩, ?_, rfl, rfl, copied, ?_⟩
  · simp only [decodePacket, first, found, decodeHeader_eq, seven, Buffer.read_of_le (show 2 + 4 ≤ n by omega),
      Option.bind_eq_bind, Option.bind_some, written, demask, Int.toNat_natCast, done]
  · simpa only [copied, Nat.add_zero] using cells

/-- The call finds the masked payload `p`: its length, its key and its bytes. -/
def Decodes (rbuffer : Buffer UInt8 n) (mask : Buffer UInt8 4) (length : Int) (key : Key) (p : List UInt8) : Prop :=
  ∃ d, decodePacket rbuffer mask length = some d ∧ d.ret = p.length ∧ d.mask.cells = key.toList ∧
    Block.slice d.stream.cells d.data p.length = p

section
variable {frame : Frame} {key : Key} {rbuffer : Buffer UInt8 1024} {rest : List UInt8}

private theorem encode_masked (masked : frame.key = some key) : frame.encode = frame.firstOctet ::
    frame.secondOctet :: (extendedLength frame.payload.length ++ (key.toList ++ applyMask key frame.payload)) := by
  simp [Frame.encode, Frame.header, Frame.keyOctets, masked, Rfc6455.mask]

private theorem second_found (received : rbuffer.cells = frame.encode ++ rest) :
    rbuffer.cells[1]? = some frame.secondOctet := by
  rw [received]
  rfl

private theorem second_length (frame : Frame) :
    frame.secondOctet.toNat % 128 = shortLength frame.payload.length := by
  have second := secondOctet_toNat frame
  have short := shortLength_lt frame.payload.length
  omega

theorem decodes_short (masked : frame.key = some key) (received : rbuffer.cells = frame.encode ++ rest)
    (short : frame.payload.length < 126) (mask : Buffer UInt8 4) (length : Int) :
    Decodes rbuffer mask length key frame.payload := by
  obtain ⟨d, done, ret, data, copied, cells⟩ := decodePacket_cells rbuffer mask length (by decide) _
    (second_found received)
  have seven : frame.secondOctet.toNat % 128 = frame.payload.length := by
    rw [second_length, shortLength, if_pos short]
  have layout : rbuffer.cells = frame.firstOctet :: frame.secondOctet ::
      (key.toList ++ (applyMask key frame.payload ++ rest)) := by
    simp [received, encode_masked masked, extendedLength, short]
  have keyCells : Block.slice rbuffer.cells 2 4 = key.toList := by
    rw [layout]
    exact List.take_left' (by simp)
  have payload j (inside : j < frame.payload.length) :
      rbuffer.cells[6 + j]? = (applyMask key frame.payload)[j]? := by
    have index : 6 + j = (4 + j) + 2 := by omega
    rw [layout, index, List.getElem?_cons_succ, List.getElem?_cons_succ,
      List.getElem?_append_right (by simp), List.getElem?_append_left (by simp; omega)]
    simp
  refine ⟨d, done, by rw [ret, seven], by rw [copied, keyCells], ?_⟩
  apply List.ext_getElem?
  intro j
  rw [data, Block.slice_getElem?]
  by_cases inside : j < frame.payload.length
  · rw [if_pos inside, cells, if_pos (by omega), payload j inside, applyMask_getElem?, keyCells,
      List.getElem?_eq_getElem inside]
    simp only [Option.map_some, Nat.add_sub_cancel_left, UInt8.xor_assoc, UInt8.xor_self, UInt8.xor_zero]
  · rw [if_neg inside, List.getElem?_eq_none (by omega)]

/-- The frame of 126 bytes is read two bytes early: its length field and the first
half of its key are taken for the key, the second half of the key for payload. -/
private theorem decodes_126 {a b c d : UInt8} (masked : frame.key = some #v[a, b, c, d])
    (received : rbuffer.cells = frame.encode ++ rest) (size : frame.payload.length = 126)
    (mask : Buffer UInt8 4) (length : Int) :
    ∃ out, decodePacket rbuffer mask length = some out ∧ out.ret = 126 ∧ out.mask.cells = [0, 126, a, b] ∧
      ([0, 126, a, b] = [a, b, c, d] → Block.slice out.stream.cells out.data 126 = 0 :: 0 :: frame.payload.take 124) := by
  obtain ⟨out, done, ret, data, copied, cells⟩ := decodePacket_cells rbuffer mask length (by decide) _
    (second_found received)
  have seven : frame.secondOctet.toNat % 128 = 126 := by
    rw [second_length, size]
    rfl
  have layout : rbuffer.cells = frame.firstOctet :: frame.secondOctet :: 0 :: 126 :: a :: b :: c :: d ::
      (applyMask #v[a, b, c, d] frame.payload ++ rest) := by
    rw [received, encode_masked masked, size]
    rfl
  have keyCells : Block.slice rbuffer.cells 2 4 = [0, 126, a, b] := by
    rw [layout]
    rfl
  refine ⟨out, done, by rw [ret, seven]; rfl, copied.trans keyCells, ?_⟩
  intro same
  obtain ⟨rfl, rfl, rfl, rfl⟩ : 0 = a ∧ 126 = b ∧ a = c ∧ b = d := by simpa using same
  apply List.ext_getElem?
  intro j
  rw [data, Block.slice_getElem?]
  by_cases inside : j < 126
  · rw [if_pos inside, cells, if_pos (by omega), keyCells, layout]
    match j with
    | 0 => rfl
    | 1 => rfl
    | j + 2 =>
      have index : 6 + (j + 2) - 6 = j + 2 := by omega
      have shift : 6 + (j + 2) = j + 8 := by omega
      have period : ([0, 126, 0, 126] : List UInt8).getD ((j + 2) % 4) 0 =
          ([0, 126, 0, 126] : List UInt8).getD (j % 4) 0 := by
        have cases : j % 4 = 0 ∨ j % 4 = 1 ∨ j % 4 = 2 ∨ j % 4 = 3 := by omega
        rcases cases with here | here | here | here <;> simp [Nat.add_mod, here]
      rw [index, shift, period]
      simp only [List.getElem?_cons_succ]
      rw [List.getElem?_append_left (by simp; omega), applyMask_getElem?, List.getElem?_take,
        if_pos (by omega), Option.map_map]
      have inner : j < frame.payload.length := by omega
      have octets : (#v[0, 126, 0, 126] : Key).toList = [0, 126, 0, 126] := rfl
      simp only [List.getElem?_eq_getElem inner, Option.map_some, Function.comp_apply, octets, UInt8.xor_assoc,
        UInt8.xor_self, UInt8.xor_zero]
  · rw [if_neg inside, List.getElem?_eq_none (by simp; omega)]

private theorem zeros_of_shift {p : List UInt8} (size : p.length = 126) (shift : 0 :: 0 :: p.take 124 = p) :
    p = List.replicate 126 0 := by
  have zero (j : Nat) (inside : j < 126) : p[j]? = some 0 := by
    induction j using Nat.strongRecOn with
    | ind j ih =>
      match j with
      | 0 => rw [← shift]; rfl
      | 1 => rw [← shift]; rfl
      | j + 2 =>
        rw [← shift, List.getElem?_cons_succ, List.getElem?_cons_succ, List.getElem?_take, if_pos (by omega)]
        exact ih j (by omega) (by omega)
  apply List.ext_getElem?
  intro j
  by_cases inside : j < 126
  · rw [zero j inside, List.getElem?_replicate, if_pos inside]
  · rw [List.getElem?_eq_none (by omega), List.getElem?_eq_none (by simp; omega)]

/-- At 126 bytes the misreading shows unless key and payload are the ones that
look the same from two bytes earlier. -/
theorem decodes_126_iff (masked : frame.key = some key) (received : rbuffer.cells = frame.encode ++ rest)
    (size : frame.payload.length = 126) (mask : Buffer UInt8 4) (length : Int) :
    Decodes rbuffer mask length key frame.payload ↔
      key = #v[0, 126, 0, 126] ∧ frame.payload = List.replicate 126 0 := by
  obtain ⟨a, b, c, d, rfl⟩ := key_octets key
  obtain ⟨out, done, ret, copied, shifted⟩ := decodes_126 masked received size mask length
  constructor
  · rintro ⟨other, again, -, keys, bytes⟩
    obtain rfl : out = other := by simpa [done] using again
    have same : [0, 126, a, b] = [a, b, c, d] := copied.symm.trans keys
    rw [size, shifted same] at bytes
    obtain ⟨rfl, rfl, rfl, rfl⟩ : 0 = a ∧ 126 = b ∧ a = c ∧ b = d := by simpa using same
    exact ⟨rfl, zeros_of_shift size bytes⟩
  · rintro ⟨keys, zeros⟩
    obtain ⟨rfl, rfl, rfl, rfl⟩ : a = 0 ∧ b = 126 ∧ c = 0 ∧ d = 126 := by simpa using keys
    refine ⟨out, done, by rw [ret, size]; rfl, copied, ?_⟩
    rw [size, shifted rfl, zeros]
    rfl

/-- Above 126 bytes the returned length is 126 or 127. -/
theorem not_decodes_long (received : rbuffer.cells = frame.encode ++ rest)
    (long : 127 ≤ frame.payload.length) (mask : Buffer UInt8 4) (length : Int) :
    ¬ Decodes rbuffer mask length key frame.payload := by
  rintro ⟨out, done, ret, -⟩
  obtain ⟨other, again, short, -⟩ := decodePacket_cells rbuffer mask length (by decide) _ (second_found received)
  obtain rfl : out = other := by simpa [done] using again
  have seven := second_length frame
  rw [shortLength, if_neg (by omega)] at seven
  have medium : frame.payload.length < 65536 := by
    have total := congrArg List.length received
    simp [Frame.encode] at total
    omega
  rw [if_pos medium] at seven
  rw [short, seven] at ret
  omega

/-- A masked frame in the receive buffer is decoded exactly when its payload is
shorter than 126 bytes, one frame of 126 zeros apart. -/
theorem decode_packet_iff (masked : frame.key = some key) (received : rbuffer.cells = frame.encode ++ rest)
    (mask : Buffer UInt8 4) (length : Int) :
    Decodes rbuffer mask length key frame.payload ↔ frame.payload.length < 126 ∨
      key = #v[0, 126, 0, 126] ∧ frame.payload = List.replicate 126 0 := by
  rcases Nat.lt_trichotomy frame.payload.length 126 with short | exact126 | long
  · exact ⟨fun _ => Or.inl short, fun _ => decodes_short masked received short mask length⟩
  · rw [decodes_126_iff masked received exact126]
    exact ⟨Or.inr, fun holds => holds.resolve_left (by omega)⟩
  · constructor
    · intro holds
      exact absurd holds (not_decodes_long received long mask length)
    · rintro (short | ⟨-, zeros⟩)
      · omega
      · rw [zeros] at long; simp at long

end

def alone (frame : Frame) (fits : frame.encode.length ≤ 1024) : Buffer UInt8 1024 :=
  ⟨frame.encode ++ List.replicate (1024 - frame.encode.length) 0, by simp; omega⟩

def textFrame (key : Key) (payload : List UInt8) (bound : payload.length < 2 ^ 63) : Frame :=
  { fin := true, rsv := ⟨0, by decide⟩, opcode := ⟨1, by decide⟩, key := some key, payload, bound }

theorem decode_packet_iff_hi :
    Decodes (alone (textFrame #v[1, 2, 3, 4] [72, 105] (by decide)) (by decide)) (Buffer.fill 0) 8
      #v[1, 2, 3, 4] [72, 105] := by
  have received : (alone (textFrame #v[1, 2, 3, 4] [72, 105] (by decide)) (by decide)).cells =
      (textFrame #v[1, 2, 3, 4] [72, 105] (by decide)).encode ++ List.replicate 1016 0 := rfl
  exact (decode_packet_iff rfl received (Buffer.fill 0) 8).mpr (Or.inl (by decide))

theorem decode_packet_misreads : ¬ ∀ (frame : Frame) (key : Key) (rbuffer : Buffer UInt8 1024)
    (rest : List UInt8) (mask : Buffer UInt8 4) (length : Int), frame.key = some key →
    rbuffer.cells = frame.encode ++ rest → Decodes rbuffer mask length key frame.payload := by
  intro always
  have size : (List.replicate 127 (97 : UInt8)).length = 127 := List.length_replicate
  generalize List.replicate 127 (97 : UInt8) = letters at size
  let frame := textFrame #v[1, 2, 3, 4] letters (by omega)
  have fits : frame.encode.length ≤ 1024 := by
    rw [Frame.encode_length]
    simp [frame, textFrame, Frame.keyOctets, extendedLength, size]
  exact not_decodes_long rfl (Nat.le_of_eq size.symm) (Buffer.fill 0) 135
    (always frame _ (alone frame fits) _ (Buffer.fill 0) 135 rfl rfl)

end NetPrograms.Proofs.WebSocketDecode
