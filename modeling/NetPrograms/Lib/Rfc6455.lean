import NetPrograms.Lib.ByteOrder
import Mathlib.Data.List.TakeDrop

/-! The frame format of the WebSocket protocol (RFC 6455, section 5.2), as a
writer of frames and a reader of byte streams. The reader undoes the writer. -/

namespace NetPrograms.Rfc6455

abbrev Key := Vector UInt8 4

/-- A frame of less than 2^63 bytes, which is what the length field can carry. -/
structure Frame where
  fin : Bool
  rsv : Fin 8
  opcode : Fin 16
  key : Option Key
  payload : List UInt8
  bound : payload.length < 2 ^ 63
  deriving DecidableEq

def applyMask (key : Key) (data : List UInt8) : List UInt8 :=
  data.mapIdx fun i octet => octet ^^^ key.get ⟨i % 4, Nat.mod_lt _ (by decide)⟩

def mask (key : Option Key) (data : List UInt8) : List UInt8 :=
  match key with
  | none => data
  | some key => applyMask key data

def shortLength (n : Nat) : Nat := if n < 126 then n else if n < 65536 then 126 else 127

def extendedLength (n : Nat) : List UInt8 :=
  if n < 126 then [] else if n < 65536 then bigEndian 2 n else bigEndian 8 n

namespace Frame

def firstOctet (frame : Frame) : UInt8 :=
  UInt8.ofNat (frame.fin.toNat * 128 + frame.rsv * 16 + frame.opcode)

def secondOctet (frame : Frame) : UInt8 :=
  UInt8.ofNat (frame.key.isSome.toNat * 128 + shortLength frame.payload.length)

def keyOctets (frame : Frame) : List UInt8 := (frame.key.map (·.toList)).getD []

def header (frame : Frame) : List UInt8 :=
  frame.firstOctet :: frame.secondOctet :: (extendedLength frame.payload.length ++ frame.keyOctets)

def encode (frame : Frame) : List UInt8 := frame.header ++ mask frame.key frame.payload

end Frame

/-- The payload length, in the fewest octets that hold it. -/
def readLength (short : Nat) (rest : List UInt8) : Option (Nat × List UInt8) :=
  if short < 126 then some (short, rest)
  else if short = 126 then
    let n := ofBigEndian (rest.take 2)
    if 2 ≤ rest.length ∧ 126 ≤ n then some (n, rest.drop 2) else none
  else
    let n := ofBigEndian (rest.take 8)
    if 8 ≤ rest.length ∧ 65536 ≤ n then some (n, rest.drop 8) else none

def readKey (masked : Bool) (rest : List UInt8) : Option (Option Key × List UInt8) :=
  match masked, rest with
  | false, rest => some (none, rest)
  | true, a :: b :: c :: d :: rest => some (some #v[a, b, c, d], rest)
  | true, _ => none

/-- The frame a stream begins with and the stream after it. -/
def parse : List UInt8 → Option (Frame × List UInt8)
  | first :: second :: rest => do
    let (n, rest) ← readLength (second.toNat % 128) rest
    let (key, rest) ← readKey (decide (128 ≤ second.toNat)) rest
    if inside : n ≤ rest.length ∧ n < 2 ^ 63 then
      some ({
        fin := decide (128 ≤ first.toNat)
        rsv := ⟨first.toNat / 16 % 8, Nat.mod_lt _ (by decide)⟩
        opcode := ⟨first.toNat % 16, Nat.mod_lt _ (by decide)⟩
        key
        payload := mask key (rest.take n)
        bound := by cases key <;> simp [mask, applyMask] <;> omega }, rest.drop n)
    else none
  | _ => none

/-- A stream that consists of the given frames and nothing else. -/
inductive Stream : List UInt8 → List Frame → Prop where
  | nil : Stream [] []
  | cons {bytes rest frame frames} (first : parse bytes = some (frame, rest))
      (more : Stream rest frames) : Stream bytes (frame :: frames)

@[simp] theorem applyMask_length (key : Key) (data : List UInt8) : (applyMask key data).length = data.length := by
  simp [applyMask]

@[simp] theorem mask_length (key : Option Key) (data : List UInt8) : (mask key data).length = data.length := by
  cases key <;> simp [mask]

theorem applyMask_applyMask (key : Key) (data : List UInt8) : applyMask key (applyMask key data) = data := by
  apply List.ext_getElem (by simp)
  intro index first second
  simp only [applyMask, List.getElem_mapIdx, UInt8.xor_assoc, UInt8.xor_self, UInt8.xor_zero]

theorem applyMask_getElem? (key : Key) (data : List UInt8) (index : Nat) :
    (applyMask key data)[index]? = data[index]?.map (· ^^^ key.toList.getD (index % 4) 0) := by
  have four : index % 4 < key.toList.length := by simp; omega
  rw [applyMask, List.getElem?_mapIdx, List.getD_eq_getElem?_getD, List.getElem?_eq_getElem four]
  rfl

theorem Frame.encode_length (frame : Frame) : frame.encode.length =
    2 + (extendedLength frame.payload.length).length + frame.keyOctets.length + frame.payload.length := by
  simp only [Frame.encode, Frame.header, List.length_append, List.length_cons, mask_length]
  omega

theorem mask_mask (key : Option Key) (data : List UInt8) : mask key (mask key data) = data := by
  cases key with
  | none => rfl
  | some key => exact applyMask_applyMask key data

theorem key_octets (key : Key) : ∃ a b c d, key = #v[a, b, c, d] := by
  obtain ⟨⟨octets⟩, four⟩ := key
  match octets, four with
  | [a, b, c, d], _ => exact ⟨a, b, c, d, rfl⟩

theorem shortLength_lt (n : Nat) : shortLength n < 128 := by
  unfold shortLength
  split
  · omega
  · split <;> omega

theorem readLength_encode {n : Nat} (rest : List UInt8) (bound : n < 2 ^ 63) :
    readLength (shortLength n) (extendedLength n ++ rest) = some (n, rest) := by
  unfold readLength shortLength extendedLength
  by_cases small : n < 126
  · simp [small]
  · by_cases medium : n < 65536
    · have value : ofBigEndian (bigEndian 2 n) = n := ofBigEndian_bigEndian (by omega)
      simp [small, medium, value]
    · have value : ofBigEndian (bigEndian 8 n) = n := ofBigEndian_bigEndian (by omega)
      simp [small, medium, value]

theorem readKey_encode (frame : Frame) (rest : List UInt8) :
    readKey frame.key.isSome (frame.keyOctets ++ rest) = some (frame.key, rest) := by
  unfold Frame.keyOctets
  cases frame.key with
  | none => rfl
  | some key =>
    obtain ⟨a, b, c, d, rfl⟩ := key_octets key
    rfl

private theorem firstOctet_toNat (frame : Frame) :
    frame.firstOctet.toNat = frame.fin.toNat * 128 + frame.rsv * 16 + frame.opcode := by
  have fin := Bool.toNat_le frame.fin
  have rsv := frame.rsv.isLt
  have opcode := frame.opcode.isLt
  simp only [Frame.firstOctet, UInt8.toNat_ofNat', Nat.reducePow]
  omega

theorem secondOctet_toNat (frame : Frame) :
    frame.secondOctet.toNat = frame.key.isSome.toNat * 128 + shortLength frame.payload.length := by
  have masked := Bool.toNat_le frame.key.isSome
  have short := shortLength_lt frame.payload.length
  simp only [Frame.secondOctet, UInt8.toNat_ofNat', Nat.reducePow]
  omega

/-- Reading undoes writing, whatever follows the frame in the stream. -/
theorem parse_encode (frame : Frame) (rest : List UInt8) : parse (frame.encode ++ rest) = some (frame, rest) := by
  have first := firstOctet_toNat frame
  have second := secondOctet_toNat frame
  have short := shortLength_lt frame.payload.length
  have rsv := frame.rsv.isLt
  have opcode := frame.opcode.isLt
  have masked : decide (128 ≤ frame.secondOctet.toNat) = frame.key.isSome := by
    cases seen : frame.key.isSome <;> simp only [seen, Bool.toNat_true, Bool.toNat_false] at second
    · exact decide_eq_false (by omega)
    · exact decide_eq_true (by omega)
  have final : decide (128 ≤ frame.firstOctet.toNat) = frame.fin := by
    cases seen : frame.fin <;> simp only [seen, Bool.toNat_true, Bool.toNat_false] at first
    · exact decide_eq_false (by omega)
    · exact decide_eq_true (by omega)
  have seven : frame.secondOctet.toNat % 128 = shortLength frame.payload.length := by omega
  have reserved : frame.firstOctet.toNat / 16 % 8 = frame.rsv := by omega
  have code : frame.firstOctet.toNat % 16 = frame.opcode := by omega
  have stream : frame.encode ++ rest = frame.firstOctet :: frame.secondOctet ::
      (extendedLength frame.payload.length ++ (frame.keyOctets ++ (mask frame.key frame.payload ++ rest))) := by
    simp [Frame.encode, Frame.header]
  have inside : frame.payload.length ≤ (mask frame.key frame.payload ++ rest).length ∧
      frame.payload.length < 2 ^ 63 := ⟨by simp, frame.bound⟩
  have body : (mask frame.key frame.payload ++ rest).take frame.payload.length = mask frame.key frame.payload :=
    List.take_left' (mask_length _ _)
  have left : (mask frame.key frame.payload ++ rest).drop frame.payload.length = rest :=
    List.drop_left' (mask_length _ _)
  rw [stream]
  simp only [parse, seven, masked, readLength_encode _ frame.bound, readKey_encode, Option.bind_eq_bind,
    Option.bind_some, dif_pos inside, final, reserved, code, body, left, mask_mask]

/-- The frames a stream consists of are determined by its octets. -/
theorem Stream.unique {bytes : List UInt8} {frames others : List Frame} (first : Stream bytes frames)
    (second : Stream bytes others) : frames = others := by
  induction first generalizing others with
  | nil =>
    cases second with
    | nil => rfl
    | cons found more => cases found
  | cons found more ih =>
    cases second with
    | nil => cases found
    | cons again others =>
      rw [found] at again
      cases again
      rw [ih others]

theorem Stream.encoded (frames : List Frame) : Stream (frames.flatMap Frame.encode) frames := by
  induction frames with
  | nil => exact .nil
  | cons frame frames ih => exact .cons (parse_encode frame _) ih

end NetPrograms.Rfc6455
