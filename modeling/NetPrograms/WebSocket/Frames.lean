import NetPrograms.Lib.Block
import NetPrograms.Lib.ByteOrder

/-! `demask`, `decode_packet` and `encode_packet` of websocket(补充)/server.c on
an x86-64 target: the first bit-field of a byte is its low bits and integers are
stored least significant byte first. An access outside an array has no result. -/

namespace NetPrograms.WebSocket

/-- The first two bytes of a frame, each field by its value. -/
structure NtyOphdr where
  opcode : UInt8 := 0
  rsv3 : UInt8 := 0
  rsv2 : UInt8 := 0
  rsv1 : UInt8 := 0
  fin : UInt8 := 0
  payloadLength : UInt8 := 0
  mask : UInt8 := 0

def NtyOphdr.load (first second : UInt8) : NtyOphdr where
  opcode := first &&& 0x0F
  rsv3 := first >>> 4 &&& 1
  rsv2 := first >>> 5 &&& 1
  rsv1 := first >>> 6 &&& 1
  fin := first >>> 7
  payloadLength := second &&& 0x7F
  mask := second >>> 7

def NtyOphdr.store (head : NtyOphdr) : List UInt8 :=
  [head.opcode ||| head.rsv3 <<< 4 ||| head.rsv2 <<< 5 ||| head.rsv1 <<< 6 ||| head.fin <<< 7,
    head.payloadLength ||| head.mask <<< 7]

/-- `nty_websocket_head_126` and `nty_websocket_head_127`, whose length field has
two and eight bytes: the length, the key and the zeroed `data` array. -/
def ntyWebsocketHead (width : Nat) (payloadLength : Int) (maskKey : List UInt8) : List UInt8 :=
  littleEndian width (payloadLength % 256 ^ width).toNat ++ maskKey ++ List.replicate 8 0

variable {n : Nat}

/-- The loop of `demask` from index `i` on, with `left` rounds to go. -/
def demaskFrom (stream : Buffer UInt8 n) (data : Nat) (mask : List UInt8) (i : Nat) : Nat → Option (Buffer UInt8 n)
  | 0 => some stream
  | left + 1 => do
    let byte ← stream.cells[data + i]?
    let key ← mask[i % 4]?
    let stream ← stream.write (data + i) [byte ^^^ key]
    demaskFrom stream data mask (i + 1) left

/-- `data` is an index into `stream`, the array the pointer argument points into. -/
def demask (stream : Buffer UInt8 n) (data : Nat) (len : Int) (mask : List UInt8) : Option (Buffer UInt8 n) :=
  demaskFrom stream data mask 0 len.toNat

/-- What `decode_packet` leaves behind; `data` is the index its pointer refers to. -/
structure Decoded (n : Nat) where
  stream : Buffer UInt8 n
  mask : Buffer UInt8 4
  ret : Int
  data : Nat

/-- The header's length, its key and the start of the payload. The two extended
forms are selected by the one-bit field `mask`, not by `payload_length`. -/
def decodeHeader (stream : Buffer UInt8 n) (hdr : NtyOphdr) : Option (Int × List UInt8 × Nat) :=
  if hdr.mask &&& 0x7F = 126 then do
    let length ← stream.read 2 2
    let key ← stream.read 4 4
    some (ofLittleEndian length, key, 8)
  else if hdr.mask &&& 0x7F = 127 then do
    let length ← stream.read 2 8
    let key ← stream.read 10 4
    some (Int.bmod (ofLittleEndian length) (2 ^ 32), key, 14)
  else do
    let key ← stream.read 2 4
    some (hdr.payloadLength.toNat, key, 6)

/-- The argument `length` of the source is not read. -/
def decodePacket (stream : Buffer UInt8 n) (mask : Buffer UInt8 4) (_length : Int) : Option (Decoded n) := do
  let first ← stream.cells[0]?
  let second ← stream.cells[1]?
  let (size, key, start) ← decodeHeader stream (.load first second)
  let mask ← mask.write 0 key
  let stream ← demask stream start size mask.cells
  some { stream, mask, ret := size, data := start }

def encodeHeader (buffer : Buffer UInt8 n) (mask : Buffer UInt8 4) (length : Int) : Option (Buffer UInt8 n × Nat) :=
  let head : NtyOphdr := { fin := 1, opcode := 1 }
  if length < 126 then do
    let head := { head with payloadLength := UInt8.ofNat (length % 128).toNat }
    let buffer ← buffer.write 0 head.store
    some (buffer, 2)
  else if length < 0xffff then do
    let buffer ← buffer.write 0 head.store
    let buffer ← buffer.write 2 (ntyWebsocketHead 2 length mask.cells)
    some (buffer, 2 + 14)
  else do
    let buffer ← buffer.write 0 head.store
    let buffer ← buffer.write 2 (ntyWebsocketHead 8 length mask.cells)
    some (buffer, 2 + 20)

/-- `stream` is the memory from the payload's pointer to the end of its array. -/
def encodePacket (buffer : Buffer UInt8 n) (mask : Buffer UInt8 4) (stream : List UInt8) (length : Int) :
    Option (Buffer UInt8 n × Int) := do
  let (buffer, headerLen) ← encodeHeader buffer mask length
  let payload ← Block.read stream 0 (length % 2 ^ 64).toNat
  let buffer ← buffer.write headerLen payload
  some (buffer, headerLen + length)

end NetPrograms.WebSocket
