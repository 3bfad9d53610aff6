import NetPrograms.WebSocket.Frames
import NetPrograms.WebSocket.Handshake

/-! `ws_request` and the callbacks of websocket(补充)/reactor.c for one client
connection. The main loop calls a callback only for the event that is armed. -/

namespace NetPrograms.WebSocket

/-- `decode_packet` returns a pointer into `rbuffer`, from which `encode_packet`
copies the payload. -/
def wsRequest (ssl : OpenSsl) (c : Conn) : Option Conn :=
  if c.status = 0 then do
    let c ← handshake ssl c
    some { c with status := 1 }
  else if c.status = 1 then do
    let d ← decodePacket c.rbuffer (Buffer.fill 0) c.rlength
    let (wbuffer, ret) ← encodePacket c.wbuffer d.mask (d.stream.cells.drop d.data) d.ret
    some { c with rbuffer := d.stream, wbuffer, wlength := ret }
  else some c

structure Chunk where
  bytes : List UInt8
  nonempty : bytes ≠ []
  fits : bytes.length ≤ bufferLength

inductive RecvResult where
  | data (chunk : Chunk)
  | disconnect
  | failed

inductive Armed where
  | input
  | output
  | closed
  deriving DecidableEq

/-- A connection, the event its descriptor is registered for, and all bytes that
were handed to `send` on it. -/
structure Slot where
  conn : Conn
  armed : Armed
  handed : List UInt8

def eventRegister : Slot where
  conn := { rbuffer := Buffer.fill 0, rlength := 0, wbuffer := Buffer.fill 0, wlength := 0, status := 0 }
  armed := .input
  handed := []

def recvCb (ssl : OpenSsl) (slot : Slot) (result : RecvResult) : Option Slot := do
  let rbuffer : Buffer UInt8 bufferLength := Buffer.fill 0
  match result with
  | .disconnect | .failed => some { slot with conn := { slot.conn with rbuffer }, armed := .closed }
  | .data chunk =>
    let rbuffer ← rbuffer.write 0 chunk.bytes
    let conn ← wsRequest ssl { slot.conn with rbuffer, rlength := chunk.bytes.length }
    some { slot with conn, armed := .output }

/-- What `send` makes of the bytes is not looked at. -/
def sendCb (slot : Slot) : Option Slot := do
  if slot.conn.wlength ≠ 0 then
    let bytes ← slot.conn.wbuffer.read 0 (slot.conn.wlength % 2 ^ 64).toNat
    some { slot with armed := .input, handed := slot.handed ++ bytes }
  else some { slot with armed := .input }

inductive Event where
  | readable (result : RecvResult)
  | writable

/-- The main loop's step for the connection. An event that is not armed does not
occur. -/
inductive Step (ssl : OpenSsl) : Slot → Event → Slot → Prop where
  | readable {before after result} (armed : before.armed = .input)
      (called : recvCb ssl before result = some after) : Step ssl before (.readable result) after
  | writable {before after} (armed : before.armed = .output)
      (called : sendCb before = some after) : Step ssl before .writable after

end NetPrograms.WebSocket
