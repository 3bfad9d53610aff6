import NetPrograms.Lib.Course
import NetPrograms.WebSocket.Handshake

/-! `readline` and `handshake` of websocket(补充)/server.c as far as they get in a number
of turns of the loop of `handshake`. What `readline` and `strcat` write outside `linebuf`
is an outcome of its own. -/

namespace NetPrograms.WebSocket.Turns

/-- The loop of `readline` with `left` bytes before the end of the string. -/
def readlineFrom (allbuf : List UInt8) (level : Nat) (linebuf : Buffer UInt8 1024) (out : Nat) :
    Nat → Course (Int × Buffer UInt8 1024)
  | 0 => pure (-1, linebuf)
  | left + 1 => do
    let byte ← .ofRead allbuf[level]?
    let ended ← .ofRead (if byte = 13 then (allbuf[level + 1]?).map (· == 10) else some false)
    if ended then
      pure (level + 2, linebuf)
    else
      let linebuf ← .ofWrite (linebuf.write out [byte])
      readlineFrom allbuf (level + 1) linebuf (out + 1) left

def readline (allbuf : List UInt8) (level : Nat) (linebuf : Buffer UInt8 1024) :
    Course (Int × Buffer UInt8 1024) := do
  let len ← .ofRead (strlen allbuf)
  readlineFrom allbuf level linebuf 0 (len - level)

def strcat {n : Nat} (buffer : Buffer UInt8 n) (text : List UInt8) : Course (Buffer UInt8 n) := do
  let len ← .ofRead (strlen buffer.cells)
  .ofWrite (buffer.write len (text ++ [0]))

/-- The loop of `handshake` from index `idx` on. -/
def handshakeFrom (ssl : OpenSsl) (c : Conn) (idx : Nat) : Nat → Course Conn
  | 0 => .running
  | turns + 1 => do
    let (next, linebuf) ← readline c.rbuffer.cells idx (Buffer.fill 0)
    let line ← .ofRead (cstring linebuf.cells)
    if strstr line (ascii "Sec-WebSocket-Key") then
      let _ ← strcat linebuf guid
      .ofRead (acceptKey ssl c linebuf)
    else if next = -1 then
      pure c
    else
      let first ← .ofRead c.rbuffer.cells[next.toNat]?
      let blank ← .ofRead (if first = 13 then (c.rbuffer.cells[next.toNat + 1]?).map (· == 10) else some false)
      if blank then pure c else handshakeFrom ssl c next.toNat turns

def handshake (ssl : OpenSsl) (c : Conn) (turns : Nat) : Course Conn := handshakeFrom ssl c 0 turns

end NetPrograms.WebSocket.Turns
