import NetPrograms.Lib.Block
import NetPrograms.Lib.CString

/-! `readline`, `base64_encode` and `handshake` of websocket(补充)/server.c. The
digest and the base64 filter are functions of the OpenSSL library. -/

namespace NetPrograms.WebSocket

abbrev bufferLength : Nat := 1024

structure Conn where
  rbuffer : Buffer UInt8 bufferLength
  rlength : Int
  wbuffer : Buffer UInt8 bufferLength
  wlength : Int
  status : Int

/-- What the program calls of OpenSSL: `SHA1`, and the contents of the memory BIO
behind a base64 filter, which end in a newline. -/
structure OpenSsl where
  sha1 : List UInt8 → List UInt8
  sha1_length : ∀ text, (sha1 text).length = 20
  base64 : List UInt8 → List UInt8
  base64_length : ∀ bytes, bytes.length = 20 → (base64 bytes).length = 29

def guid : List UInt8 := ascii "258EAFA5-E914-47DA-95CA-C5AB0DC85B11"

/-- The loop of `readline` with `left` bytes before the end of the string. -/
def readlineFrom (allbuf : List UInt8) (level : Nat) (linebuf : Buffer UInt8 1024) (out : Nat) :
    Nat → Option (Int × Buffer UInt8 1024)
  | 0 => some (-1, linebuf)
  | left + 1 => do
    let byte ← allbuf[level]?
    let ended ← (if byte = 13 then (allbuf[level + 1]?).map (· == 10) else some false)
    if ended then
      some (level + 2, linebuf)
    else
      let linebuf ← linebuf.write out [byte]
      readlineFrom allbuf (level + 1) linebuf (out + 1) left

def readline (allbuf : List UInt8) (level : Nat) (linebuf : Buffer UInt8 1024) :
    Option (Int × Buffer UInt8 1024) := do
  let len ← strlen allbuf
  readlineFrom allbuf level linebuf 0 (len - level)

def strcat {n : Nat} (buffer : Buffer UInt8 n) (text : List UInt8) : Option (Buffer UInt8 n) := do
  let len ← strlen buffer.cells
  buffer.write len (text ++ [0])

/-- The filter's output, with its last byte replaced by a NUL. -/
def base64Encode {n : Nat} (ssl : OpenSsl) (inStr : List UInt8) (outStr : Buffer UInt8 n) :
    Option (Buffer UInt8 n) := do
  let data := ssl.base64 inStr
  let outStr ← outStr.write 0 data
  outStr.write (data.length - 1) [0]

def websockKeyLength : Nat := 19

/-- The branch of `handshake` for a line that names the key. -/
def acceptKey (ssl : OpenSsl) (c : Conn) (linebuf : Buffer UInt8 1024) : Option Conn := do
  let linebuf ← strcat linebuf guid
  let key ← cstring (linebuf.cells.drop websockKeyLength)
  let secData ← (Buffer.fill 0 : Buffer UInt8 128).write 0 (ssl.sha1 key)
  let digest ← secData.read 0 20
  let secAccept ← base64Encode ssl digest (Buffer.fill 0 : Buffer UInt8 32)
  let accept ← cstring secAccept.cells
  let response := ascii ("HTTP/1.1 101 Switching Protocols\r\n" ++ "Upgrade: websocket\r\n" ++
    "Connection: Upgrade\r\n" ++ "Sec-WebSocket-Accept: ") ++ accept ++ ascii "\r\n\r\n"
  let wbuffer ← (Buffer.fill 0 : Buffer UInt8 bufferLength).write 0 (response ++ [0])
  some { c with wbuffer, wlength := response.length }

/-- The loop of `handshake` from index `idx` on, for at most `fuel` lines. The
byte before `rbuffer` that the source reads for the index -1 decides nothing. -/
def handshakeFrom (ssl : OpenSsl) (c : Conn) (idx : Nat) : Nat → Option Conn
  | 0 => none
  | fuel + 1 => do
    let (next, linebuf) ← readline c.rbuffer.cells idx (Buffer.fill 0)
    let line ← cstring linebuf.cells
    if strstr line (ascii "Sec-WebSocket-Key") then
      acceptKey ssl c linebuf
    else if next = -1 then
      some c
    else
      let first ← c.rbuffer.cells[next.toNat]?
      let blank ← (if first = 13 then (c.rbuffer.cells[next.toNat + 1]?).map (· == 10) else some false)
      if blank then some c else handshakeFrom ssl c next.toNat fuel

/-- Every line but the last has at least two bytes, so there are fewer lines
than bytes. -/
def handshake (ssl : OpenSsl) (c : Conn) : Option Conn := handshakeFrom ssl c 0 bufferLength

end NetPrograms.WebSocket
