import NetPrograms.Lib.CString
import NetPrograms.Lib.Digits
import NetPrograms.Reactor.Core

/-! The connections of 2.1.4_reactor_webserver: reactor.c with webserver_02status.c,
which sends one file in steps. -/

namespace NetPrograms.Reactor.Webserver

structure Conn where
  rbuffer : Buffer UInt8 bufferLength
  rlength : Int
  wbuffer : Buffer UInt8 bufferLength
  wlength : Int
  status : Int

/-- index.html, whose size is an `off_t`. -/
structure File where
  content : List UInt8
  small : content.length < 2 ^ 63

/-- What `recv` returned, and what `send` and `sendfile` put on the connection. -/
inductive Act where
  | received (bytes : List UInt8)
  | sent (bytes : List UInt8)
  | body (bytes : List UInt8)
  deriving DecidableEq

/-- The results of the system calls of one `send_cb`, as far as it makes them. -/
structure Calls where
  opened : Int
  fstat : Int
  sendfile : Int
  send : Int

/-- The text that `sprintf` writes for `st_size`. -/
def header (size : Nat) : List UInt8 :=
  ascii ("HTTP/1.1 200 OK\r\n" ++ "Content-Type: text/html\r\n" ++ "Accept-Ranges: bytes\r\n" ++ "Content-Length: ") ++
    digits size ++ ascii ("\r\n" ++ "Date: Mon, 04 Aug 2025 17:48:00 GMT\r\n\r\n")

def zero : Conn where
  rbuffer := Buffer.fill 0
  rlength := 0
  wbuffer := Buffer.fill 0
  wlength := 0
  status := 0

/-- `status` stays as the slot has it. -/
def eventRegister (c : Conn) : Conn :=
  { c with
    rbuffer := Buffer.fill 0
    rlength := 0
    wbuffer := Buffer.fill 0
    wlength := 0 }

def httpRequest (c : Conn) : Conn :=
  { c with
    wbuffer := Buffer.fill 0
    wlength := 0
    status := 0 }

/-- The connection afterwards, what was put on a descriptor, and the value that is
returned. -/
def httpResponse (file : File) (slot : Slot Conn) (calls : Calls) : Option (Conn × List (Int × Act) × Int) :=
  let c := slot.conn
  if calls.opened < 0 then some (c, [], -1)
  else if calls.fstat < 0 then some (c, [], -2)
  else if c.status = 0 then do
    let head := header file.content.length
    let wbuffer ← c.wbuffer.write 0 (head ++ [0])
    some ({ c with wbuffer, wlength := head.length, status := 1 }, [], head.length)
  else if c.status = 1 then
    some ({ c with status := 2 }, [(slot.fd, .body (file.content.take calls.sendfile.toNat))], c.wlength)
  else if c.status = 2 then
    some ({ c with wbuffer := Buffer.fill 0, wlength := 0, status := 0 }, [], 0)
  else some (c, [], c.wlength)

def recvCb (fd : Int) (slot : Slot Conn) (result : RecvResult) : Option (Outcome Conn Act) := do
  let rbuffer : Buffer UInt8 bufferLength := Buffer.fill 0
  match result with
  | .disconnect | .failed =>
    some {
      conn := { slot.conn with rbuffer }
      acts := []
      next := .close }
  | .data chunk =>
    let rbuffer ← rbuffer.write 0 chunk.bytes
    some {
      conn := httpRequest { slot.conn with rbuffer, rlength := result.count }
      acts := [(fd, .received chunk.bytes)]
      next := .arm .output }

/-- The value of `http_response` is not looked at. -/
def sendCb (file : File) (fd : Int) (slot : Slot Conn) (calls : Calls) : Option (Outcome Conn Act) := do
  let (conn, acts, _) ← httpResponse file slot calls
  if conn.status = 1 then
    let bytes ← conn.wbuffer.read 0 (toSize conn.wlength)
    some {
      conn
      acts := acts ++ [(fd, .sent (bytes.take calls.send.toNat))]
      next := .arm .output }
  else if conn.status = 2 then
    some {
      conn
      acts
      next := .arm .output }
  else if conn.status = 0 then
    some {
      conn
      acts
      next := .arm .input }
  else
    some {
      conn
      acts
      next := .keep }

/-- One connection between a `recv` and the next one: its slot, the event that is
armed and the bytes that were put on the connection. -/
structure Delivery where
  slot : Slot Conn
  armed : Interest
  wire : List UInt8

def Act.bytes : Act → List UInt8
  | .received _ => []
  | .sent bytes | .body bytes => bytes

/-- The connection when `recv_cb` returns. -/
def received (slot : Slot Conn) (chunk : Chunk) : Option Delivery := do
  let out ← recvCb slot.fd slot (.data chunk)
  some {
    slot := { slot with conn := out.conn }
    armed := .output
    wire := [] }

/-- `send_cb` is called while `EPOLLOUT` is armed. -/
def deliver (file : File) (d : Delivery) (calls : Calls) : Option Delivery :=
  if d.armed = .output then do
    let out ← sendCb file d.slot.fd d.slot calls
    let armed := match out.next with
      | .arm event => event
      | .close | .keep => d.armed
    some {
      slot := { d.slot with conn := out.conn }
      armed
      wire := d.wire ++ out.acts.flatMap (·.2.bytes) }
  else none

def program (file : File) : Program Conn Act RecvResult Calls where
  initServer := initServer
  eventRegister := eventRegister
  recvCb := recvCb
  sendCb := sendCb file

end NetPrograms.Reactor.Webserver
