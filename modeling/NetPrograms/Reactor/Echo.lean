import NetPrograms.Reactor.Core

/-! The connections of 2.1.3_reactor_02MillionConcurrent.c, which sends back what it
receives. -/

namespace NetPrograms.Reactor.Echo

structure Conn where
  rbuffer : Buffer UInt8 bufferLength
  rlength : Int
  wbuffer : Buffer UInt8 bufferLength
  wlength : Int

/-- What `recv` returned, and the buffer that `send` was called with. -/
inductive Act where
  | received (bytes : List UInt8)
  | handed (bytes : List UInt8)
  deriving DecidableEq

def zero : Conn where
  rbuffer := Buffer.fill 0
  rlength := 0
  wbuffer := Buffer.fill 0
  wlength := 0

def recvCb (fd : Int) (slot : Slot Conn) (result : RecvResult) : Option (Outcome Conn Act) := do
  let bytes := match result with
    | .data chunk => chunk.bytes
    | _ => []
  let rbuffer ← slot.conn.rbuffer.write 0 bytes
  let count := result.count
  if count = 0 then
    some {
      conn := { slot.conn with rbuffer }
      acts := []
      next := .close }
  else
    let copied ← rbuffer.read 0 (toSize count)
    let wbuffer ← slot.conn.wbuffer.write 0 copied
    let conn : Conn := {
      rbuffer
      rlength := count
      wbuffer
      wlength := count }
    some {
      conn
      acts := [(fd, .received bytes)]
      next := .arm .output }

/-- What `send` returns is only passed on to the main loop, which drops it. -/
def sendCb (fd : Int) (slot : Slot Conn) (_ : Unit) : Option (Outcome Conn Act) := do
  let bytes ← slot.conn.wbuffer.read 0 (toSize slot.conn.wlength)
  some {
    conn := slot.conn
    acts := [(fd, .handed bytes)]
    next := .arm .input }

def program : Program Conn Act RecvResult Unit where
  initServer := initServer
  eventRegister _ := zero
  recvCb := recvCb
  sendCb := sendCb

end NetPrograms.Reactor.Echo
