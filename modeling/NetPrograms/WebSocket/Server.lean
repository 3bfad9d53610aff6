import NetPrograms.Reactor.Core
import NetPrograms.WebSocket.Reactor

/-! The main loop of websocket(补充)/reactor.c over its connections. -/

namespace NetPrograms.WebSocket

/-- What `recv` returned with the connection that `ws_request` made of it, and what
`send` was called with. -/
inductive Act where
  | requested (bytes : List UInt8) (conn : Conn)
  | handed (bytes : List UInt8)

def endOf : Armed → Reactor.Next
  | .input => .arm .input
  | .output => .arm .output
  | .closed => .close

def readable (ssl : OpenSsl) (fd : Int) (slot : Reactor.Slot Conn) (result : RecvResult) :
    Option (Reactor.Outcome Conn Act) := do
  let after ← recvCb ssl ⟨slot.conn, .input, []⟩ result
  let acts := match result with
    | .data chunk => [(fd, .requested chunk.bytes after.conn)]
    | .disconnect | .failed => []
  some {
    conn := after.conn
    acts
    next := endOf after.armed }

def writable (fd : Int) (slot : Reactor.Slot Conn) (_ : Unit) : Option (Reactor.Outcome Conn Act) := do
  let after ← sendCb ⟨slot.conn, .output, []⟩
  some {
    conn := after.conn
    acts := [(fd, .handed after.handed)]
    next := endOf after.armed }

/-- This `init_server` returns what `socket` returned. -/
def program (ssl : OpenSsl) : Reactor.Program Conn Act RecvResult Unit where
  initServer socket _ _ := socket
  eventRegister _ := eventRegister.conn
  recvCb := readable ssl
  sendCb := writable

end NetPrograms.WebSocket
