import NetPrograms.Reactor.Echo

/-! The callbacks of 2.1.3_reactor_02MillionConcurrent.c with the results of `send`,
which `send_cb` does not look at. -/

namespace NetPrograms.Reactor.EchoSends
open Echo

/-- Any count from one up to the requested length, where `sent room` is a kernel with
room for `room + 1` bytes, or -1 with `EAGAIN`. -/
inductive SendResult where
  | sent (room : Nat)
  | again

/-- What of the request goes out. -/
def SendResult.taken (result : SendResult) (bytes : List UInt8) : List UInt8 :=
  match result with
  | .sent room => bytes.take (room + 1)
  | .again => []

inductive Act where
  | call (act : Echo.Act)
  | accepted (bytes : List UInt8)
  deriving DecidableEq

def calls (out : Outcome Conn Echo.Act) : Outcome Conn Act where
  conn := out.conn
  acts := out.acts.map fun (fd, act) => (fd, .call act)
  next := out.next

def recvCb (fd : Int) (slot : Slot Conn) (result : RecvResult) : Option (Outcome Conn Act) :=
  (Echo.recvCb fd slot result).map calls

def sendCb (fd : Int) (slot : Slot Conn) (result : SendResult) : Option (Outcome Conn Act) := do
  let bytes ← slot.conn.wbuffer.read 0 (toSize slot.conn.wlength)
  let out ← Echo.sendCb fd slot ()
  some { calls out with acts := (calls out).acts ++ [(fd, .accepted (result.taken bytes))] }

def program : Program Conn Act RecvResult SendResult where
  initServer := initServer
  eventRegister _ := zero
  recvCb := recvCb
  sendCb := sendCb

end NetPrograms.Reactor.EchoSends
