import NetPrograms.Kcp.Session

/-! `KcpClient` (kcp_client.cc). Its message buffer is a `std::string` that the
loop resizes to the length of each message. -/

namespace NetPrograms.Kcp

universe u

def maxBodySize : Nat := 1024 * 4

/-- A string whose block of memory keeps its size and place when it is resized. -/
structure CxxString (n : Nat) where
  block : Buffer UInt8 n
  length : Nat

namespace CxxString
variable {n : Nat}

/-- The characters that a growing string gains are NUL. -/
def resize (text : CxxString n) (length : Nat) : CxxString n where
  block := ⟨text.block.cells.mapIdx fun i c => if text.length ≤ i ∧ i < length then 0 else c, by simp⟩
  length := length

def toBytes (text : CxxString n) : List UInt8 := text.block.cells.take text.length

end CxxString

structure KcpClient where
  serverAddr : SockAddr
  session : KcpSession

inductive RunResult (σ : Type u) where
  | returned (ret : Bool) (client : KcpClient) (state : σ)
  | exited (state : σ)

namespace KcpClient
variable {σ : Type u}

def recvLoop (handleMessage : σ → List UInt8 → σ) :
    Nat → CxxString maxBodySize → List (List UInt8) → σ → Option (List (List UInt8)) × σ
  | 0, _, rcvQueue, state => (some rcvQueue, state)
  | fuel + 1, body, rcvQueue, state =>
    let (len, block, rcvQueue) := ikcpRecv rcvQueue body.block
    if len = -3 then (none, state)
    else if len ≤ 0 then (some rcvQueue, state)
    else
      let body := { body with block }.resize len.toNat
      recvLoop handleMessage fuel body rcvQueue (handleMessage state body.toBytes)

/-- The messages complete in the session are read into a string of 4096 'a'. -/
def drain (handleMessage : σ → List UInt8 → σ) (rcvQueue : List (List UInt8)) (state : σ) :
    Option (List (List UInt8)) × σ :=
  recvLoop handleMessage (rcvQueue.length + 1) ⟨Buffer.fill 97, maxBodySize⟩ rcvQueue state

def checkRet (len : Int) : Bool := len ≠ -1 ∧ 24 ≤ len

/-- `len` and `addr` are what `RecvFrom` leaves, `ret` what `Input` returns and
`arrived` the messages that it completes. -/
def run (handleMessage : σ → List UInt8 → σ) (handleClose : σ → σ) (client : KcpClient) (current : Int)
    (len : Int) (addr : SockAddr) (ret : Int) (arrived : List (List UInt8)) (state : σ) : RunResult σ :=
  let (offline, session) := client.session.update current
  let client := { client with session }
  if offline then .returned false client (handleClose state)
  else if addr.sinPort ≠ client.serverAddr.sinPort ∨ addr.sinAddr ≠ client.serverAddr.sinAddr then
    .returned true client state
  else if ¬ checkRet len then .returned true client state
  else
    let rcvQueue := client.session.rcvQueue ++ arrived
    if ret ≠ 0 then .returned false { client with session := { client.session with rcvQueue } } state
    else
      match drain handleMessage rcvQueue state with
      | (none, state) => .exited state
      | (some rcvQueue, state) => .returned true { client with session := { client.session with rcvQueue } } state

def send (client : KcpClient) (data : List UInt8) : Int × KcpClient :=
  let (ret, session) := client.session.send data
  (ret, { client with session })

end KcpClient
end NetPrograms.Kcp
