import NetPrograms.Kcp.Session

/-! `KcpServer::HandleSession` (kcp_server.cc). The class is abstract: what its
callbacks do is an argument, as is the state they act on. -/

namespace NetPrograms.Kcp

universe u

def bodySize : Nat := 1024 * 4

/-- The calls the loop makes. `received` stands for no call: it records that
`Recv` returned a message. -/
structure Callbacks (σ : Type u) where
  received : σ → List UInt8 → σ
  setKeepAlive : σ → σ
  handleMessage : σ → List UInt8 → σ

/-- The process goes on with the buffer and the messages that are left, or it has
called `exit(-1)`. -/
inductive Outcome (σ : Type u) where
  | returned (buf : Buffer UInt8 bodySize) (rcvQueue : List (List UInt8)) (state : σ)
  | exited (state : σ)

variable {σ : Type u}

/-- The `do` loop. Every round takes a message, so `fuel` above their number is
never used up. -/
def recvLoop (on : Callbacks σ) : Nat → Buffer UInt8 bodySize → List (List UInt8) → σ → Outcome σ
  | 0, buf, rcvQueue, state => .returned buf rcvQueue state
  | fuel + 1, buf, rcvQueue, state =>
    let (len, buf, rcvQueue) := ikcpRecv rcvQueue buf
    if len = -3 then .exited state
    else
      let state := if len < 0 then state else on.received state (buf.cells.take len.toNat)
      if len ≤ 0 then .returned buf rcvQueue state
      else if buf.cells.take kcpKeepAliveCmd.length = kcpKeepAliveCmd then
        recvLoop on fuel buf rcvQueue (on.setKeepAlive state)
      else
        let msg := buf.cells.take len.toNat
        recvLoop on fuel buf rcvQueue (on.handleMessage state msg)

/-- `ret` is what `Input` returned for the datagram in the buffer, and `rcvQueue`
holds the messages that are complete after it. -/
def handleSession (on : Callbacks σ) (buf : Buffer UInt8 bodySize) (ret : Int) (rcvQueue : List (List UInt8))
    (state : σ) : Outcome σ :=
  if ret ≠ 0 then .returned buf rcvQueue state
  else recvLoop on (rcvQueue.length + 1) buf rcvQueue state

end NetPrograms.Kcp
