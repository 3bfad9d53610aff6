import NetPrograms.Ikcp.Calls
import NetPrograms.Lib.Pieces

/-! Two programs with a control block each and a network between them, which brings
datagrams late, twice, out of order or not at all. -/

namespace NetPrograms.Ikcp

def Segment.piece (seg : Segment) : Piece UInt8 := ⟨seg.frg.toNat, seg.data⟩

/-- What `ikcp_send` puts in the queue: the buffer, and in stream mode a part of it
even when the call fails. -/
def Ikcpcb.accepts (kcp : Ikcpcb) (buffer : List UInt8) : List (List UInt8) :=
  if (kcp.ikcpSend buffer).1 = 0 then [buffer]
  else if kcp.stream ≠ 0 then [buffer.take (kcp.extend buffer)]
  else []

/-- What `ikcp_recv` takes out of the queue. -/
def Ikcpcb.delivers (kcp : Ikcpcb) (len : Int) : List (List UInt8) :=
  if 0 ≤ len ∧ 0 ≤ (kcp.ikcpRecv len).1 then [(kcp.ikcpRecv len).2.1] else []

/-- A control block and its history: what was sent and received, the data of the
segments that have a number, and all datagrams given to `output`. -/
structure Endpoint where
  kcp : Ikcpcb
  accepted : List (List UInt8) := []
  delivered : List (List UInt8) := []
  numbered : List (Piece UInt8) := []
  output : List (List UInt8) := []

namespace Endpoint

def accepting (e : Endpoint) : Call → List (List UInt8)
  | .send buffer => e.accepted ++ e.kcp.accepts buffer
  | _ => e.accepted

def delivering (e : Endpoint) : Call → List (List UInt8)
  | .recv len => e.delivered ++ e.kcp.delivers len
  | _ => e.delivered

/-- The segments that leave the head of the queue are those that get a number. -/
def numbering (e : Endpoint) (after : Ikcpcb) : List (Piece UInt8) :=
  e.numbered ++ (e.kcp.sndQueue.take (e.kcp.sndQueue.length - after.sndQueue.length)).map Segment.piece

def act (e : Endpoint) (call : Call) : Option Endpoint :=
  (call.run e.kcp).map fun (kcp, packing) =>
    { kcp
      accepted := e.accepting call
      delivered := e.delivering call
      numbered := e.numbering kcp
      output := e.output ++ datagrams packing }

end Endpoint

inductive Side where
  | left
  | right
  deriving DecidableEq

def Side.other : Side → Side
  | .left => .right
  | .right => .left

structure Peers where
  left : Endpoint
  right : Endpoint

/-- A program makes a call, or a datagram that the other side has sent comes in. -/
inductive Event where
  | call (side : Side) (call : Call)
  | deliver (side : Side) (datagram : List UInt8)

namespace Peers

def start (conv : UInt32) : Peers := { left := { kcp := ikcpCreate conv }, right := { kcp := ikcpCreate conv } }

def at_ (peers : Peers) : Side → Endpoint
  | .left => peers.left
  | .right => peers.right

def put (peers : Peers) (e : Endpoint) : Side → Peers
  | .left => { peers with left := e }
  | .right => { peers with right := e }

/-- The network makes up no datagrams, and programs get them from nowhere else. -/
def step (peers : Peers) : Event → Option Peers
  | .call _ (.input _) => none
  | .call side call => ((peers.at_ side).act call).map (peers.put · side)
  | .deliver side datagram =>
    if datagram ∈ (peers.at_ side.other).output then
      ((peers.at_ side).act (.input datagram)).map (peers.put · side)
    else none

end Peers
end NetPrograms.Ikcp
