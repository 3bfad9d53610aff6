import NetPrograms.Ikcp.Control

/-! `ikcp_send`, `ikcp_peeksize` and `ikcp_recv` (ikcp.c). -/

namespace NetPrograms.Ikcp

/-- The segments of the loop in `ikcp_send`, `count` of them. -/
def fragments (mss : UInt32) (stream : Int32) : Nat → List UInt8 → List Segment
  | 0, _ => []
  | count + 1, buffer =>
    let size := min buffer.length mss.toNat
    { frg := if stream = 0 then UInt32.ofNat count else 0, data := buffer.take size } ::
      fragments mss stream count (buffer.drop size)

/-- The message at the head of the queue, and the rest: `frg` is 0 in the last
segment of a message. -/
def takeMessage : List Segment → List Segment × List Segment
  | [] => ([], [])
  | seg :: rest =>
    if seg.frg = 0 then ([seg], rest)
    else
      let (message, rest) := takeMessage rest
      (seg :: message, rest)

/-- The bytes of segments one behind the other. -/
def bytes (segs : List Segment) : List UInt8 := segs.flatMap (·.data)

namespace Ikcpcb

/-- Into how many segments `ikcp_send` cuts `len` bytes. -/
def sendCount (kcp : Ikcpcb) (len : Nat) : Nat :=
  if len ≤ kcp.mss.toNat then 1 else (len + kcp.mss.toNat - 1) / kcp.mss.toNat

/-- The part of `ikcp_send` that cuts the data. -/
def sendFragments (kcp : Ikcpcb) (buffer : List UInt8) : Int × Ikcpcb :=
  let count := kcp.sendCount buffer.length
  if count ≥ ikcpWndRcv.toNat then (-2, kcp)
  else
    let count := if count = 0 then 1 else count
    (0, { kcp with
      sndQueue := kcp.sndQueue ++ fragments kcp.mss kcp.stream count buffer
      nsndQue := kcp.nsndQue + UInt32.ofNat count })

/-- How many bytes of the data fill up the last queued segment in stream mode. -/
def extend (kcp : Ikcpcb) (buffer : List UInt8) : Nat :=
  match kcp.sndQueue.getLast? with
  | some old => if old.len < kcp.mss then min buffer.length (kcp.mss - old.len).toNat else 0
  | none => 0

/-- A new segment takes the place of the last one when that has room. -/
def appendLast (kcp : Ikcpcb) (buffer : List UInt8) : Ikcpcb :=
  match kcp.sndQueue.getLast? with
  | some old =>
    if old.len < kcp.mss then
      { kcp with sndQueue := kcp.sndQueue.dropLast ++ [{ data := old.data ++ buffer.take (kcp.extend buffer) }] }
    else kcp
  | none => kcp

/-- `ikcp_send` of a whole buffer, whose length is the argument `len`. -/
def ikcpSend (kcp : Ikcpcb) (buffer : List UInt8) : Int × Ikcpcb :=
  if kcp.stream ≠ 0 then
    let rest := buffer.drop (kcp.extend buffer)
    let kcp := kcp.appendLast buffer
    if rest.length = 0 then (0, kcp) else kcp.sendFragments rest
  else kcp.sendFragments buffer

def ikcpPeeksize (kcp : Ikcpcb) : Int :=
  match kcp.rcvQueue with
  | [] => -1
  | seg :: _ =>
    if seg.frg = 0 then seg.data.length
    else if kcp.nrcvQue < seg.frg + 1 then -1
    else (bytes (takeMessage kcp.rcvQueue).1).length

/-- The loop that moves segments from `rcvBuf` to `rcvQueue`. Its argument is
what is left of `rcvBuf`. -/
def moveReady : List Segment → Ikcpcb → Ikcpcb
  | [], kcp => { kcp with rcvBuf := [] }
  | seg :: rest, kcp =>
    if seg.sn = kcp.rcvNxt ∧ kcp.nrcvQue < kcp.rcvWnd then
      moveReady rest { kcp with
        nrcvBuf := kcp.nrcvBuf - 1
        rcvQueue := kcp.rcvQueue ++ [seg]
        nrcvQue := kcp.nrcvQue + 1
        rcvNxt := kcp.rcvNxt + 1 }
    else { kcp with rcvBuf := seg :: rest }

/-- The checks at the beginning of `ikcp_recv`, 0 when they are passed. -/
def recvCheck (kcp : Ikcpcb) (len : Int) : Int :=
  if kcp.rcvQueue = [] then -1
  else if kcp.ikcpPeeksize < 0 then -2
  else if kcp.ikcpPeeksize > (if len < 0 then -len else len) then -3
  else 0

/-- The message leaves the queue, unless `len` asks for a look only. -/
def takeFirst (kcp : Ikcpcb) (len : Int) : Ikcpcb :=
  if len < 0 then kcp
  else
    { kcp with
      rcvQueue := (takeMessage kcp.rcvQueue).2
      nrcvQue := kcp.nrcvQue - UInt32.ofNat (takeMessage kcp.rcvQueue).1.length }

/-- `ikcp_recv`: its result, the bytes that it puts at the start of the caller's
buffer, and what becomes of the control block. -/
def ikcpRecv (kcp : Ikcpcb) (len : Int) : Int × List UInt8 × Ikcpcb :=
  if kcp.recvCheck len ≠ 0 then (kcp.recvCheck len, [], kcp)
  else
    let message := bytes (takeMessage kcp.rcvQueue).1
    let moved := moveReady kcp.rcvBuf (kcp.takeFirst len)
    -- the queue was full and is not any more
    let recover := kcp.nrcvQue ≥ kcp.rcvWnd
    let probe := if moved.nrcvQue < moved.rcvWnd ∧ recover then moved.probe ||| ikcpAskTell else moved.probe
    (message.length, message, { moved with probe })

end Ikcpcb
end NetPrograms.Ikcp
