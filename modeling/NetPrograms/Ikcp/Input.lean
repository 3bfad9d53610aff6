import NetPrograms.Ikcp.Queues

/-! `ikcp_input` and what it calls (ikcp.c). Signed arithmetic wraps around. -/

namespace NetPrograms.Ikcp

/-- The loop of `ikcp_parse_ack`: what it leaves, and how many segments it deletes. -/
def deleteAcked (sn : UInt32) : List Segment → List Segment × UInt32
  | [] => ([], 0)
  | seg :: rest =>
    if sn = seg.sn then (rest, 1)
    else if itimediff sn seg.sn < 0 then (seg :: rest, 0)
    else
      let (rest, deleted) := deleteAcked sn rest
      (seg :: rest, deleted)

/-- The loop of `ikcp_parse_fastack`. -/
def skipAcked (sn : UInt32) : List Segment → List Segment
  | [] => []
  | seg :: rest =>
    if itimediff sn seg.sn < 0 then seg :: rest
    else (if sn ≠ seg.sn then { seg with fastack := seg.fastack + 1 } else seg) :: skipAcked sn rest

/-- The place for a segment in `rcvBuf`, looked for from the newest segment on.
There is none when the segment is there already. -/
def insertSegment (newseg : Segment) : List Segment → Option (List Segment)
  | [] => some [newseg]
  | seg :: older =>
    if seg.sn = newseg.sn then none
    else if itimediff newseg.sn seg.sn > 0 then some (newseg :: seg :: older)
    else (insertSegment newseg older).map (seg :: ·)

namespace Ikcpcb

/-- The difference is an `int` and then a `long`, as is the sum for `rx_rttval`. -/
def ikcpUpdateAck (kcp : Ikcpcb) (rtt : Int32) : Ikcpcb :=
  let kcp :=
    if kcp.rxSrtt = 0 then { kcp with rxSrtt := rtt, rxRttval := rtt / 2 }
    else
      let delta := (rtt - kcp.rxSrtt).toInt64
      let delta := if delta < 0 then -delta else delta
      let rxSrtt := (7 * kcp.rxSrtt + rtt) / 8
      { kcp with
        rxRttval := (((3 * kcp.rxRttval).toInt64 + delta) / 4).toInt32
        rxSrtt := if rxSrtt < 1 then 1 else rxSrtt }
  let rto := kcp.rxSrtt.toUInt32 + imax kcp.interval (4 * kcp.rxRttval).toUInt32
  { kcp with rxRto := (ibound kcp.rxMinrto.toUInt32 rto ikcpRtoMax).toInt32 }

def ikcpShrinkBuf (kcp : Ikcpcb) : Ikcpcb :=
  match kcp.sndBuf with
  | seg :: _ => { kcp with sndUna := seg.sn }
  | [] => { kcp with sndUna := kcp.sndNxt }

/-- `ikcp_parse_ack` and `ikcp_parse_fastack` look at no other numbers. -/
def inFlight (kcp : Ikcpcb) (sn : UInt32) : Prop :=
  ¬ (itimediff sn kcp.sndUna < 0 ∨ itimediff sn kcp.sndNxt ≥ 0)

instance (kcp : Ikcpcb) (sn : UInt32) : Decidable (kcp.inFlight sn) := by
  unfold inFlight
  infer_instance

def ikcpParseAck (kcp : Ikcpcb) (sn : UInt32) : Ikcpcb :=
  if kcp.inFlight sn then
    { kcp with
      sndBuf := (deleteAcked sn kcp.sndBuf).1
      nsndBuf := kcp.nsndBuf - (deleteAcked sn kcp.sndBuf).2 }
  else kcp

def ikcpParseUna (kcp : Ikcpcb) (una : UInt32) : Ikcpcb :=
  let left := kcp.sndBuf.dropWhile fun seg => itimediff una seg.sn > 0
  { kcp with sndBuf := left, nsndBuf := kcp.nsndBuf - UInt32.ofNat (kcp.sndBuf.length - left.length) }

def ikcpParseFastack (kcp : Ikcpcb) (sn : UInt32) : Ikcpcb :=
  if kcp.inFlight sn then { kcp with sndBuf := skipAcked sn kcp.sndBuf } else kcp

def ikcpAckPush (kcp : Ikcpcb) (sn ts : UInt32) : Ikcpcb :=
  { kcp with acklist := kcp.acklist ++ [(sn, ts)] }

def ikcpParseData (kcp : Ikcpcb) (newseg : Segment) : Ikcpcb :=
  if itimediff newseg.sn (kcp.rcvNxt + kcp.rcvWnd) ≥ 0 ∨ itimediff newseg.sn kcp.rcvNxt < 0 then kcp
  else
    let kcp :=
      match insertSegment newseg kcp.rcvBuf.reverse with
      | some newestFirst => { kcp with rcvBuf := newestFirst.reverse, nrcvBuf := kcp.nrcvBuf + 1 }
      | none => kcp
    moveReady kcp.rcvBuf kcp

/-- The branch for `IKCP_CMD_PUSH`. -/
def inputPush (kcp : Ikcpcb) (seg : Segment) : Ikcpcb :=
  if itimediff seg.sn (kcp.rcvNxt + kcp.rcvWnd) < 0 then
    let kcp := kcp.ikcpAckPush seg.sn seg.ts
    if itimediff seg.sn kcp.rcvNxt ≥ 0 then kcp.ikcpParseData seg else kcp
  else kcp

/-- The branch for `IKCP_CMD_ACK`. -/
def inputAck (kcp : Ikcpcb) (seg : Segment) : Ikcpcb :=
  let kcp :=
    if itimediff kcp.current seg.ts ≥ 0 then kcp.ikcpUpdateAck (Int32.ofInt (itimediff kcp.current seg.ts)) else kcp
  (kcp.ikcpParseAck seg.sn).ikcpShrinkBuf

/-- The highest number acknowledged so far, which is there when `flag` is set. -/
def maxack (flag : Option UInt32) (sn : UInt32) : UInt32 :=
  match flag with
  | none => sn
  | some maxack => if itimediff sn maxack > 0 then sn else maxack

/-- What a round of the loop does with a segment whose header is accepted. -/
def inputSegment (state : Ikcpcb × Option UInt32) (seg : Segment) : Ikcpcb × Option UInt32 :=
  let (kcp, flag) := state
  let kcp := { kcp with rmtWnd := seg.wnd }
  let kcp := (kcp.ikcpParseUna seg.una).ikcpShrinkBuf
  if seg.cmd = ikcpCmdAck then (kcp.inputAck seg, some (maxack flag seg.sn))
  else if seg.cmd = ikcpCmdPush then (kcp.inputPush seg, flag)
  else if seg.cmd = ikcpCmdWask then ({ kcp with probe := kcp.probe ||| ikcpAskTell }, flag)
  else (kcp, flag)

/-- The growth of `incr` once the threshold is reached. -/
def nextIncr (mss incr : UInt32) : UInt32 :=
  let incr := if incr < mss then mss else incr
  incr + ((mss * mss) / incr + mss / 16)

def raiseCwnd (kcp : Ikcpcb) : Ikcpcb :=
  let mss := kcp.mss
  if kcp.cwnd < kcp.ssthresh then { kcp with cwnd := kcp.cwnd + 1, incr := kcp.incr + mss }
  else
    let incr := nextIncr mss kcp.incr
    if (kcp.cwnd + 1) * mss ≤ incr then
      { kcp with cwnd := (incr + mss - 1) / (if mss > 0 then mss else 1), incr }
    else { kcp with incr }

/-- The congestion window grows when `sndUna` has. -/
def growCwnd (kcp : Ikcpcb) : Ikcpcb :=
  if kcp.cwnd < kcp.rmtWnd then
    let kcp := kcp.raiseCwnd
    if kcp.cwnd > kcp.rmtWnd then { kcp with cwnd := kcp.rmtWnd, incr := kcp.rmtWnd * kcp.mss } else kcp
  else kcp

/-- What follows the loop. -/
def finishInput (prevUna : UInt32) (state : Ikcpcb × Option UInt32) : Ikcpcb :=
  let (kcp, flag) := state
  let kcp :=
    match flag with
    | some maxack => kcp.ikcpParseFastack maxack
    | none => kcp
  if itimediff kcp.sndUna prevUna > 0 then kcp.growCwnd else kcp

end Ikcpcb

/-- What the head of a round makes of the bytes that are left: the loop ends, the
call returns a code, it has read past the end, or there is a segment before the
rest. -/
inductive Decoded where
  | ended
  | refused (code : Int)
  | overrun
  | segment (seg : Segment) (rest : List UInt8)

/-- The fields after `conv`, with the length of the data. -/
def decodeFields (conv : UInt32) (data : List UInt8) : Option (Segment × UInt32 × List UInt8) := do
  let (cmd, data) ← ikcpDecode8u data
  let (frg, data) ← ikcpDecode8u data
  let (wnd, data) ← ikcpDecode16u data
  let (ts, data) ← ikcpDecode32u data
  let (sn, data) ← ikcpDecode32u data
  let (una, data) ← ikcpDecode32u data
  let (len, data) ← ikcpDecode32u data
  some ({ conv, cmd := cmd.toUInt32, frg := frg.toUInt32, wnd := wnd.toUInt32, ts, sn, una }, len, data)

def knownCmd (cmd : UInt32) : Prop :=
  cmd = ikcpCmdPush ∨ cmd = ikcpCmdAck ∨ cmd = ikcpCmdWask ∨ cmd = ikcpCmdWins

instance (cmd : UInt32) : Decidable (knownCmd cmd) := by
  unfold knownCmd
  infer_instance

/-- The checks after the header. A segment whose data does not end within the
memory counts as an overrun, though only the data of a push is read. -/
def checkSegment (size : Int) (seg : Segment) (len : UInt32) (data : List UInt8) : Decoded :=
  if size < len.toNat ∨ len.toInt32 < 0 then .refused (-2)
  else if ¬ knownCmd seg.cmd then .refused (-3)
  else if data.length < len.toNat then .overrun
  else .segment { seg with data := data.take len.toNat } (data.drop len.toNat)

/-- The head of a round, with `size` bytes left. -/
def decodeSegment (ownConv : UInt32) (data : List UInt8) (size : Int) : Decoded :=
  if size < ikcpOverhead.toNat then .ended
  else
    match ikcpDecode32u data with
    | none => .overrun
    | some (conv, data) =>
      if conv ≠ ownConv then .refused (-1)
      else
        match decodeFields conv data with
        | none => .overrun
        | some (seg, len, data) => checkSegment (size - ikcpOverhead.toNat) seg len data

/-- How the loop ends: with a code that the call returns, or regularly. -/
inductive Looped where
  | overrun
  | refused (code : Int) (kcp : Ikcpcb)
  | ended (state : Ikcpcb × Option UInt32)

/-- The `while` loop. Every round takes a header, so `fuel` above the number of
bytes is never used up. -/
def inputLoop : Nat → List UInt8 → Int → Ikcpcb × Option UInt32 → Looped
  | 0, _, _, state => .ended state
  | fuel + 1, data, size, state =>
    match decodeSegment state.1.conv data size with
    | .ended => .ended state
    | .refused code => .refused code state.1
    | .overrun => .overrun
    | .segment seg rest =>
      inputLoop fuel rest (size - seg.size) (Ikcpcb.inputSegment state seg)

/-- `ikcp_input` of `size` bytes at `data`: its result and the control block.
There is none when it has read past the end. -/
def ikcpInput (kcp : Ikcpcb) (data : List UInt8) (size : Int) : Option (Int × Ikcpcb) :=
  if size < ikcpOverhead.toNat then some (-1, kcp)
  else
    match inputLoop (data.length + 1) data size (kcp, none) with
    | .overrun => none
    | .refused code kcp => some (code, kcp)
    | .ended state => some (0, Ikcpcb.finishInput kcp.sndUna state)

end NetPrograms.Ikcp
