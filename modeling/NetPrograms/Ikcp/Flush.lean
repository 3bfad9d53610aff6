import NetPrograms.Ikcp.Input
import NetPrograms.Lib.Packing

/-! `ikcp_flush`, `ikcp_update` and `ikcp_check` (ikcp.c). -/

namespace NetPrograms.Ikcp

/-- A segment goes out for the first time, again after its timeout, or again
because later ones were acknowledged. -/
inductive Due where
  | no
  | first
  | timeout
  | fast
  deriving DecidableEq

/-- What the loop over `snd_buf` changes. `passed` holds the segments behind it. -/
structure Flushing where
  packing : Packing Segment
  passed : List Segment := []
  xmit : UInt32
  state : UInt32
  change : Nat := 0
  lost : Bool := false
  deriving DecidableEq

namespace Ikcpcb

def ikcpWndUnused (kcp : Ikcpcb) : UInt32 := if kcp.nrcvQue < kcp.rcvWnd then kcp.rcvWnd - kcp.nrcvQue else 0

/-- The header that acknowledgements and probes are encoded from. -/
def header (kcp : Ikcpcb) : Segment :=
  { conv := kcp.conv, cmd := ikcpCmdAck, wnd := kcp.ikcpWndUnused, una := kcp.rcvNxt }

/-- The buffer is sent off when a segment would pass the MTU. -/
def lay (kcp : Ikcpcb) (packing : Packing Segment) (seg : Segment) : Packing Segment :=
  packing.add Segment.size kcp.mtu.toNat seg

def acks (kcp : Ikcpcb) : List Segment := kcp.acklist.map fun (sn, ts) => { kcp.header with sn, ts }

/-- When to ask for the window of a peer that has announced 0. -/
def probeWindow (kcp : Ikcpcb) : Ikcpcb :=
  if kcp.rmtWnd = 0 then
    if kcp.probeWait = 0 then
      { kcp with probeWait := ikcpProbeInit, tsProbe := kcp.current + ikcpProbeInit }
    else if itimediff kcp.current kcp.tsProbe ≥ 0 then
      let probeWait := if kcp.probeWait < ikcpProbeInit then ikcpProbeInit else kcp.probeWait
      let probeWait := probeWait + probeWait / 2
      let probeWait := if probeWait > ikcpProbeLimit then ikcpProbeLimit else probeWait
      { kcp with probeWait, tsProbe := kcp.current + probeWait, probe := kcp.probe ||| ikcpAskSend }
    else kcp
  else { kcp with tsProbe := 0, probeWait := 0 }

/-- The probes are encoded from the header as the acknowledgements have left it. -/
def probes (kcp : Ikcpcb) (seg : Segment) : List Segment :=
  (if kcp.probe &&& ikcpAskSend ≠ 0 then [{ seg with cmd := ikcpCmdWask }] else []) ++
    (if kcp.probe &&& ikcpAskTell ≠ 0 then [{ seg with cmd := ikcpCmdWins }] else [])

/-- The window for new segments. -/
def sendWindow (kcp : Ikcpcb) : UInt32 :=
  let cwnd := imin kcp.sndWnd kcp.rmtWnd
  if kcp.nocwnd = 0 then imin kcp.cwnd cwnd else cwnd

/-- The loop that moves segments from `sndQueue` to `sndBuf`. Its argument is what
is left of `sndQueue`. -/
def moveQueued (wnd cwnd : UInt32) : List Segment → Ikcpcb → Ikcpcb
  | [], kcp => { kcp with sndQueue := [] }
  | newseg :: rest, kcp =>
    if itimediff kcp.sndNxt (kcp.sndUna + cwnd) < 0 then
      moveQueued wnd cwnd rest { kcp with
        nsndQue := kcp.nsndQue - 1
        nsndBuf := kcp.nsndBuf + 1
        sndNxt := kcp.sndNxt + 1
        sndBuf := kcp.sndBuf ++ [{ newseg with
          conv := kcp.conv
          cmd := ikcpCmdPush
          wnd
          ts := kcp.current
          sn := kcp.sndNxt
          una := kcp.rcvNxt
          resendts := kcp.current
          rto := kcp.rxRto.toUInt32
          fastack := 0
          xmit := 0 }] }
    else { kcp with sndQueue := newseg :: rest }

def resent (kcp : Ikcpcb) : UInt32 := if kcp.fastresend > 0 then kcp.fastresend.toUInt32 else 0xffffffff

def rtomin (kcp : Ikcpcb) : UInt32 := if kcp.nodelay = 0 then (kcp.rxRto >>> 3).toUInt32 else 0

def due (kcp : Ikcpcb) (segment : Segment) : Due :=
  if segment.xmit = 0 then .first
  else if itimediff kcp.current segment.resendts ≥ 0 then .timeout
  else if segment.fastack ≥ kcp.resent then
    if segment.xmit.toInt32 ≤ kcp.fastlimit ∨ kcp.fastlimit ≤ 0 then .fast else .no
  else .no

/-- The timeout after another one. -/
def backoff (kcp : Ikcpcb) (rto : UInt32) : UInt32 :=
  if kcp.nodelay = 0 then rto + imax rto kcp.rxRto.toUInt32
  else
    let step := if kcp.nodelay < 2 then rto.toInt32 else kcp.rxRto
    rto + (step / 2).toUInt32

/-- The fields that say when a segment goes out and how often it has. -/
def schedule (kcp : Ikcpcb) (segment : Segment) : Segment :=
  match kcp.due segment with
  | .no => segment
  | .first =>
    { segment with
      xmit := segment.xmit + 1
      rto := kcp.rxRto.toUInt32
      resendts := kcp.current + kcp.rxRto.toUInt32 + kcp.rtomin }
  | .timeout =>
    { segment with
      xmit := segment.xmit + 1
      rto := kcp.backoff segment.rto
      resendts := kcp.current + kcp.backoff segment.rto }
  | .fast => { segment with xmit := segment.xmit + 1, fastack := 0, resendts := kcp.current + segment.rto }

/-- A round of the loop over `snd_buf`. -/
def flushSegment (kcp : Ikcpcb) (wnd : UInt32) (flushing : Flushing) (segment : Segment) : Flushing :=
  let due := kcp.due segment
  if due = .no then { flushing with passed := flushing.passed ++ [segment] }
  else
    let segment := { kcp.schedule segment with ts := kcp.current, wnd, una := kcp.rcvNxt }
    { packing := kcp.lay flushing.packing segment
      passed := flushing.passed ++ [segment]
      xmit := if due = .timeout then flushing.xmit + 1 else flushing.xmit
      state := if segment.xmit ≥ kcp.deadLink then 0xffffffff else flushing.state
      change := if due = .fast then flushing.change + 1 else flushing.change
      lost := if due = .timeout then true else flushing.lost }

/-- After a segment was sent again because others had passed it. -/
def reduceCwnd (kcp : Ikcpcb) : Ikcpcb :=
  let ssthresh := imax ((kcp.sndNxt - kcp.sndUna) / 2) ikcpThreshMin
  { kcp with ssthresh, cwnd := ssthresh + kcp.resent, incr := (ssthresh + kcp.resent) * kcp.mss }

/-- After a timeout. `cwnd` is the window that the call has sent with. -/
def collapseCwnd (kcp : Ikcpcb) (cwnd : UInt32) : Ikcpcb :=
  { kcp with ssthresh := imax (cwnd / 2) ikcpThreshMin, cwnd := 1, incr := kcp.mss }

def openCwnd (kcp : Ikcpcb) : Ikcpcb := if kcp.cwnd < 1 then { kcp with cwnd := 1, incr := kcp.mss } else kcp

/-- What retransmissions do to the congestion window. -/
def shrinkCwnd (kcp : Ikcpcb) (cwnd : UInt32) (change : Nat) (lost : Bool) : Ikcpcb :=
  let kcp := if change ≠ 0 then kcp.reduceCwnd else kcp
  let kcp := if lost then kcp.collapseCwnd cwnd else kcp
  kcp.openCwnd

/-- The control block before the loop over `snd_buf`, when acknowledgements and
probes are in the buffer. -/
def flushQueued (kcp : Ikcpcb) : Ikcpcb :=
  let wnd := kcp.ikcpWndUnused
  let kcp := { probeWindow { kcp with acklist := [] } with probe := 0 }
  moveQueued wnd kcp.sendWindow kcp.sndQueue kcp

/-- The acknowledgements and probes of a call. -/
def control (kcp : Ikcpcb) : List Segment :=
  kcp.acks ++ (probeWindow { kcp with acklist := [] }).probes (kcp.acks.getLastD kcp.header)

/-- The loop over `snd_buf`. -/
def flushData (kcp : Ikcpcb) : Flushing :=
  let queued := kcp.flushQueued
  queued.sndBuf.foldl (queued.flushSegment kcp.ikcpWndUnused)
    { packing := kcp.control.foldl kcp.lay {}, xmit := queued.xmit, state := queued.state }

/-- The control block after the loop over `snd_buf`. -/
def flushed (kcp : Ikcpcb) : Ikcpcb :=
  { kcp.flushQueued with sndBuf := kcp.flushData.passed, xmit := kcp.flushData.xmit, state := kcp.flushData.state }

/-- `ikcp_flush`, with what it has laid in the buffer and given to `output`. -/
def ikcpFlush (kcp : Ikcpcb) : Ikcpcb × Packing Segment :=
  if kcp.updated = 0 then (kcp, {})
  else
    (kcp.flushed.shrinkCwnd kcp.flushQueued.sendWindow kcp.flushData.change kcp.flushData.lost,
      kcp.flushData.packing.close)

/-- The times are too far apart to be compared. -/
def far (current tsFlush : UInt32) : Prop := itimediff current tsFlush ≥ 10000 ∨ itimediff current tsFlush < -10000

instance (current tsFlush : UInt32) : Decidable (far current tsFlush) := by
  unfold far
  infer_instance

/-- The clock of `ikcp_update`. The first call begins with a flush. -/
def start (kcp : Ikcpcb) (current : UInt32) : Ikcpcb :=
  { kcp with
    current
    updated := if kcp.updated = 0 then 1 else kcp.updated
    tsFlush := if kcp.updated = 0 then current else kcp.tsFlush }

def resync (kcp : Ikcpcb) : Ikcpcb :=
  { kcp with tsFlush := if far kcp.current kcp.tsFlush then kcp.current else kcp.tsFlush }

def nextFlush (kcp : Ikcpcb) : Ikcpcb :=
  let tsFlush := kcp.tsFlush + kcp.interval
  { kcp with tsFlush := if itimediff kcp.current tsFlush ≥ 0 then kcp.current + kcp.interval else tsFlush }

def ikcpUpdate (kcp : Ikcpcb) (current : UInt32) : Ikcpcb × Packing Segment :=
  let kcp := (kcp.start current).resync
  if itimediff kcp.current kcp.tsFlush ≥ 0 then kcp.nextFlush.ikcpFlush else (kcp, {})

end Ikcpcb

/-- The loop of `ikcp_check`: the shortest wait for a segment, and none when one
is due. -/
def packetWait (current : UInt32) : List Segment → Int → Option Int
  | [], tmPacket => some tmPacket
  | seg :: rest, tmPacket =>
    let diff := itimediff seg.resendts current
    if diff ≤ 0 then none else packetWait current rest (if diff < tmPacket then diff else tmPacket)

namespace Ikcpcb

def ikcpCheck (kcp : Ikcpcb) (current : UInt32) : UInt32 :=
  if kcp.updated = 0 then current
  else
    let tsFlush := if far current kcp.tsFlush then current else kcp.tsFlush
    if itimediff current tsFlush ≥ 0 then current
    else
      let tmFlush := itimediff tsFlush current
      match packetWait current kcp.sndBuf 0x7fffffff with
      | none => current
      | some tmPacket =>
        let minimal := (Int32.ofInt (if tmPacket < tmFlush then tmPacket else tmFlush)).toUInt32
        let minimal := if minimal ≥ kcp.interval then kcp.interval else minimal
        current + minimal

end Ikcpcb

/-- The datagrams given to `output`. -/
def datagrams (packing : Packing Segment) : List (List UInt8) := packing.closed.map encodeSegments

end NetPrograms.Ikcp
