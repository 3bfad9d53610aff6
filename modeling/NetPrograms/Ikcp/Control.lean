import NetPrograms.Ikcp.Segment

/-! The control block of ikcp.c and the functions that set its options. Memory
is there when it is asked for, and nothing is logged. -/

namespace NetPrograms.Ikcp

/-- `IKCPCB`. The queues and buffers hold their oldest segment first, as does
`acklist` the pairs of `sn` and `ts`, whose number is `ackcount`. `buffer` is the
size of the output buffer. -/
structure Ikcpcb where
  conv : UInt32
  mtu : UInt32 := ikcpMtuDef
  mss : UInt32 := ikcpMtuDef - ikcpOverhead
  state : UInt32 := 0
  sndUna : UInt32 := 0
  sndNxt : UInt32 := 0
  rcvNxt : UInt32 := 0
  ssthresh : UInt32 := ikcpThreshInit
  rxRttval : Int32 := 0
  rxSrtt : Int32 := 0
  rxRto : Int32 := ikcpRtoDef.toInt32
  rxMinrto : Int32 := ikcpRtoMin.toInt32
  sndWnd : UInt32 := ikcpWndSnd
  rcvWnd : UInt32 := ikcpWndRcv
  rmtWnd : UInt32 := ikcpWndRcv
  cwnd : UInt32 := 0
  probe : UInt32 := 0
  current : UInt32 := 0
  interval : UInt32 := ikcpInterval
  tsFlush : UInt32 := ikcpInterval
  xmit : UInt32 := 0
  nrcvBuf : UInt32 := 0
  nsndBuf : UInt32 := 0
  nrcvQue : UInt32 := 0
  nsndQue : UInt32 := 0
  nodelay : UInt32 := 0
  updated : UInt32 := 0
  tsProbe : UInt32 := 0
  probeWait : UInt32 := 0
  deadLink : UInt32 := ikcpDeadlink
  incr : UInt32 := 0
  sndQueue : List Segment := []
  rcvQueue : List Segment := []
  sndBuf : List Segment := []
  rcvBuf : List Segment := []
  acklist : List (UInt32 × UInt32) := []
  buffer : UInt32 := (ikcpMtuDef + ikcpOverhead) * 3
  fastresend : Int32 := 0
  fastlimit : Int32 := ikcpFastackLimit
  nocwnd : Int32 := 0
  stream : Int32 := 0
  deriving DecidableEq

def ikcpCreate (conv : UInt32) : Ikcpcb := { conv }

namespace Ikcpcb

/-- `mtu` is an `int`. -/
def ikcpSetmtu (kcp : Ikcpcb) (mtu : Int32) : Int × Ikcpcb :=
  if mtu < 50 ∨ mtu < ikcpOverhead.toInt32 then (-1, kcp)
  else
    (0, { kcp with
      mtu := mtu.toUInt32
      mss := mtu.toUInt32 - ikcpOverhead
      buffer := (mtu.toUInt32 + ikcpOverhead) * 3 })

def boundInterval (interval : Int32) : Int32 :=
  if interval > 5000 then 5000 else if interval < 10 then 10 else interval

def ikcpInterval (kcp : Ikcpcb) (interval : Int32) : Ikcpcb :=
  { kcp with interval := (boundInterval interval).toUInt32 }

/-- Negative arguments leave their option as it is. -/
def ikcpNodelay (kcp : Ikcpcb) (nodelay interval resend nc : Int32) : Ikcpcb :=
  { kcp with
    nodelay := if nodelay ≥ 0 then nodelay.toUInt32 else kcp.nodelay
    rxMinrto :=
      if nodelay ≥ 0 then if nodelay ≠ 0 then ikcpRtoNdl.toInt32 else ikcpRtoMin.toInt32 else kcp.rxMinrto
    interval := if interval ≥ 0 then (boundInterval interval).toUInt32 else kcp.interval
    fastresend := if resend ≥ 0 then resend else kcp.fastresend
    nocwnd := if nc ≥ 0 then nc else kcp.nocwnd }

/-- Arguments that are not positive leave their window as it is. -/
def ikcpWndsize (kcp : Ikcpcb) (sndwnd rcvwnd : Int32) : Ikcpcb :=
  { kcp with
    sndWnd := if sndwnd > 0 then sndwnd.toUInt32 else kcp.sndWnd
    rcvWnd := if rcvwnd > 0 then imax rcvwnd.toUInt32 ikcpWndRcv else kcp.rcvWnd }

/-- `ikcp_waitsnd`, an `int`. -/
def ikcpWaitsnd (kcp : Ikcpcb) : Int := (kcp.nsndBuf + kcp.nsndQue).toInt32.toInt

end Ikcpcb
end NetPrograms.Ikcp
