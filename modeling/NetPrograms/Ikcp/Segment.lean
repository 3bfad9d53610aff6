import NetPrograms.Lib.ByteOrder
import NetPrograms.Lib.Serial

/-! Constants, arithmetic, encoding and segments of ikcp.c. -/

namespace NetPrograms.Ikcp

def ikcpRtoNdl : UInt32 := 30
def ikcpRtoMin : UInt32 := 100
def ikcpRtoDef : UInt32 := 200
def ikcpRtoMax : UInt32 := 60000
def ikcpCmdPush : UInt32 := 81
def ikcpCmdAck : UInt32 := 82
def ikcpCmdWask : UInt32 := 83
def ikcpCmdWins : UInt32 := 84
def ikcpAskSend : UInt32 := 1
def ikcpAskTell : UInt32 := 2
def ikcpWndSnd : UInt32 := 32
def ikcpWndRcv : UInt32 := 128
def ikcpMtuDef : UInt32 := 1400
def ikcpInterval : UInt32 := 100
def ikcpOverhead : UInt32 := 24
def ikcpDeadlink : UInt32 := 20
def ikcpThreshInit : UInt32 := 2
def ikcpThreshMin : UInt32 := 2
def ikcpProbeInit : UInt32 := 7000
def ikcpProbeLimit : UInt32 := 120000
def ikcpFastackLimit : Int32 := 5

def imin (a b : UInt32) : UInt32 := if a ≤ b then a else b

def imax (a b : UInt32) : UInt32 := if a ≥ b then a else b

def ibound (lower middle upper : UInt32) : UInt32 := imin (imax lower middle) upper

/-- `(IINT32)(later - earlier)` -/
def itimediff (later earlier : UInt32) : Int := Serial.diff later earlier

@[simp] theorem itimediff_eq_diff (later earlier : UInt32) : itimediff later earlier = Serial.diff later earlier := rfl

/-- `IKCPSEG`. Its field `len` is the number of bytes in `data`. The fields that
a call leaves unset are 0. -/
structure Segment where
  conv : UInt32 := 0
  cmd : UInt32 := 0
  frg : UInt32 := 0
  wnd : UInt32 := 0
  ts : UInt32 := 0
  sn : UInt32 := 0
  una : UInt32 := 0
  resendts : UInt32 := 0
  rto : UInt32 := 0
  fastack : UInt32 := 0
  xmit : UInt32 := 0
  data : List UInt8 := []
  deriving DecidableEq

namespace Segment

def len (seg : Segment) : UInt32 := UInt32.ofNat seg.data.length

/-- Its place in the output buffer. -/
def size (seg : Segment) : Nat := ikcpOverhead.toNat + seg.data.length

end Segment

def ikcpEncode8u (c : UInt8) : List UInt8 := [c]

def ikcpEncode16u (w : UInt16) : List UInt8 := littleEndian 2 w.toNat

def ikcpEncode32u (l : UInt32) : List UInt8 := littleEndian 4 l.toNat

/-- The header, with `cmd`, `frg` and `wnd` cut to their width. -/
def ikcpEncodeSeg (seg : Segment) : List UInt8 :=
  ikcpEncode32u seg.conv ++ ikcpEncode8u seg.cmd.toUInt8 ++ ikcpEncode8u seg.frg.toUInt8 ++
    ikcpEncode16u seg.wnd.toUInt16 ++ ikcpEncode32u seg.ts ++ ikcpEncode32u seg.sn ++ ikcpEncode32u seg.una ++
    ikcpEncode32u seg.len

/-- The header and the data behind it, as `ikcp_flush` lays them out. -/
def encodeSegment (seg : Segment) : List UInt8 := ikcpEncodeSeg seg ++ seg.data

/-- A datagram that `output` is called with. -/
def encodeSegments (segs : List Segment) : List UInt8 := segs.flatMap encodeSegment

/-- The number and the rest. There is none where a read would pass the end. -/
def ikcpDecode8u (p : List UInt8) : Option (UInt8 × List UInt8) :=
  match p with
  | c :: p => some (c, p)
  | [] => none

def ikcpDecode16u (p : List UInt8) : Option (UInt16 × List UInt8) :=
  if p.length < 2 then none else some (UInt16.ofNat (ofLittleEndian (p.take 2)), p.drop 2)

def ikcpDecode32u (p : List UInt8) : Option (UInt32 × List UInt8) :=
  if p.length < 4 then none else some (UInt32.ofNat (ofLittleEndian (p.take 4)), p.drop 4)

/-- `ikcp_getconv` -/
def ikcpGetconv (ptr : List UInt8) : Option UInt32 := (ikcpDecode32u ptr).map (·.1)

end NetPrograms.Ikcp
