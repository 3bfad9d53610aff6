import NetPrograms.Ikcp.Flush

/-! The calls that a program makes on a control block (ikcp.h), in any order and
with any arguments. -/

namespace NetPrograms.Ikcp

/-- `stream` is the assignment to the field, for which ikcp.h has no function. -/
inductive Call where
  | send (buffer : List UInt8)
  | recv (len : Int)
  | input (data : List UInt8)
  | update (current : UInt32)
  | flush
  | setmtu (mtu : Int32)
  | interval (interval : Int32)
  | nodelay (nodelay interval resend nc : Int32)
  | wndsize (sndwnd rcvwnd : Int32)
  | stream (on : Int32)

/-- The control block and the output after a call. There is none when the call has
read past the end of a datagram. -/
def Call.run (kcp : Ikcpcb) : Call → Option (Ikcpcb × Packing Segment)
  | .send buffer => some ((kcp.ikcpSend buffer).2, {})
  | .recv len => some ((kcp.ikcpRecv len).2.2, {})
  | .input data => (ikcpInput kcp data data.length).map fun (_, kcp) => (kcp, {})
  | .update current => some (kcp.ikcpUpdate current)
  | .flush => some kcp.ikcpFlush
  | .setmtu mtu => some ((kcp.ikcpSetmtu mtu).2, {})
  | .interval time => some (kcp.ikcpInterval time, {})
  | .nodelay mode time resend nc => some (kcp.ikcpNodelay mode time resend nc, {})
  | .wndsize sndwnd rcvwnd => some (kcp.ikcpWndsize sndwnd rcvwnd, {})
  | .stream on => some ({ kcp with stream := on }, {})

def Ikcpcb.call (kcp : Ikcpcb) (call : Call) : Option Ikcpcb := (call.run kcp).map (·.1)

end NetPrograms.Ikcp
