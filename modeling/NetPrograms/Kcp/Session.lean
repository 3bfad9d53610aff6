import NetPrograms.Lib.Block
import NetPrograms.Lib.CString

/-! Sessions of the chat programs (kcp_session.h, kcp_session.cc) over the
messages that ikcp.c queues. KCP carries whole messages in order; which of them a
datagram completes, and with what result, is for the network to say. -/

namespace NetPrograms.Kcp

/-- `KCP_KEEP_ALIVE_CMD` with its NUL, as it is sent and compared. -/
def kcpKeepAliveCmd : List UInt8 := ascii "KCP_KEEP_ALIVE_CMD" ++ [0]

/-- `ikcp_recv` with the size of the whole buffer: the next complete message is
copied to the start of the buffer, which otherwise stays as it is. -/
def ikcpRecv {n : Nat} (rcvQueue : List (List UInt8)) (buffer : Buffer UInt8 n) :
    Int × Buffer UInt8 n × List (List UInt8) :=
  match rcvQueue with
  | [] => (-1, buffer, [])
  | msg :: rest => if fits : msg.length ≤ n then (msg.length, buffer.put msg fits, rest) else (-3, buffer, msg :: rest)

/-- `IKCP_MTU_DEF - IKCP_OVERHEAD`, which nothing changes. -/
def mss : Nat := 1400 - 24

def ikcpWndRcv : Nat := 128

/-- A length that is passed on as `uint32_t` and then as `int`. -/
def intOfSize (size : Nat) : Int :=
  let size : Nat := size % 2 ^ 32
  if size < 2 ^ 31 then size else size - 2 ^ 32

/-- `ikcp_send` in message mode, with its result. -/
def ikcpSend (sndQueue : List (List UInt8)) (buffer : List UInt8) (len : Int) : Int × List (List UInt8) :=
  if len < 0 then (-1, sndQueue)
  else
    let count := if len ≤ mss then 1 else (len.toNat + mss - 1) / mss
    if ikcpWndRcv ≤ count then (-2, sndQueue) else (0, sndQueue ++ [buffer.take len.toNat])

/-- `sockaddr_in`: the octets of `sin_addr` and the number in `sin_port`. -/
structure SockAddr where
  sinAddr : UInt8 × UInt8 × UInt8 × UInt8
  sinPort : UInt16
  deriving DecidableEq

def decimal (n : Nat) : List UInt8 := (Nat.toDigits 10 n).map fun c => UInt8.ofNat c.toNat

structure KcpOpt where
  isServer : Bool := true
  keepAliveTimeout : Int := 5000
  conv : UInt32 := 0

/-- `sndQueue` holds the messages handed to KCP and accepted, oldest first. -/
structure KcpSession where
  kcpOpt : KcpOpt
  addr : SockAddr
  rcvQueue : List (List UInt8) := []
  sndQueue : List (List UInt8) := []
  recvLatestTime : Int := 0
  sendLatestTime : Int := 0

namespace KcpSession

def getAddrToString (session : KcpSession) : List UInt8 :=
  let (a, b, c, d) := session.addr.sinAddr
  decimal a.toNat ++ ascii "." ++ decimal b.toNat ++ ascii "." ++ decimal c.toNat ++ ascii "." ++
    decimal d.toNat ++ ascii ":" ++ decimal session.addr.sinPort.toNat

def setAddr (session : KcpSession) (addr : SockAddr) : KcpSession := { session with addr }

def setKeepAlive (session : KcpSession) (current : Int) : KcpSession :=
  { session with recvLatestTime := current }

def send (session : KcpSession) (data : List UInt8) : Int × KcpSession :=
  let (ret, sndQueue) := ikcpSend session.sndQueue data (intOfSize data.length)
  (ret, { session with sndQueue })

def seed (session : KcpSession) (current : Int) : KcpSession :=
  if session.recvLatestTime = 0 then { session with recvLatestTime := current } else session

def update (session : KcpSession) (current : Int) : Bool × KcpSession :=
  let session := session.seed current
  if session.kcpOpt.isServer ∧ session.kcpOpt.keepAliveTimeout < current - session.recvLatestTime then
    (true, session)
  else if ¬ session.kcpOpt.isServer ∧ session.kcpOpt.keepAliveTimeout < current - session.sendLatestTime then
    (false, ({ session with sendLatestTime := current }.send kcpKeepAliveCmd).2)
  else (false, session)

end KcpSession
end NetPrograms.Kcp
