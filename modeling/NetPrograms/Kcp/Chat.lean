import NetPrograms.Kcp.Server
import NetPrograms.Lib.ByteOrder
import NetPrograms.Lib.Run
import Mathlib.Data.List.AList

/-! `ChatServer` over `KcpServer` (chat_server.cc, kcp_server.cc). The thread that
receives and the thread that updates exclude each other, so that each does one
step of the server at a time. -/

namespace NetPrograms.Kcp

/-- A session object on the heap, which `sessions_` and `users_` point to. -/
abbrev SessionId := Nat

/-- A set of sessions, in the order in which a loop visits it. -/
structure UserSet where
  members : List SessionId := []
  distinct : members.Nodup := by simp
  deriving DecidableEq

namespace UserSet

def insert (users : UserSet) (id : SessionId) : UserSet := ⟨users.members.insert id, users.distinct.insert⟩

def erase (users : UserSet) (id : SessionId) : UserSet := ⟨users.members.erase id, users.distinct.erase id⟩

end UserSet

abbrev SessionMap := AList fun _ : UInt32 => SessionId

/-- A session is made, gets another address, and is handed a text by `Send`; `Recv`
returns a message; the idle clock is set; `Update` returns. -/
inductive Action where
  | made (id : SessionId) (addr : SockAddr)
  | moved (id : SessionId) (addr : SockAddr)
  | sent (id : SessionId) (text : List UInt8)
  | received (id : SessionId) (msg : List UInt8) (time : Int)
  | refreshed (id : SessionId) (time : Int)
  | seeded (id : SessionId) (time : Int)
  | updated (id : SessionId) (time : Int) (offline : Bool)
  deriving DecidableEq

/-- `tick` counts the readings of the clock. Nothing in the program reads `trace`. -/
structure ChatServer where
  kcpOpt : KcpOpt
  buf : Buffer UInt8 bodySize := Buffer.fill 0
  sessions : SessionMap := ∅
  users : UserSet := {}
  objects : SessionId → KcpSession
  next : SessionId := 0
  tick : Nat := 0
  trace : List Action := []

namespace ChatServer

def modify (server : ChatServer) (id : SessionId) (change : KcpSession → KcpSession) : ChatServer :=
  { server with objects := Function.update server.objects id (change (server.objects id)) }

def record (server : ChatServer) (action : Action) : ChatServer :=
  { server with trace := server.trace ++ [action] }

def iclock64 (clock : Nat → Int) (server : ChatServer) : Int × ChatServer :=
  (clock server.tick, { server with tick := server.tick + 1 })

def send (server : ChatServer) (id : SessionId) (data : List UInt8) : ChatServer :=
  (server.modify id (·.send data |>.2)).record (.sent id data)

def notify (server : ChatServer) (str : List UInt8) : ChatServer :=
  server.users.members.foldl (fun server user => server.send user str) server

def userFrom (session : KcpSession) : List UInt8 :=
  ascii "user from [" ++ session.getAddrToString ++ ascii "]"

def handleMessage (server : ChatServer) (id : SessionId) (msg : List UInt8) : ChatServer :=
  server.notify (userFrom (server.objects id) ++ ascii " : " ++ msg)

def handleConnection (server : ChatServer) (id : SessionId) : ChatServer :=
  let server := { server with users := server.users.insert id }
  server.notify (userFrom (server.objects id) ++ ascii " join the ChatRoom!")

def handleClose (server : ChatServer) (id : SessionId) : ChatServer :=
  let server := { server with users := server.users.erase id }
  server.notify (userFrom (server.objects id) ++ ascii " left the ChatRoom!")

def newSession (server : ChatServer) (conv : UInt32) (addr : SockAddr) : SessionId × ChatServer :=
  let session : KcpSession := { kcpOpt := { server.kcpOpt with conv }, addr }
  let id := server.next
  let server := { server with objects := Function.update server.objects id session, next := id + 1 }
  (id, (server.record (.made id addr)).handleConnection id)

def getSession (server : ChatServer) (conv : UInt32) (addr : SockAddr) : SessionId × ChatServer :=
  let (id, server) :=
    match server.sessions.lookup conv with
    | some id => (id, server)
    | none =>
      let (id, server) := server.newSession conv addr
      (id, { server with sessions := server.sessions.insert conv id })
  let sessionAddr := (server.objects id).addr
  if sessionAddr.sinPort ≠ addr.sinPort ∨ sessionAddr.sinAddr ≠ addr.sinAddr then
    (id, (server.modify id (·.setAddr addr)).record (.moved id addr))
  else (id, server)

def check (ret : Int) : Bool := ret ≠ -1 ∧ 24 ≤ ret

def getConv (buf : Buffer UInt8 bodySize) : UInt32 := UInt32.ofNat (ofLittleEndian (buf.cells.take 4))

def callbacks (clock : Nat → Int) (id : SessionId) : Callbacks ChatServer where
  received server msg :=
    let (time, server) := server.iclock64 clock
    server.record (.received id msg time)
  setKeepAlive server :=
    let (time, server) := server.iclock64 clock
    (server.modify id (·.setKeepAlive time)).record (.refreshed id time)
  handleMessage server msg := server.handleMessage id msg

structure Datagram where
  bytes : List UInt8
  fits : bytes.length ≤ bodySize
  addr : SockAddr

/-- One round of `Run`. `ret` is what `Input` returns for the datagram and `arrived`
the messages that it completes; the server is gone after `exit(-1)`. -/
def receive (clock : Nat → Int) (server : ChatServer) (datagram : Option Datagram) (ret : Int)
    (arrived : List (List UInt8)) : Option ChatServer :=
  match datagram with
  | none => some server
  | some datagram =>
    let server := { server with buf := server.buf.put datagram.bytes datagram.fits }
    if ¬ check datagram.bytes.length then some server
    else
      let (id, server) := server.getSession (getConv server.buf) datagram.addr
      match handleSession (callbacks clock id) server.buf ret ((server.objects id).rcvQueue ++ arrived) server with
      | .exited _ => none
      | .returned buf rcvQueue server => some ({ server with buf }.modify id ({ · with rcvQueue }))

def callUpdate (clock : Nat → Int) (server : ChatServer) (id : SessionId) : Bool × ChatServer :=
  let (current, server) := server.iclock64 clock
  let session := server.objects id
  let server := if session.recvLatestTime = 0 then server.record (.seeded id current) else server
  let (offline, session) := session.update current
  (offline, (server.modify id fun _ => session).record (.updated id current offline))

/-- One round of the loop of `Update`, for an entry of the map. -/
def updateSession (clock : Nat → Int) (server : ChatServer) (entry : (_ : UInt32) × SessionId) : ChatServer :=
  let (offline, server) := server.callUpdate clock entry.2
  if ¬ offline then server
  else
    let server := server.handleClose entry.2
    { server with sessions := server.sessions.erase entry.1 }

/-- The loop visits the entries of the map in an order of its own. -/
def update (clock : Nat → Int) (server : ChatServer) (order : List ((_ : UInt32) × SessionId)) : ChatServer :=
  order.foldl (updateSession clock) server

inductive Event where
  | receive (datagram : Option Datagram) (ret : Int) (arrived : List (List UInt8))
  | update

inductive Step (clock : Nat → Int) : ChatServer → Event → ChatServer → Prop where
  | receive {server after datagram ret arrived} (received : server.receive clock datagram ret arrived = some after) :
      Step clock server (.receive datagram ret arrived) after
  | update {server : ChatServer} {order} (all : order.Perm server.sessions.entries) :
      Step clock server .update (server.update clock order)

/-- The options that `main` gives a server, and those that a caller may change. -/
def start (kcpOpt : KcpOpt) : ChatServer where
  kcpOpt := { kcpOpt with isServer := true }
  objects _ := { kcpOpt := { kcpOpt with isServer := true }, addr := ⟨(0, 0, 0, 0), 0⟩ }

end ChatServer
end NetPrograms.Kcp
