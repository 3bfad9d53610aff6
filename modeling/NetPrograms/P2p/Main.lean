import NetPrograms.Lib.Epoll
import NetPrograms.P2p.Outbuf
import NetPrograms.P2p.Stage1

/-! `main` of 2.2.1_tcp_p2p.c from behind the initial connect. One step is one
iteration of the loop of stage 1 or of stage 2, with the clean-up that follows the
last one. What the system calls answer is in the event. -/

namespace NetPrograms.P2p

inductive Stage where
  | first
  | second
  | returned (code : Int)
deriving DecidableEq

/-- `sockets` are all sockets obtained, `connections` those that `connect` or `accept`
has connected. -/
structure Main where
  stage : Stage
  gStop : Bool
  lfd : Int
  cfd : Int
  connInflight : Bool
  establishedFd : Int
  ob : Outbuf
  epoll : Epoll
  sockets : List Int
  connections : List Int

namespace Main

def stdinFileno : Int := 0

/-- What `read` puts into `ibuf`. -/
structure Input extends CObject where
  nonempty : bytes ≠ []
  within : bytes.length ≤ 4096

inductive ReadResult where
  | bytes (input : Input)
  | eof
  | again
  | failed

inductive RecvResult where
  | bytes
  | closed
  | again
  | failed

/-- One entry of `evs`, with the answers to the calls it leads to: of `accept`, -1 on
failure; of `getsockopt`, none on failure; of `read`; of `realloc`; of `recv` and of
`send`. -/
structure Ready where
  fd : Int
  events : Flags
  afd : Int
  soError : Option Int
  input : ReadResult
  fresh : Option (Nat → UInt8)
  received : RecvResult
  sends : List SendResult

/-- What `epoll_wait` returns. -/
inductive Wait where
  | interrupted
  | failed
  | ready (evs : List Ready)

/-- One iteration of a loop, in which SIGINT or SIGTERM may arrive. -/
structure Turn where
  wait : Wait
  signal : Bool

/-- The sockets of the two calls of `socket`, both open. -/
structure Sockets where
  lfd : Int
  cfd : Int
  lfdOpen : 0 ≤ lfd
  cfdOpen : 0 ≤ cfd
  distinct : lfd ≠ cfd

def registerInitial (sockets : Sockets) (others : Int → Bool) (connInflight : Bool) : Epoll :=
  let epoll := ((Epoll.empty others).opened sockets.lfd).opened sockets.cfd
  let epoll := epoll.add sockets.lfd { input := true, rdhup := true }
  let epoll := if connInflight then epoll.add sockets.cfd { output := true, err := true, hup := true } else epoll
  epoll.add stdinFileno { input := true }

/-- At the loop of stage 1 for the first time. `others` are the open descriptors of
the program, and `gStop` is set when a signal has arrived already. -/
def start (sockets : Sockets) (others : Int → Bool) (result : ConnectResult) (gStop : Bool) : Main where
  stage := .first
  gStop
  lfd := sockets.lfd
  cfd := sockets.cfd
  connInflight := (startPeer result).connInflight
  establishedFd := -1
  ob := outbufInit
  epoll := registerInitial sockets others (startPeer result).connInflight
  sockets := [sockets.lfd, sockets.cfd]
  connections := match result with
    | .succeeded => [sockets.cfd]
    | .inProgress | .failed => []

/-- The kernel gives `accept` a descriptor that is not open. -/
def acceptPeer (s : Main) (ev : Ready) : Option Main :=
  if ev.fd = s.lfd ∧ ev.events.input then
    if 0 ≤ ev.afd then
      if s.epoll.files ev.afd then none
      else some { s with
        establishedFd := ev.afd
        epoll := s.epoll.opened ev.afd
        sockets := s.sockets ++ [ev.afd]
        connections := s.connections ++ [ev.afd] }
    else some s
  else some s

def finishConnect (s : Main) (ev : Ready) : Main :=
  if s.connInflight ∧ ev.fd = s.cfd ∧ (ev.events.output ∨ ev.events.err ∨ ev.events.hup) then
    match ev.soError with
    | none => { s with connInflight := false, epoll := s.epoll.del s.cfd }
    | some err =>
      if err = 0 then
        { s with establishedFd := s.cfd, cfd := -1, connections := s.connections ++ [s.cfd] }
      else { s with connInflight := false, epoll := s.epoll.del ev.fd }
  else s

/-- The body of the loop over `evs` in stage 1. -/
def connectEvent (s : Main) (ev : Ready) : Option Main :=
  (s.acceptPeer ev).map (·.finishConnect ev)

def closeSocket (s : Main) (fd : Int) : Main :=
  if 0 ≤ fd then { s with epoll := (s.epoll.del fd).close fd } else s

/-- Behind the loop of stage 1, up to the loop of stage 2. -/
def leaveFirst (s : Main) : Main :=
  let s := (s.closeSocket s.cfd).closeSocket s.lfd
  if s.establishedFd < 0 then { s with stage := .returned 3 }
  else { s with
    stage := .second
    epoll := s.epoll.add s.establishedFd { input := true, rdhup := true }
    ob := outbufInit }

/-- `e.events` for the `ep_mod` behind an append. -/
def wanted (ob : Outbuf) : Flags :=
  { input := true, rdhup := true, output := !outbufEmpty ob }

def readStdin (s : Main) (ev : Ready) : Option Main :=
  if ev.fd = stdinFileno ∧ ev.events.input then
    match ev.input with
    | .bytes input => do
      let (ob, ret) ← outbufAppend s.ob input.toCObject ev.fresh
      if ret < 0 then
        return { s with ob, gStop := true }
      return { s with ob, epoll := s.epoll.mod s.establishedFd (wanted ob) }
    | .eof | .again => some s
    | .failed => some { s with gStop := true }
  else some s

def recvPeer (s : Main) (ev : Ready) : Main :=
  if ev.fd = s.establishedFd ∧
      (ev.events.input ∨ ev.events.rdhup ∨ ev.events.hup ∨ ev.events.err) then
    if ev.events.rdhup ∨ ev.events.hup then { s with gStop := true }
    else if ev.events.input then
      match ev.received with
      | .bytes | .again => s
      | .closed | .failed => { s with gStop := true }
    else s
  else s

/-- Without a result of `send` for each round of the flush there is none. -/
def flushPeer (s : Main) (ev : Ready) : Option Main :=
  if ev.fd = s.establishedFd ∧ ev.events.output then do
    let (ob, _, ret) ← outbufFlushFd s.ob ev.sends
    let r ← ret
    if r < 0 then
      return { s with ob, gStop := true }
    if r = 0 then
      return { s with ob, epoll := s.epoll.mod s.establishedFd { input := true, rdhup := true } }
    return { s with ob }
  else some s

/-- The body of the loop over `evs` in stage 2. Each `break` there stands behind
`g_stop = 1`. -/
def chatEvent (s : Main) (ev : Ready) : Option Main := do
  let s ← s.readStdin ev
  if s.gStop then
    return s
  let s := s.recvPeer ev
  if s.gStop then
    return s
  s.flushPeer ev

def chatEvents (s : Main) : List Ready → Option Main
  | [] => some s
  | ev :: evs => do
    let s ← s.chatEvent ev
    if s.gStop then
      return s
    s.chatEvents evs

def leaveSecond (s : Main) : Main :=
  { s with
    stage := .returned 0
    epoll := ((s.epoll.del s.establishedFd).close s.establishedFd).del stdinFileno
    ob := outbufFree s.ob }

/-- A signal is noticed at the head of a loop. -/
def interrupt (s : Main) (turn : Turn) : Main :=
  { s with gStop := s.gStop || turn.signal }

/-- `evs` has 16 entries. -/
def turnFirst (s : Main) (turn : Turn) : Option Main :=
  match turn.wait with
  | .interrupted => some (s.interrupt turn)
  | .failed => some (s.leaveFirst.interrupt turn)
  | .ready evs =>
    if s.epoll.MayReport 16 (evs.map fun ev => (ev.fd, ev.events)) then do
      let s ← evs.foldlM connectEvent s
      if 0 ≤ s.establishedFd then
        return s.leaveFirst.interrupt turn
      return s.interrupt turn
    else none

def turnSecond (s : Main) (turn : Turn) : Option Main :=
  match turn.wait with
  | .interrupted => some (s.interrupt turn)
  | .failed => some s.leaveSecond
  | .ready evs =>
    if s.epoll.MayReport 16 (evs.map fun ev => (ev.fd, ev.events)) then
      (s.chatEvents evs).map (·.interrupt turn)
    else none

def step (s : Main) (turn : Turn) : Option Main :=
  match s.stage with
  | .first => if ¬ s.gStop ∧ s.establishedFd < 0 then s.turnFirst turn else some s.leaveFirst
  | .second => if s.gStop then some s.leaveSecond else s.turnSecond turn
  | .returned _ => none

end Main
end NetPrograms.P2p
