import Mathlib.Logic.Function.Basic
import NetPrograms.Lib.Block
import NetPrograms.Lib.Run

/-! The event loop of uring_tcp_server.c with the kernel behind its rings. The
kernel completes submitted requests in any order and at any time. -/

namespace NetPrograms.Uring

abbrev bufferLength : Nat := 1024

def entriesLength : Nat := 1024

/-- `EVENT_ACCEPT`, `EVENT_READ` and `EVENT_WRITE`. -/
inductive Kind where
  | accept
  | read
  | write
  deriving DecidableEq

/-- A prepared request; `event` and `fd` are its user data. A send also carries
what the receive behind it received, which the program does not look at. -/
structure Sqe where
  event : Kind
  fd : Int
  len : Nat
  received : List UInt8
  deriving DecidableEq

/-- A submitted request, and whether a send has read its buffer. -/
structure Flight where
  sqe : Sqe
  sent : Bool

structure Cqe where
  event : Kind
  fd : Int
  res : Int
  received : List UInt8

/-- Where the program is: before `io_uring_submit`, before `io_uring_wait_cqe`, or
in the loop over `cqes` with the entries that are left. -/
inductive Phase where
  | top
  | waiting
  | batch (entries : List Cqe)

structure Transmission where
  fd : Int
  bytes : List UInt8
  received : List UInt8
  deriving DecidableEq

/-- The program's one buffer and its rings. `files` are the descriptors that are
open. `conns` holds the requests prepared so far for each connection that was
taken from an accept and is not closed, and `wire` what the sends transmitted. -/
structure Ring where
  phase : Phase
  sq : List Sqe
  flight : List Flight
  cq : List Cqe
  buffer : Buffer UInt8 bufferLength
  files : Int → Bool
  conns : Int → Option (List Kind)
  wire : List Transmission

/-- A full submission queue has no entry to give. -/
def prepare (s : Ring) (sqe : Sqe) : Option Ring :=
  if s.sq.length < entriesLength then some { s with sq := s.sq ++ [sqe] } else none

def noted (s : Ring) (fd : Int) (event : Kind) : Ring :=
  { s with conns := Function.update s.conns fd ((s.conns fd).map (· ++ [event])) }

def setEventAccept (s : Ring) (sockfd : Int) : Option Ring := prepare s ⟨.accept, sockfd, 0, []⟩

def setEventRecv (s : Ring) (sockfd : Int) (len : Nat) : Option Ring :=
  prepare (noted s sockfd .read) ⟨.read, sockfd, len, []⟩

def setEventSend (s : Ring) (sockfd : Int) (len : Nat) (received : List UInt8) : Option Ring :=
  prepare (noted s sockfd .write) ⟨.write, sockfd, len, received⟩

/-- A completed accept is taken: its result is a new connection or an error. -/
def taken (s : Ring) (res : Int) : Ring :=
  if 0 ≤ res then { s with conns := Function.update s.conns res (some []) } else s

def close (s : Ring) (fd : Int) : Ring :=
  { s with
    files := Function.update s.files fd false
    conns := Function.update s.conns fd none }

/-- The body of the loop over `cqes`. -/
def processEntry (socket : Int) (s : Ring) (entry : Cqe) : Option Ring :=
  match entry.event with
  | .accept => do
    let s ← setEventAccept (taken s entry.res) socket
    setEventRecv s entry.res bufferLength
  | .read =>
    if entry.res ≤ 0 then some (close s entry.fd)
    else setEventSend s entry.fd entry.res.toNat entry.received
  | .write => setEventRecv s entry.fd bufferLength

inductive Event where
  | submit (count : Nat)
  | peek
  | process
  | advance
  | transmit (index : Nat)
  | received (index : Nat) (bytes : List UInt8)
  | completed (index : Nat) (res : Int)

/-- What a completion without received bytes may be. -/
def mayComplete (files : Int → Bool) (res : Int) : Kind → Bool
  | .accept => res < 0 || !files res
  | .read => res ≤ 0
  | .write => true

/-- One step of the program or of the kernel. `io_uring_submit` may hand over only
a part of the requests, and `io_uring_wait_cqe` may return without a completion. -/
def step (socket : Int) (s : Ring) : Event → Option Ring
  | .submit count =>
    match s.phase with
    | .top =>
      if count ≤ s.sq.length then
        some { s with
          phase := .waiting
          sq := s.sq.drop count
          flight := s.flight ++ (s.sq.take count).map (⟨·, false⟩) }
      else none
    | _ => none
  | .peek =>
    match s.phase with
    | .waiting => some { s with phase := .batch (s.cq.take (entriesLength * 2)), cq := s.cq.drop (entriesLength * 2) }
    | _ => none
  | .process =>
    match s.phase with
    | .batch (entry :: entries) => processEntry socket { s with phase := .batch entries } entry
    | _ => none
  | .advance =>
    match s.phase with
    | .batch [] => some { s with phase := .top }
    | _ => none
  | .transmit index => do
    let op ← s.flight[index]?
    if op.sqe.event = .write ∧ op.sent = false then
      let bytes ← s.buffer.read 0 op.sqe.len
      some { s with
        flight := s.flight.set index { op with sent := true }
        wire := s.wire ++ [⟨op.sqe.fd, bytes, op.sqe.received⟩] }
    else none
  | .received index bytes => do
    let op ← s.flight[index]?
    if op.sqe.event = .read ∧ bytes ≠ [] ∧ bytes.length ≤ op.sqe.len then
      let buffer ← s.buffer.write 0 bytes
      some { s with
        flight := s.flight.eraseIdx index
        cq := s.cq ++ [⟨.read, op.sqe.fd, bytes.length, bytes⟩]
        buffer }
    else none
  | .completed index res => do
    let op ← s.flight[index]?
    if mayComplete s.files res op.sqe.event then
      some { s with
        flight := s.flight.eraseIdx index
        cq := s.cq ++ [⟨op.sqe.event, op.sqe.fd, res, []⟩]
        files := if op.sqe.event = .accept ∧ 0 ≤ res then Function.update s.files res true else s.files }
    else none

/-- The state before the loop of `main`, whatever descriptors are open. -/
def start (socket : Int) (files : Int → Bool) : Ring where
  phase := .top
  sq := [⟨.accept, socket, 0, []⟩]
  flight := []
  cq := []
  buffer := Buffer.fill 0
  files
  conns _ := none
  wire := []

end NetPrograms.Uring
