import Mathlib.Logic.Function.Basic
import NetPrograms.Lib.Block
import NetPrograms.Lib.Run

/-! What the versions of reactor.c share: `conn_list`, the events that epoll watches
for, `accept_cb`, and the main loop. A version adds the callbacks of its connections. -/

namespace NetPrograms.Reactor

abbrev bufferLength : Nat := 1024

def connectionSize : Int := 1048576

def maxPorts : Nat := 20

/-- The size of `events`. -/
def maxEvents : Nat := 1024

structure Chunk where
  bytes : List UInt8
  nonempty : bytes ≠ []
  fits : bytes.length ≤ bufferLength

inductive RecvResult where
  | data (chunk : Chunk)
  | disconnect
  | failed

def RecvResult.count : RecvResult → Int
  | .data chunk => chunk.bytes.length
  | .disconnect => 0
  | .failed => -1

/-- A length that is passed on as a `size_t`. -/
def toSize (length : Int) : Nat := (length % 2 ^ 64).toNat

/-- `EPOLLIN` or `EPOLLOUT`: the program never asks for both. -/
inductive Interest where
  | input
  | output
  deriving DecidableEq

/-- What `r_action` points to. -/
inductive RecvCallback where
  | acceptCb
  | recvCb
  deriving DecidableEq

/-- An entry of `conn_list`, with a null pointer for a callback that is not set. -/
structure Slot (C : Type) where
  fd : Int
  conn : C
  recvCallback : Option RecvCallback
  sendCallback : Bool

inductive Next where
  | arm (event : Interest)
  | close
  | keep

/-- A callback's connection afterwards, what it did on which descriptor, and whether
it changes the event to watch for or closes its descriptor. -/
structure Outcome (C A : Type) where
  conn : C
  acts : List (Int × A)
  next : Next

/-- A version of the reactor. `R` and `W` are what the system calls inside `recv_cb`
and inside `send_cb` return. -/
structure Program (C A R W : Type) where
  initServer : Int → Int → Int → Int
  eventRegister : C → C
  recvCb : Int → Slot C → R → Option (Outcome C A)
  sendCb : Int → Slot C → W → Option (Outcome C A)

/-- `files` are the descriptors that are open, `batch` what is left to do for the
last `epoll_wait`, and `log` what was done on a descriptor since it was registered. -/
structure System (C A : Type) where
  ports : Nat
  connList : Int → Slot C
  interest : Int → Option Interest
  files : Int → Bool
  batch : List (Int × Interest)
  log : Int → List A

/-- `init_server` with the results of `socket`, `bind` and `listen`. -/
def initServer (socket bind listen : Int) : Int :=
  if socket < 0 then -1 else if bind < 0 then -2 else if listen < 0 then -3 else socket

variable {C A R W : Type}

def System.slot (s : System C A) (fd : Int) : Option (Slot C) :=
  if 0 ≤ fd ∧ fd < connectionSize then some (s.connList fd) else none

/-- `EPOLL_CTL_ADD` fails for a descriptor that is watched, and `EPOLL_CTL_MOD` for one that is not. -/
def setEvent (s : System C A) (fd : Int) (event : Interest) (flag : Bool) : System C A :=
  if (s.interest fd).isNone = flag then { s with interest := Function.update s.interest fd (some event) } else s

def eventRegister (p : Program C A R W) (s : System C A) (fd : Int) (event : Interest) : Option (System C A) :=
  if fd < 0 then some s
  else do
    let slot ← s.slot fd
    let slot : Slot C := {
      fd
      conn := p.eventRegister slot.conn
      recvCallback := some .recvCb
      sendCallback := true }
    some (setEvent { s with
      connList := Function.update s.connList fd slot
      log := Function.update s.log fd [] } fd event true)

def acceptCb (p : Program C A R W) (s : System C A) (clientFd : Int) : Option (System C A) :=
  if clientFd < 0 then some s
  else eventRegister p { s with files := Function.update s.files clientFd true } clientFd .input

def noted (log : Int → List A) (acts : List (Int × A)) (fd : Int) : List A :=
  log fd ++ (acts.filter (·.1 = fd)).map Prod.snd

/-- The effect of a callback for `fd` on the system. -/
def finish (s : System C A) (fd : Int) (out : Outcome C A) : System C A :=
  let s := { s with
    connList := Function.update s.connList fd { s.connList fd with conn := out.conn }
    log := noted s.log out.acts }
  match out.next with
  | .arm event => setEvent s fd event false
  | .close =>
    { s with
      interest := Function.update s.interest fd none
      files := Function.update s.files fd false }
  | .keep => s

/-- One turn of the loop in `main` that opens the ports. -/
def openPort (p : Program C A R W) (s : System C A) (socket bind listen : Int) : Option (System C A) := do
  let listenfd := p.initServer socket bind listen
  let slot ← s.slot listenfd
  some (setEvent { s with
    ports := s.ports + 1
    connList := Function.update s.connList listenfd { slot with fd := listenfd, recvCallback := some .acceptCb }
    files := if 0 ≤ socket then Function.update s.files socket true else s.files } listenfd .input true)

/-- What the system calls return: one port, one `epoll_wait`, or one callback. -/
inductive Event (R W : Type) where
  | port (socket bind listen : Int)
  | wait (events : List (Int × Interest))
  | accepted (clientFd : Int)
  | readable (result : R)
  | writable (result : W)

/-- The results of `recv` that are no failure. -/
def Event.received : Event RecvResult W → Prop
  | .readable result => 0 ≤ result.count
  | _ => True

instance (event : Event RecvResult W) : Decidable event.received :=
  match event with
  | .readable result => inferInstanceAs (Decidable (0 ≤ result.count))
  | .port _ _ _ | .wait _ | .accepted _ | .writable _ => isTrue trivial

/-- A callback is called for the first entry of the batch. There is no result when
the program leaves `conn_list` or a buffer or calls a null pointer. -/
def step (p : Program C A R W) (s : System C A) : Event R W → Option (System C A)
  | .port socket bind listen => openPort p s socket bind listen
  | .wait events => some { s with batch := events }
  | .accepted clientFd =>
    match s.batch with
    | (fd, .input) :: batch => do
      let slot ← s.slot fd
      if slot.recvCallback = some .acceptCb then acceptCb p { s with batch } clientFd else none
    | _ => none
  | .readable result =>
    match s.batch with
    | (fd, .input) :: batch => do
      let slot ← s.slot fd
      if slot.recvCallback = some .recvCb then
        let out ← p.recvCb fd slot result
        some (finish { s with batch } fd out)
      else none
    | _ => none
  | .writable result =>
    match s.batch with
    | (fd, .output) :: batch => do
      let slot ← s.slot fd
      if slot.sendCallback then
        let out ← p.sendCb fd slot result
        some (finish { s with batch } fd out)
      else none
    | _ => none

/-- What the kernel may answer. A new descriptor is not open, and epoll reports each
descriptor once and only for the event that it watches for. -/
def May (s : System C A) : Event R W → Prop
  | .port socket _ _ => s.ports < maxPorts ∧ (0 ≤ socket → s.files socket = false)
  | .wait events =>
    s.ports = maxPorts ∧ s.batch = [] ∧ events.length ≤ maxEvents ∧ (events.map Prod.fst).Nodup ∧
      ∀ event ∈ events, s.interest event.1 = some event.2
  | .accepted clientFd =>
    ∃ entry ∈ s.batch.head?, entry.2 = .input ∧ (s.connList entry.1).recvCallback = some .acceptCb ∧
      (0 ≤ clientFd → s.files clientFd = false)
  | .readable _ => ∃ entry ∈ s.batch.head?, entry.2 = .input ∧ (s.connList entry.1).recvCallback ≠ some .acceptCb
  | .writable _ => ∃ entry ∈ s.batch.head?, entry.2 = .output

instance (s : System C A) (event : Event R W) : Decidable (May s event) :=
  match event with
  | .port _ _ _ => inferInstanceAs (Decidable (_ ∧ _))
  | .wait _ => inferInstanceAs (Decidable (_ ∧ _ ∧ _ ∧ _ ∧ _))
  | .accepted _ => inferInstanceAs (Decidable (∃ entry ∈ s.batch.head?, _))
  | .readable _ => inferInstanceAs (Decidable (∃ entry ∈ s.batch.head?, _))
  | .writable _ => inferInstanceAs (Decidable (∃ entry ∈ s.batch.head?, _))

/-- The steps in which the kernel answers as it may and a condition is met. -/
def moves (p : Program C A R W) (meets : System C A → Event R W → Prop) [∀ s event, Decidable (meets s event)] :
    System C A → Event R W → Option (System C A) :=
  meeting (fun s event => May s event ∧ meets s event) (step p)

/-- Before `main` opens its ports. -/
def start (conn : C) (files : Int → Bool) : System C A where
  ports := 0
  connList _ := {
    fd := 0
    conn
    recvCallback := none
    sendCallback := false }
  interest _ := none
  files
  batch := []
  log _ := []

end NetPrograms.Reactor
