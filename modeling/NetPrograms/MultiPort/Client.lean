import Mathlib.Algebra.Order.Ring.Int
import NetPrograms.Lib.CString

/-! The load client of 2.1.3_mul_port_client_epoll_MillionConcurrent.c. Each turn of its
loop opens a connection and, once in a thousand, handles a batch of events. -/

namespace NetPrograms.MultiPort

def maxBuffer : Nat := 128

/-- `MAX_PORT` of this program. -/
def maxPortClient : Nat := 20

/-- What `recv` returns, and whether `errno` is one of those after which it goes on. -/
inductive Reading where
  | bytes (rBuffer : List UInt8)
  | ended
  | transient
  | fatal
deriving DecidableEq

/-- An event of a batch. `reading` is what a `recv` for it returns. -/
structure Report where
  clientfd : Int
  out : Bool
  input : Bool
  reading : Reading
deriving DecidableEq

/-- Why a socket was closed: what was read from which socket, or that the event was
neither for reading nor for writing. -/
inductive Cause where
  | read (fd : Int) (reading : Reading)
  | neither
deriving DecidableEq

/-- The variables of `main`, the sockets that are open and those that were closed. -/
structure Client where
  connections : Int
  sockfd : Int
  index : Nat
  isContinue : Bool
  opened : List Int
  closed : List (Int × Cause)

namespace Client

def start : Client where
  connections := 0
  sockfd := 0
  index := 0
  isContinue := false
  opened := []
  closed := []

def close (client : Client) (clientfd : Int) (cause : Cause) : Client :=
  { client with opened := client.opened.erase clientfd, closed := (clientfd, cause) :: client.closed }

/-- The body of the loop over `events`. It reads from the newest socket. -/
def handle (client : Client) (report : Report) : Client :=
  if report.out then
    client
  else if report.input then
    match report.reading with
    | .bytes rBuffer =>
      if strcmpZero (rBuffer ++ List.replicate (maxBuffer - rBuffer.length) 0) (ascii "quit" ++ [0]) = some true then
        { client with isContinue := false }
      else
        client
    | .ended =>
      { client with connections := client.connections - 1 }.close report.clientfd (.read client.sockfd .ended)
    | .transient => client
    | .fatal => client.close report.clientfd (.read client.sockfd .fatal)
  else
    client.close report.clientfd .neither

/-- The first half of a turn, in which all calls succeed. A new socket has a number
that is not in use. -/
def connect (client : Client) (sockfd : Int) : Client :=
  let client := { client with index := if client.index + 1 ≥ maxPortClient then 0 else client.index + 1 }
  if client.connections < 340000 ∧ client.isContinue = false then
    { client with sockfd, opened := sockfd :: client.opened, connections := client.connections + 1 }
  else
    client

/-- What `epoll_wait` may report: at most `connections` open sockets, each once. -/
def Reports (client : Client) (events : List Report) : Prop :=
  events.length ≤ client.connections ∧ (events.map Report.clientfd).Nodup ∧
    ∀ report ∈ events, report.clientfd ∈ client.opened

instance (client : Client) (events : List Report) : Decidable (client.Reports events) :=
  inferInstanceAs (Decidable (_ ∧ _ ∧ _))

/-- A batch is due. -/
def due (client : Client) : Bool := client.connections.tmod 1000 = 999 ∨ client.connections ≥ 340000

/-- One turn of the main loop, with the number of the next socket and the batch. -/
def turn (client : Client) (sockfd : Int) (events : List Report) : Option Client :=
  if sockfd ∈ client.opened then
    none
  else
    let client := client.connect sockfd
    if client.due then
      if client.Reports events then some (events.foldl handle client) else none
    else
      if events = [] then some client else none

end Client
end NetPrograms.MultiPort
