import Mathlib.Algebra.Order.Ring.Int
import Mathlib.Data.List.Basic

/-! The server of tcp_Server.c that listens on many ports. Its main loop looks up each
descriptor in the table of the listening sockets. -/

namespace NetPrograms.MultiPort

def maxEvents : Nat := 1024

def maxPort : Nat := 100

def islistenfd (fd : Int) (fds : List Int) : Int :=
  if (List.range maxPort).any (fun i => fds[i]? = some fd) then fd else 0

/-- What the calls of each turn of the set-up loop return. -/
structure Calls where
  socket : Nat → Int
  bind : Nat → Int
  listen : Nat → Int

/-- The set-up loop from turn `i` on, with the value that `main` returns on an error. -/
def setUpFrom (calls : Calls) (i : Nat) : Nat → List Int → Except Int (List Int)
  | 0, sockfds => .ok sockfds
  | turns + 1, sockfds =>
    if calls.socket i < 0 then
      .error (-2)
    else if calls.bind i < 0 then
      .error (-2)
    else if calls.listen i < 0 then
      .error (-3)
    else
      setUpFrom calls (i + 1) turns (sockfds.set i (calls.socket i))

def setUp (calls : Calls) : Except Int (List Int) := setUpFrom calls 0 maxEvents (List.replicate maxEvents 0)

/-- What `recv` returns, and `errno` where it fails. -/
inductive Received where
  | bytes (len : Nat)
  | again
  | interrupted
  | failed
  | ended

inductive Op where
  | accept (sockfd : Int)
  | recv (fd : Int)
  | close (fd : Int)
deriving DecidableEq

def readClient (fd : Int) : List Received → List Op
  | [] => []
  | .again :: _ => [.recv fd]
  | .failed :: _ | .ended :: _ => [.recv fd, .close fd]
  | .interrupted :: received | .bytes _ :: received => .recv fd :: readClient fd received

/-- The body of the loop over `events`. -/
def handleEvent (sockfds : List Int) (fd : Int) (received : List Received) : List Op :=
  let sockfd := islistenfd fd sockfds
  if sockfd ≠ 0 then [.accept sockfd] else readClient fd received

end NetPrograms.MultiPort
