import Mathlib.Algebra.Order.Ring.Int
import Mathlib.Logic.Function.Basic
import NetPrograms.Lib.Run

/-! Stage 1 of 2.2.1_tcp_p2p.c in two instances that run against each other, when the
two outgoing connects are two TCP connections. Which events the kernel reports, and
in which batches and order, is in the events. -/

namespace NetPrograms.P2p

inductive Party where
  | a
  | b
deriving DecidableEq

def Party.other : Party → Party
  | .a => .b
  | .b => .a

namespace Party

@[simp] theorem other_other (p : Party) : p.other.other = p := by cases p <;> rfl

@[simp] theorem other_ne (p : Party) : p.other ≠ p := by cases p <;> decide

theorem self_or_other (p q : Party) : q = p ∨ q = p.other := by cases p <;> cases q <;> decide

end Party

/-- One end of the connection that `owner` has asked for. The other party gets its
end from `accept`. -/
structure End where
  owner : Party
  accepted : Bool
deriving DecidableEq

/-- What `connect` returned at once. -/
inductive ConnectResult where
  | succeeded
  | inProgress
  | failed

/-- The outgoing connection of a party, as `SO_ERROR` would tell. -/
inductive Outgoing where
  | inflight
  | connected
  | failed
deriving DecidableEq

/-- The connection at the listener of the other party. -/
inductive Incoming where
  | absent
  | waiting
  | gone
deriving DecidableEq

/-- The variables of `main` in stage 1. A closed descriptor is false. -/
structure Peer where
  lfd : Bool
  cfd : Bool
  connInflight : Bool
  establishedFd : Option End
  left : Bool

structure Net where
  peer : Party → Peer
  outgoing : Party → Outgoing
  incoming : Party → Incoming

/-- A descriptor that `epoll_wait` reports, with `EPOLLIN` for `lfd` and the end of
the connect for `cfd`. -/
inductive Ready where
  | lfd
  | cfd
  | stdin
deriving DecidableEq

inductive Event where
  | connected (party : Party)
  | failed (party : Party)
  | queued (party : Party)
  | batch (party : Party) (ready : List Ready)
  | stop (party : Party)

def startPeer : ConnectResult → Peer
  | .inProgress => ⟨true, true, true, none, false⟩
  | .succeeded | .failed => ⟨true, true, false, none, false⟩

def startOutgoing : ConnectResult → Outgoing
  | .inProgress => .inflight
  | .succeeded => .connected
  | .failed => .failed

/-- Behind the two calls of `connect`, whose sockets are registered only while the
connect is in progress. -/
def Net.start (result : Party → ConnectResult) : Net where
  peer p := startPeer (result p)
  outgoing p := startOutgoing (result p)
  incoming _ := .absent

namespace Net

def setPeer (net : Net) (p : Party) (peer : Peer) : Net :=
  { net with peer := Function.update net.peer p peer }

/-- The body of the loop over `evs` for one event. No `break` follows a connection.
`getsockopt` does not fail on an open socket. -/
def handle (net : Net) (p : Party) : Ready → Net
  | .lfd =>
    match net.incoming p.other with
    | .waiting =>
      { net.setPeer p { net.peer p with establishedFd := some ⟨p.other, true⟩ } with
        incoming := Function.update net.incoming p.other .gone }
    | _ => net
  | .cfd =>
    if (net.peer p).connInflight ∧ (net.peer p).cfd then
      match net.outgoing p with
      | .connected => net.setPeer p { net.peer p with establishedFd := some ⟨p, false⟩, cfd := false }
      | _ => net.setPeer p { net.peer p with connInflight := false }
    else net
  | .stdin => net

/-- The clean-up behind the loop closes `lfd` with what waits there, and `cfd` unless
it is the connection that was taken. -/
def leave (net : Net) (p : Party) : Net :=
  { net.setPeer p { net.peer p with lfd := false, cfd := false, left := true } with
    incoming := Function.update net.incoming p.other .gone }

/-- The steps of the kernel and of the two loops. A connect that has not ended is
not reported, and no descriptor is reported twice in a batch. -/
def step (net : Net) : Event → Option Net
  | .connected p =>
    if net.outgoing p = .inflight ∧ (net.peer p).cfd then
      some { net with outgoing := Function.update net.outgoing p .connected }
    else none
  | .failed p => some { net with outgoing := Function.update net.outgoing p .failed }
  | .queued p =>
    if net.incoming p = .absent ∧ net.outgoing p = .connected ∧ (net.peer p.other).lfd then
      some { net with incoming := Function.update net.incoming p .waiting }
    else none
  | .batch p ready =>
    if ¬ (net.peer p).left ∧ ready.Nodup ∧ (.cfd ∈ ready → net.outgoing p ≠ .inflight) then
      let after := ready.foldl (·.handle p) net
      if (after.peer p).establishedFd.isSome then some (after.leave p) else some after
    else none
  | .stop p => if (net.peer p).left then none else some (net.leave p)

end Net
end NetPrograms.P2p
