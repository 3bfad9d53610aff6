import NetPrograms.P2p.Main

/-! The loop of stage 2 with the bytes that the peer sends. They arrive in segments, and
the peer's close arrives behind them. -/

namespace NetPrograms.P2p

/-- The peer's bytes that are on their way, those that wait for `recv`, those that it has
returned and those that were printed. `byPeer` is set where the loop is left since the peer closed. -/
structure Inbound where
  pending : List UInt8
  queue : List UInt8
  fin : Bool
  received : List UInt8
  printed : List UInt8
  byPeer : Bool
deriving DecidableEq

deriving instance DecidableEq for Main.RecvResult

structure Chat where
  inbound : Inbound
  main : Main

namespace Chat

/-- A turn comes with the number of bytes that its `recv` returns. -/
inductive Event where
  | segment (n : Nat)
  | fin
  | turn (turn : Main.Turn) (m : Nat)

/-- At the loop of stage 2, before anything has arrived. -/
def start (main : Main) (stream : List UInt8) : Chat := ⟨⟨stream, [], false, [], [], false⟩, main⟩

/-- `%s` prints up to the first zero. -/
def shown (rbuf : List UInt8) : List UInt8 := rbuf.takeWhile (· ≠ 0)

/-- The branch of `established_fd`. -/
def recvPeer (inbound : Inbound) (establishedFd : Int) (ev : Main.Ready) (m : Nat) : Option Inbound :=
  if ev.fd ≠ establishedFd then
    some inbound
  else if ev.events.rdhup ∨ ev.events.hup then
    some { inbound with byPeer := true }
  else if ev.events.input then
    match ev.received with
    | .bytes =>
      if 0 < m ∧ m ≤ 4095 ∧ m ≤ inbound.queue.length then
        some { inbound with
          queue := inbound.queue.drop m
          received := inbound.received ++ inbound.queue.take m
          printed := inbound.printed ++ shown (inbound.queue.take m) }
      else none
    | .closed => if inbound.queue = [] ∧ inbound.fin then some { inbound with byPeer := true } else none
    | .again | .failed => some inbound
  else
    some inbound

def chatEvent (chat : Chat) (m : Nat) (ev : Main.Ready) : Option Chat := do
  let main ← chat.main.readStdin ev
  if main.gStop then
    return ⟨chat.inbound, main⟩
  let inbound ← recvPeer chat.inbound main.establishedFd ev m
  let main := main.recvPeer ev
  if main.gStop then
    return ⟨inbound, main⟩
  let main ← main.flushPeer ev
  return ⟨inbound, main⟩

def chatEvents (chat : Chat) (m : Nat) : List Main.Ready → Option Chat
  | [] => some chat
  | ev :: evs => do
    let chat ← chat.chatEvent m ev
    if chat.main.gStop then
      return chat
    chat.chatEvents m evs

/-- The kernel reports a close that has arrived only, and input where `recv` has a result. -/
def Reports (chat : Chat) (evs : List Main.Ready) : Prop :=
  ∀ ev ∈ evs, ev.fd = chat.main.establishedFd →
    (ev.events.rdhup ∨ ev.events.hup → chat.inbound.fin = true) ∧
      (ev.events.input → chat.inbound.queue ≠ [] ∨ chat.inbound.fin = true)

instance (chat : Chat) (evs : List Main.Ready) : Decidable (chat.Reports evs) :=
  inferInstanceAs (Decidable (∀ ev ∈ evs, _))

def turnSecond (chat : Chat) (turn : Main.Turn) (m : Nat) : Option Chat :=
  match turn.wait with
  | .interrupted => some ⟨chat.inbound, chat.main.interrupt turn⟩
  | .failed => some ⟨chat.inbound, chat.main.leaveSecond⟩
  | .ready evs =>
    if chat.main.epoll.MayReport 16 (evs.map fun ev => (ev.fd, ev.events)) ∧ chat.Reports evs then
      (chat.chatEvents m evs).map fun chat => ⟨chat.inbound, chat.main.interrupt turn⟩
    else none

def step (chat : Chat) : Event → Option Chat
  | .segment n =>
    if n ≤ chat.inbound.pending.length then
      let arrived := chat.inbound.pending.take n
      some ⟨{ chat.inbound with pending := chat.inbound.pending.drop n, queue := chat.inbound.queue ++ arrived }, chat.main⟩
    else none
  | .fin => if chat.inbound.pending = [] then some ⟨{ chat.inbound with fin := true }, chat.main⟩ else none
  | .turn turn m =>
    match chat.main.stage with
    | .second => if chat.main.gStop then some ⟨chat.inbound, chat.main.leaveSecond⟩ else chat.turnSecond turn m
    | .first | .returned _ => none

end Chat
end NetPrograms.P2p
