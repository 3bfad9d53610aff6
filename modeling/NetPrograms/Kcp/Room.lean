import NetPrograms.Kcp.Chat

/-! The chat room that the server is for, as an observer of the sessions sees it: who
is in it, what its members are to be told, and what was sent to whom. -/

namespace NetPrograms.Kcp

/-- A text for the users that are in the room at that moment. -/
structure Broadcast where
  text : List UInt8
  users : UserSet
  deriving DecidableEq

/-- `waiting` is the last message that `Recv` returned, as long as it can still turn out
to be the keep-alive command. -/
structure Room where
  users : UserSet := ⟨[], List.nodup_nil⟩
  addrs : SessionId → SockAddr := fun _ => ⟨(0, 0, 0, 0), 0⟩
  waiting : Option (SessionId × List UInt8) := none
  told : List Broadcast := []
  sent : List (SessionId × Broadcast) := []

namespace Room

/-- How a user is named: the address in dotted form, and the port. -/
def name (addr : SockAddr) : List UInt8 :=
  let (a, b, c, d) := addr.sinAddr
  ascii "user from [" ++ decimal a.toNat ++ ascii "." ++ decimal b.toNat ++ ascii "." ++ decimal c.toNat ++
    ascii "." ++ decimal d.toNat ++ ascii ":" ++ decimal addr.sinPort.toNat ++ ascii "]"

def tell (room : Room) (text : List UInt8) : Room := { room with told := room.told ++ [⟨text, room.users⟩] }

def move (room : Room) (id : SessionId) (addr : SockAddr) : Room :=
  { room with addrs := Function.update room.addrs id addr }

def enter (room : Room) (id : SessionId) (addr : SockAddr) : Room :=
  { room.move id addr with users := room.users.insert id }

def leave (room : Room) (id : SessionId) : Room := { room with users := room.users.erase id }

/-- A message that waits is one for the room. -/
def settle (room : Room) : Room :=
  match room.waiting with
  | none => room
  | some (id, msg) => { room with waiting := none }.tell (name (room.addrs id) ++ ascii " : " ++ msg)

def observe (room : Room) : Action → Room
  | .made id addr => (room.settle.enter id addr).tell (name addr ++ ascii " join the ChatRoom!")
  | .moved id addr => room.settle.move id addr
  | .sent id text => { room.settle with sent := room.settle.sent ++ [(id, ⟨text, room.settle.users⟩)] }
  | .received id msg _ => { room.settle with waiting := if msg = [] then none else some (id, msg) }
  | .refreshed _ _ => { room with waiting := none }
  | .seeded _ _ => room.settle
  | .updated id _ offline =>
    if offline then (room.settle.leave id).tell (name (room.settle.addrs id) ++ ascii " left the ChatRoom!")
    else room.settle

/-- The room behind a trace of the server. -/
def watch (trace : List Action) : Room := (trace.foldl observe {}).settle

end Room
end NetPrograms.Kcp
