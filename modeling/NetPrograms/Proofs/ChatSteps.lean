import NetPrograms.Proofs.ChatNotify
import NetPrograms.Proofs.ServerDelivery

/-! What each part of a step does to the server, and the rule by which a property
outlasts a round of `Run`. -/

namespace NetPrograms.Proofs.ChatSteps
open Kcp ChatServer

/-- A datagram with nothing behind the header fits the buffer. -/
theorem header_fits_body : (List.replicate 24 (7 : UInt8)).length ≤ bodySize := by decide

section joined
variable (server : ChatServer) (conv : UInt32) (addr : SockAddr)

def made : KcpSession := { kcpOpt := { server.kcpOpt with conv }, addr }

def withMade : SessionId → KcpSession := Function.update server.objects server.next (made server conv addr)

theorem withMade_eq (id : SessionId) : withMade server conv addr id =
    if id = server.next then made server conv addr else server.objects id := by
  rw [withMade, Function.update_apply]

def entered : ChatServer :=
  { server with
    objects := withMade server conv addr
    next := server.next + 1
    users := server.users.insert server.next
    trace := server.trace ++ [.made server.next addr] }

def joinText : List UInt8 := userFrom (made server conv addr) ++ ascii " join the ChatRoom!"

theorem join_length_le (server : ChatServer) (conv : UInt32) (addr : SockAddr) :
    (joinText server conv addr).length ≤ SessionCalls.maxSize :=
  ChatNotify.text_length_le (made server conv addr) (by decide)

/-- The server after it has made a session for a conversation that it did not know. -/
def joined : ChatServer :=
  { (entered server conv addr).notify (joinText server conv addr) with
    sessions := server.sessions.insert conv server.next }

theorem newSession_eq : server.newSession conv addr =
    (server.next, (entered server conv addr).notify (joinText server conv addr)) := by
  have self : withMade server conv addr server.next = made server conv addr := Function.update_self ..
  rw [joinText, ← self]
  rfl

@[simp] theorem joined_sessions : (joined server conv addr).sessions = server.sessions.insert conv server.next := rfl

@[simp] theorem joined_users : (joined server conv addr).users = server.users.insert server.next := by
  simp [joined, entered]

@[simp] theorem joined_next : (joined server conv addr).next = server.next + 1 := by
  simp [joined, entered]

@[simp] theorem joined_kcpOpt : (joined server conv addr).kcpOpt = server.kcpOpt := by
  simp [joined, entered]

@[simp] theorem joined_tick : (joined server conv addr).tick = server.tick := by
  simp [joined, entered]

theorem joined_objects (id : SessionId) : (joined server conv addr).objects id =
    if id ∈ (server.users.insert server.next).members then
      ((withMade server conv addr id).send (joinText server conv addr)).2
    else withMade server conv addr id :=
  ChatNotify.notify_objects (entered server conv addr) (joinText server conv addr) id

theorem joined_trace : (joined server conv addr).trace = server.trace ++ .made server.next addr ::
    (server.users.insert server.next).members.map (.sent · (joinText server conv addr)) := by
  have told := ChatNotify.notify_trace (entered server conv addr) (joinText server conv addr)
  rwa [entered, List.append_assoc] at told

theorem joined_object (id : SessionId) :
    ∃ sndQueue, (joined server conv addr).objects id = { withMade server conv addr id with sndQueue } :=
  ChatNotify.notify_object (entered server conv addr) (joinText server conv addr) id

end joined

section getSession
variable {server : ChatServer} {conv : UInt32}

theorem getSession_new (fresh : server.sessions.lookup conv = none) (addr : SockAddr) :
    server.getSession conv addr = (server.next, joined server conv addr) := by
  have address : ((joined server conv addr).objects server.next).addr = addr := by
    obtain ⟨sndQueue, same⟩ := joined_object server conv addr server.next
    rw [same, withMade_eq, if_pos rfl]
    rfl
  unfold joined at address
  unfold getSession
  rw [fresh, newSession_eq]
  dsimp only at address ⊢
  rw [address, if_neg (by simp), ChatNotify.notify_sessions]
  rfl

theorem getSession_known {id : SessionId} (found : server.sessions.lookup conv = some id) (addr : SockAddr) :
    server.getSession conv addr =
      (id, if (server.objects id).addr = addr then server
        else (server.modify id (·.setAddr addr)).record (.moved id addr)) := by
  have equal : ∀ first second : SockAddr,
      (first.sinPort ≠ second.sinPort ∨ first.sinAddr ≠ second.sinAddr) ↔ first ≠ second := by
    intro first second
    rw [Ne, Ne, Ne, SockAddr.mk.injEq, not_and_or, or_comm]
  unfold getSession
  rw [found]
  dsimp only
  by_cases same : (server.objects id).addr = addr
  · rw [if_pos same, if_neg (by rw [equal]; exact not_not.mpr same)]
  · rw [if_neg same, if_pos (by rw [equal]; exact same)]

end getSession

/-- The parts of a round of `Run` keep the property of the server, the callbacks
that of the session that they are for too. -/
structure Opening (clock : Nat → Int) (Inv : ChatServer → Prop) (Known : SessionId → ChatServer → Prop) : Prop where
  buf : ∀ server buf, Inv server → Inv { server with buf }
  rcvQueue : ∀ (server : ChatServer) id rcvQueue, Inv server → Inv (server.modify id ({ · with rcvQueue }))
  getSession : ∀ (server : ChatServer) conv addr, Inv server →
    Inv (server.getSession conv addr).2 ∧ Known (server.getSession conv addr).1 (server.getSession conv addr).2
  callbacks : ∀ id, ServerDelivery.Rounds (callbacks clock id) fun server => Inv server ∧ Known id server

theorem receive_keeps {clock : Nat → Int} {Inv : ChatServer → Prop} {Known : SessionId → ChatServer → Prop}
    (opening : Opening clock Inv Known) {server after : ChatServer} {datagram : Option Datagram} {ret : Int}
    {arrived : List (List UInt8)} (received : server.receive clock datagram ret arrived = some after)
    (held : Inv server) : Inv after := by
  cases datagram with
  | none =>
    cases received
    exact held
  | some datagram =>
    have stored := opening.buf server (server.buf.put datagram.bytes datagram.fits) held
    simp only [receive] at received
    split at received
    next =>
      cases received
      exact stored
    next =>
      have opened := opening.getSession _ (getConv (server.buf.put datagram.bytes datagram.fits)) datagram.addr stored
      split at received
      next => cases received
      next buf rcvQueue last returned =>
        cases received
        have handled := ServerDelivery.handleSession_keeps (opening.callbacks _) returned opened
        exact opening.rcvQueue _ _ _ (opening.buf _ _ handled.1)

section update
variable (server : ChatServer) (clock : Nat → Int)

def seeds (session : KcpSession) (id : SessionId) (current : Int) : List Action :=
  if session.recvLatestTime = 0 then [.seeded id current] else []

theorem callUpdate_eq (id : SessionId) : server.callUpdate clock id =
    let current := clock server.tick
    let (offline, session) := (server.objects id).update current
    (offline, { server with
      objects := Function.update server.objects id session
      tick := server.tick + 1
      trace := server.trace ++ (seeds (server.objects id) id current ++ [.updated id current offline]) }) := by
  unfold seeds
  by_cases first : (server.objects id).recvLatestTime = 0
  · simp [callUpdate, iclock64, first, record, ChatServer.modify]
  · simp [callUpdate, iclock64, first, record, ChatServer.modify]

theorem callUpdate_sessions (id : SessionId) : (server.callUpdate clock id).2.sessions = server.sessions := by
  rw [callUpdate_eq]

theorem updateSession_lookup {conv other : UInt32} (different : other ≠ conv) (id : SessionId) :
    (updateSession clock server ⟨conv, id⟩).sessions.lookup other = server.sessions.lookup other := by
  simp only [updateSession]
  split
  · rw [callUpdate_sessions]
  · simp [handleClose, callUpdate_sessions, AList.lookup_erase_ne different]

/-- A property that every round for an entry of the map keeps outlasts `Update`. -/
theorem update_keeps {clock : Nat → Int} (Inv : ChatServer → Prop) {server : ChatServer}
    (round : ∀ (server : ChatServer) conv id, server.sessions.lookup conv = some id → Inv server →
      Inv (updateSession clock server ⟨conv, id⟩))
    {order : List ((_ : UInt32) × SessionId)} (all : order.Perm server.sessions.entries) (held : Inv server) :
    Inv (server.update clock order) := by
  have stored : ∀ entry ∈ order, server.sessions.lookup entry.1 = some entry.2 := by
    intro entry member
    exact AList.mem_lookup_iff.mpr (all.mem_iff.mp member)
  have distinct : order.NodupKeys := (List.perm_nodupKeys all).mpr server.sessions.nodupKeys
  clear all
  unfold ChatServer.update
  -- The entries that are left are still in the map, since a round takes out only its own.
  induction order generalizing server with
  | nil => exact held
  | cons entry order ih =>
    obtain ⟨conv, id⟩ := entry
    obtain ⟨fresh, distinct⟩ := List.nodupKeys_cons.mp distinct
    apply ih (round server conv id (stored ⟨conv, id⟩ (by simp)) held) _ distinct
    intro other member
    have different : other.1 ≠ conv := by
      intro same
      have key : other.1 ∈ order.keys := List.mem_map_of_mem member
      rw [same] at key
      exact fresh key
    rw [updateSession_lookup server clock different]
    exact stored other (List.mem_cons_of_mem _ member)

end update
end NetPrograms.Proofs.ChatSteps
