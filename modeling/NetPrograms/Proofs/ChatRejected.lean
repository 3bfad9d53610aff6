import NetPrograms.Proofs.ChatSteps

/-! A datagram that KCP rejects. The session of its conversation is found or made
first, as KCP needs one to judge the datagram, and takes its address. -/

namespace NetPrograms.Proofs.ChatRejected
open Kcp ChatServer ChatSteps

/-- Nothing changed in the map, in the room, in the addresses of the sessions or in
what is queued for the users. -/
structure Unchanged (before after : ChatServer) : Prop where
  sessions : after.sessions = before.sessions
  users : after.users = before.users
  addrs : ∀ conv id, before.sessions.lookup conv = some id → (after.objects id).addr = (before.objects id).addr
  queues : ∀ id ∈ before.users.members, (after.objects id).sndQueue = (before.objects id).sndQueue

/-- The session of the conversation has taken the address of the datagram. -/
structure Rebound (before after : ChatServer) (id : SessionId) (addr : SockAddr) : Prop where
  sessions : after.sessions = before.sessions
  users : after.users = before.users
  addrs : ∀ other, (after.objects other).addr = if other = id then addr else (before.objects other).addr
  queues : ∀ other, (after.objects other).sndQueue = (before.objects other).sndQueue

/-- A session was made for the conversation and every user was told once. -/
structure Joined (before after : ChatServer) (conv : UInt32) (addr : SockAddr) : Prop where
  sessions : after.sessions = before.sessions.insert conv before.next
  users : after.users = before.users.insert before.next
  addrs : ∀ other, (after.objects other).addr = if other = before.next then addr else (before.objects other).addr
  queues : ∀ other, (after.objects other).sndQueue =
    (if other = before.next then [] else (before.objects other).sndQueue) ++
      if other ∈ after.users.members then [userFrom (made before conv addr) ++ ascii " join the ChatRoom!"] else []

private def stored (server : ChatServer) (datagram : Datagram) : ChatServer :=
  { server with buf := server.buf.put datagram.bytes datagram.fits }

def convOf (server : ChatServer) (datagram : Datagram) : UInt32 :=
  getConv (server.buf.put datagram.bytes datagram.fits)

private def opened (server : ChatServer) (id : SessionId) (arrived : List (List UInt8)) : ChatServer :=
  server.modify id fun session => { session with rcvQueue := session.rcvQueue ++ arrived }

private theorem opened_object (server : ChatServer) (id other : SessionId) (arrived : List (List UInt8)) :
    ∃ rcvQueue, (opened server id arrived).objects other = { server.objects other with rcvQueue } := by
  by_cases same : other = id
  · subst same
    exact ⟨(server.objects other).rcvQueue ++ arrived, by simp [opened, ChatServer.modify]⟩
  · exact ⟨(server.objects other).rcvQueue, by simp [opened, ChatServer.modify, same]⟩

private theorem opened_addr (server : ChatServer) (id other : SessionId) (arrived : List (List UInt8)) :
    ((opened server id arrived).objects other).addr = (server.objects other).addr := by
  obtain ⟨rcvQueue, same⟩ := opened_object server id other arrived
  rw [same]

private theorem opened_sndQueue (server : ChatServer) (id other : SessionId) (arrived : List (List UInt8)) :
    ((opened server id arrived).objects other).sndQueue = (server.objects other).sndQueue := by
  obtain ⟨rcvQueue, same⟩ := opened_object server id other arrived
  rw [same]

section receive
variable (clock : Nat → Int) (server : ChatServer) {datagram : Datagram} {ret : Int} (arrived : List (List UInt8))

private theorem receive_rejected (failed : ret ≠ 0) (long : 24 ≤ datagram.bytes.length) :
    server.receive clock (some datagram) ret arrived =
      let (id, found) := (stored server datagram).getSession (convOf server datagram) datagram.addr
      some (opened found id arrived) := by
  have checked : check datagram.bytes.length := by
    simp [check]
    omega
  simp [receive, checked, handleSession, failed]
  rfl

theorem receive_known (failed : ret ≠ 0) (long : 24 ≤ datagram.bytes.length) {id : SessionId}
    (found : server.sessions.lookup (convOf server datagram) = some id) :
    ∃ after, server.receive clock (some datagram) ret arrived = some after ∧ Rebound server after id datagram.addr := by
  have known : (stored server datagram).sessions.lookup (convOf server datagram) = some id := found
  rw [receive_rejected clock server arrived failed long, getSession_known known]
  refine ⟨_, rfl, ?_⟩
  split
  next same =>
    refine ⟨rfl, rfl, ?_, fun other => opened_sndQueue _ id other arrived⟩
    intro other
    refine (opened_addr _ id other arrived).trans ?_
    split
    next own =>
      rw [own]
      exact same
    next => rfl
  next =>
    refine ⟨rfl, rfl, ?_, ?_⟩
    · intro other
      refine (opened_addr _ id other arrived).trans ?_
      split
      next own => simp [record, ChatServer.modify, own, KcpSession.setAddr]
      next own => simp [record, ChatServer.modify, own, stored]
    · intro other
      refine (opened_sndQueue _ id other arrived).trans ?_
      by_cases own : other = id
      · subst own
        simp [record, ChatServer.modify, KcpSession.setAddr, stored]
      · simp [record, ChatServer.modify, own, stored]

theorem receive_unknown (failed : ret ≠ 0) (long : 24 ≤ datagram.bytes.length)
    (fresh : server.sessions.lookup (convOf server datagram) = none) :
    ∃ after, server.receive clock (some datagram) ret arrived = some after ∧
      Joined server after (convOf server datagram) datagram.addr := by
  have unknown : (stored server datagram).sessions.lookup (convOf server datagram) = none := fresh
  have base : ∀ other, withMade (stored server datagram) (convOf server datagram) datagram.addr other =
      if other = server.next then made server (convOf server datagram) datagram.addr else server.objects other :=
    fun other => withMade_eq (stored server datagram) _ _ other
  rw [receive_rejected clock server arrived failed long, getSession_new unknown]
  refine ⟨_, rfl, rfl, joined_users (stored server datagram) _ _, ?_, ?_⟩
  · intro other
    refine (opened_addr _ server.next other arrived).trans ?_
    obtain ⟨sndQueue, same⟩ := joined_object (stored server datagram) (convOf server datagram) datagram.addr other
    rw [same, base]
    split
    next => rfl
    next => rfl
  · intro other
    refine (opened_sndQueue _ server.next other arrived).trans ?_
    have queue : (withMade (stored server datagram) (convOf server datagram) datagram.addr other).sndQueue =
        if other = server.next then [] else (server.objects other).sndQueue := by
      rw [base]
      split
      next => rfl
      next => rfl
    rw [joined_objects, ← queue]
    have room : (opened (joined (stored server datagram) (convOf server datagram) datagram.addr)
        (stored server datagram).next arrived).users =
        (stored server datagram).users.insert (stored server datagram).next := joined_users _ _ _
    rw [room]
    split
    next =>
      rw [SessionCalls.send_of_le _ (join_length_le _ _ _)]
      rfl
    next => rw [List.append_nil]

/-- A rejected datagram rebinds a known conversation and opens an unknown one; it
changes nothing exactly when the conversation is known at its address. -/
theorem rejected_datagram (failed : ret ≠ 0) (long : 24 ≤ datagram.bytes.length) :
    ∃ after, server.receive clock (some datagram) ret arrived = some after ∧
      (match server.sessions.lookup (convOf server datagram) with
        | some id => Rebound server after id datagram.addr
        | none => Joined server after (convOf server datagram) datagram.addr) ∧
      (Unchanged server after ↔ ∃ id, server.sessions.lookup (convOf server datagram) = some id ∧
        (server.objects id).addr = datagram.addr) := by
  cases found : server.sessions.lookup (convOf server datagram) with
  | some id =>
    obtain ⟨after, received, rebound⟩ := receive_known clock server arrived failed long found
    refine ⟨after, received, rebound, ?_⟩
    constructor
    · intro unchanged
      have kept := unchanged.addrs _ id found
      rw [rebound.addrs, if_pos rfl] at kept
      exact ⟨id, rfl, kept.symm⟩
    · rintro ⟨_, same, addr⟩
      cases same
      refine ⟨rebound.sessions, rebound.users, ?_, fun other _ => rebound.queues other⟩
      intro conv other _
      rw [rebound.addrs]
      split
      next own => rw [own, addr]
      next => rfl
  | none =>
    obtain ⟨after, received, joined⟩ := receive_unknown clock server arrived failed long found
    refine ⟨after, received, joined, ?_⟩
    constructor
    · intro unchanged
      have now := joined.sessions
      rw [unchanged.sessions] at now
      rw [now, AList.lookup_insert] at found
      cases found
    · rintro ⟨_, known, _⟩
      cases known

end receive

private def unreadable : Datagram := ⟨List.replicate 24 7, header_fits_body, ⟨(127, 0, 0, 1), 5000⟩⟩

theorem rejected_datagram_joins :
    ∃ after, (start {}).receive (fun n => n) (some unreadable) (-1) [] = some after ∧
      Joined (start {}) after (convOf (start {}) unreadable) unreadable.addr := by
  have changes := @rejected_datagram (fun n => n) (start {}) unreadable (-1) [] (by decide) (by decide)
  obtain ⟨after, received, joined, -⟩ := changes
  exact ⟨after, received, joined⟩

/-- A stranger's malformed datagram makes a session and a user. -/
theorem rejected_datagram_adds_user :
    ∃ after, (start {}).receive (fun n => n) (some unreadable) (-1) [] = some after ∧ ¬ Unchanged (start {}) after := by
  obtain ⟨after, received, joined⟩ := receive_unknown (fun n => n) (start {}) [] (by decide : (-1 : Int) ≠ 0)
    (by decide : 24 ≤ unreadable.bytes.length) rfl
  refine ⟨after, received, ?_⟩
  intro unchanged
  have users := congrArg UserSet.members (unchanged.users.symm.trans joined.users)
  exact absurd users (by decide)

end NetPrograms.Proofs.ChatRejected
