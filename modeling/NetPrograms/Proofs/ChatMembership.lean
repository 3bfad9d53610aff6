import NetPrograms.Kcp.Room
import NetPrograms.Lib.Multicast
import NetPrograms.Proofs.ChatSteps

/-! The room and the map of sessions agree whenever neither thread is at work, and
every member of the room gets the broadcasts in one order. -/

namespace NetPrograms.Proofs.ChatMembership
open Kcp ChatServer ChatSteps

section room
variable (room : Room)

@[simp] theorem settle_waiting : room.settle.waiting = none := by
  unfold Room.settle
  split
  next none => exact none
  next => rfl

theorem settle_of_none {room : Room} (none : room.waiting = none) : room.settle = room := by
  rw [Room.settle, none]

@[simp] theorem settle_settle : room.settle.settle = room.settle := settle_of_none (settle_waiting room)

/-- Only the mark of a command looks back at the message that waits. -/
theorem fold_settle {more : List Action} (other : ∀ id time, more.head? ≠ some (.refreshed id time)) :
    (more.foldl Room.observe room).settle = (more.foldl Room.observe room.settle).settle := by
  cases more with
  | nil => exact (settle_settle room).symm
  | cons action more =>
    have same : room.observe action = room.settle.observe action := by
      cases action with
      | refreshed id time => exact absurd rfl (other id time)
      | _ => simp only [Room.observe, settle_settle]
    rw [List.foldl_cons, List.foldl_cons, same]

theorem watch_append (trace : List Action) {more : List Action}
    (other : ∀ id time, more.head? ≠ some (.refreshed id time)) :
    Room.watch (trace ++ more) = (more.foldl Room.observe (Room.watch trace)).settle := by
  rw [Room.watch, List.foldl_append, fold_settle _ other, Room.watch]

@[simp] theorem watch_settle (trace : List Action) : (Room.watch trace).settle = Room.watch trace := settle_settle _

@[simp] theorem watch_waiting (trace : List Action) : (Room.watch trace).waiting = none := settle_waiting _

theorem waiting_settles {room : Room} (settled : room.waiting = none) (id : SessionId) (msg : List UInt8) :
    { room with waiting := some (id, msg) }.settle = room.tell (Room.name (room.addrs id) ++ ascii " : " ++ msg) := by
  obtain ⟨users, addrs, waiting, told, sent⟩ := room
  obtain rfl : waiting = none := settled
  rfl

theorem cleared {room : Room} (settled : room.waiting = none) : { room with waiting := none } = room := by
  rw [← settled]

/-- A text is told to the room and sent once to each user. -/
def spread (text : List UInt8) : Room :=
  { room.tell text with sent := room.sent ++ room.users.members.map (·, ⟨text, room.users⟩) }

theorem sends_observed (members : List SessionId) (text : List UInt8) {room : Room} (settled : room.waiting = none) :
    (members.map (.sent · text)).foldl Room.observe room =
      { room with sent := room.sent ++ members.map (·, ⟨text, room.users⟩) } := by
  induction members generalizing room with
  | nil => simp
  | cons user members ih =>
    have later := @ih { room with sent := room.sent ++ [(user, ⟨text, room.users⟩)] } settled
    rw [List.map_cons, List.foldl_cons, Room.observe, settle_of_none settled, later]
    simp

/-- The texts that follow on what the room is to be told. -/
theorem sends_spread {told : Room} (text : List UInt8) (settled : room.waiting = none) (tells : told.settle = room.tell text) :
    ((room.users.members.map (.sent · text)).foldl Room.observe told).settle = spread room text := by
  have others : ∀ id time, (room.users.members.map (Action.sent · text)).head? ≠ some (.refreshed id time) := by
    intro id time
    cases room.users.members <;> simp
  have clear : (room.tell text).waiting = none := settled
  rw [fold_settle _ others, tells, sends_observed _ _ clear, settle_of_none (by exact settled)]
  rfl

end room

def recipients (broadcast : Broadcast) : List SessionId := broadcast.users.members

def inbox (id : SessionId) (room : Room) : List Broadcast := Multicast.inbox id room.sent

/-- The observer sees the users and their addresses, every broadcast was sent once to each
user of its moment, before the next one, and what was sent to a session is in its queue. -/
structure Agrees (room : Room) (users : UserSet) (objects : SessionId → KcpSession) : Prop where
  users : room.users = users
  addrs : ∀ id, room.addrs id = (objects id).addr
  sent : room.sent = Multicast.deliveries recipients room.told
  queues : ∀ id, (objects id).sndQueue = (inbox id room).map Broadcast.text

section agrees
variable {room : Room} {users : UserSet} {objects after : SessionId → KcpSession}

theorem Agrees.frame (agrees : Agrees room users objects)
    (same : ∀ id, (after id).addr = (objects id).addr ∧ (after id).sndQueue = (objects id).sndQueue) :
    Agrees room users after :=
  ⟨agrees.users, fun id => (agrees.addrs id).trans (same id).1.symm, agrees.sent,
    fun id => (same id).2.trans (agrees.queues id)⟩

theorem spread_inbox (room : Room) (text : List UInt8) (id : SessionId) :
    inbox id (spread room text) = inbox id room ++ if id ∈ room.users.members then [⟨text, room.users⟩] else [] := by
  rw [inbox, spread, Multicast.inbox_append, Multicast.inbox_single room.users.distinct]
  rfl

theorem Agrees.spread (agrees : Agrees room users objects) {text : List UInt8} (short : text.length ≤ SessionCalls.maxSize) :
    Agrees (spread room text) users (ChatNotify.sendEach text objects users.members) := by
  have sent : ∀ id, ChatNotify.sendEach text objects users.members id =
      if id ∈ users.members then { objects id with sndQueue := (objects id).sndQueue ++ [text] } else objects id := by
    intro id
    split
    next member => rw [ChatNotify.sendEach_of_mem users.distinct member, SessionCalls.send_of_le _ short]
    next other => exact ChatNotify.sendEach_of_notMem other objects
  refine ⟨agrees.users, ?_, ?_, ?_⟩
  · intro id
    rw [sent]
    split <;> exact agrees.addrs id
  · simp only [ChatMembership.spread, Room.tell, Multicast.deliveries_append, agrees.sent]
    simp [Multicast.deliveries, recipients]
  · intro id
    rw [sent, spread_inbox, agrees.users, List.map_append, ← agrees.queues]
    split
    · rfl
    · simp

end agrees

/-- The room has the sessions of the map, each under its own number, and is as the
observer sees it. Numbers that are not given to a session yet get nothing. -/
structure Consistent (server : ChatServer) : Prop where
  members : ∀ id, id ∈ server.users.members ↔ ∃ conv, server.sessions.lookup conv = some id
  conv : ∀ conv id, server.sessions.lookup conv = some id → (server.objects id).kcpOpt.conv = conv
  known : ∀ conv id, server.sessions.lookup conv = some id → id < server.next
  serves : server.kcpOpt.isServer = true ∧ ∀ id, (server.objects id).kcpOpt.isServer = true
  room : Agrees (Room.watch server.trace) server.users server.objects
  unborn : ∀ id, server.next ≤ id → inbox id (Room.watch server.trace) = []

theorem lookup_insert_some {sessions : SessionMap} {conv other : UInt32} {id found : SessionId} :
    (sessions.insert conv id).lookup other = some found ↔
      (other = conv ∧ id = found) ∨ (other ≠ conv ∧ sessions.lookup other = some found) := by
  by_cases same : other = conv
  · subst same
    simp [AList.lookup_insert]
  · simp [AList.lookup_insert_ne same, same]

theorem lookup_erase_some {sessions : SessionMap} {conv other : UInt32} {found : SessionId} :
    (sessions.erase conv).lookup other = some found ↔ other ≠ conv ∧ sessions.lookup other = some found := by
  by_cases same : other = conv
  · subst same
    simp [AList.lookup_erase]
  · simp [AList.lookup_erase_ne same, same]

section steps
variable {server : ChatServer}

/-- Nothing happened that the room is about. -/
theorem Consistent.frame (consistent : Consistent server) {after : ChatServer} (sessions : after.sessions = server.sessions)
    (users : after.users = server.users) (next : after.next = server.next) (kcpOpt : after.kcpOpt = server.kcpOpt)
    (objects : ∀ id, (after.objects id).kcpOpt = (server.objects id).kcpOpt ∧
      (after.objects id).addr = (server.objects id).addr ∧ (after.objects id).sndQueue = (server.objects id).sndQueue)
    (watched : Room.watch after.trace = Room.watch server.trace) : Consistent after := by
  refine ⟨?_, ?_, ?_, ?_, ?_, ?_⟩
  · rw [users, sessions]
    exact consistent.members
  · intro conv id found
    rw [(objects id).1]
    exact consistent.conv conv id (sessions ▸ found)
  · rw [sessions, next]
    exact consistent.known
  · rw [kcpOpt]
    exact ⟨consistent.serves.1, fun id => (objects id).1 ▸ consistent.serves.2 id⟩
  · rw [watched, users]
    exact consistent.room.frame fun id => (objects id).2
  · rw [watched, next]
    exact consistent.unborn

theorem Consistent.modify (consistent : Consistent server) (id : SessionId) {change : KcpSession → KcpSession}
    (kept : (change (server.objects id)).kcpOpt = (server.objects id).kcpOpt ∧
      (change (server.objects id)).addr = (server.objects id).addr ∧
      (change (server.objects id)).sndQueue = (server.objects id).sndQueue) : Consistent (server.modify id change) := by
  refine consistent.frame rfl rfl rfl rfl ?_ rfl
  intro other
  by_cases same : other = id
  · subst same
    simpa [ChatServer.modify] using kept
  · simp [ChatServer.modify, same]

/-- A member has been given a number. -/
theorem Consistent.born (consistent : Consistent server) {id : SessionId} (member : id ∈ server.users.members) :
    id < server.next := by
  obtain ⟨conv, found⟩ := (consistent.members id).mp member
  exact consistent.known conv id found

theorem spread_unborn {room : Room} {text : List UInt8} {id : SessionId} (silent : inbox id room = [])
    (stranger : id ∉ room.users.members) : inbox id (spread room text) = [] := by
  rw [spread_inbox, silent, if_neg stranger, List.append_nil]

theorem userFrom_name (session : KcpSession) : userFrom session = Room.name session.addr := by
  simp [userFrom, Room.name, KcpSession.getAddrToString]

theorem sendEach_kcpOpt {text : List UInt8} {members : List SessionId} (distinct : members.Nodup)
    (objects : SessionId → KcpSession) (id : SessionId) :
    (ChatNotify.sendEach text objects members id).kcpOpt = (objects id).kcpOpt := by
  by_cases member : id ∈ members
  · rw [ChatNotify.sendEach_of_mem distinct member]
    rfl
  · rw [ChatNotify.sendEach_of_notMem member]

/-- The users are sent a text that the room is to be told. -/
theorem Consistent.told (consistent : Consistent server) {after : ChatServer} {text : List UInt8}
    (short : text.length ≤ SessionCalls.maxSize) (frame : after.sessions = server.sessions ∧ after.users = server.users ∧
      after.next = server.next ∧ after.kcpOpt = server.kcpOpt)
    (objects : after.objects = ChatNotify.sendEach text server.objects server.users.members)
    (watched : Room.watch after.trace = spread (Room.watch server.trace) text) : Consistent after := by
  obtain ⟨sessions, users, next, kcpOpt⟩ := frame
  have options : ∀ id, (after.objects id).kcpOpt = (server.objects id).kcpOpt := by
    intro id
    rw [objects, sendEach_kcpOpt server.users.distinct]
  refine ⟨?_, ?_, ?_, ?_, ?_, ?_⟩
  · rw [users, sessions]
    exact consistent.members
  · intro conv id found
    rw [options]
    exact consistent.conv conv id (sessions ▸ found)
  · rw [sessions, next]
    exact consistent.known
  · rw [kcpOpt]
    exact ⟨consistent.serves.1, fun id => (options id).symm ▸ consistent.serves.2 id⟩
  · rw [watched, users, objects]
    exact consistent.room.spread short
  · intro id unborn
    rw [next] at unborn
    rw [watched]
    apply spread_unborn (consistent.unborn id unborn)
    rw [consistent.room.users]
    exact fun member => Nat.not_lt.mpr unborn (consistent.born member)

/-- A message is passed on to the room. -/
theorem Consistent.message (consistent : Consistent server) (clock : Nat → Int) (id : SessionId) {msg : List UInt8}
    (some : msg ≠ []) (fits : msg.length ≤ bodySize) :
    Consistent ((callbacks clock id).handleMessage ((callbacks clock id).received server msg) msg) := by
  let text := userFrom (server.objects id) ++ ascii " : " ++ msg
  have short : text.length ≤ SessionCalls.maxSize := ChatNotify.said_length_le (server.objects id) fits
  have handled : (callbacks clock id).handleMessage ((callbacks clock id).received server msg) msg =
      ((callbacks clock id).received server msg).notify text := rfl
  rw [handled, ChatNotify.notify_eq]
  refine consistent.told short ⟨rfl, rfl, rfl, rfl⟩ rfl ?_
  show Room.watch (server.trace ++ [.received id msg (clock server.tick)] ++ server.users.members.map (.sent · text)) = _
  rw [List.append_assoc, watch_append _ (by simp), ← consistent.room.users]
  refine sends_spread _ text (watch_waiting _) ?_
  rw [Room.observe, watch_settle, if_neg some, waiting_settles (watch_waiting _), consistent.room.addrs, ← userFrom_name]

theorem watch_joined (server : ChatServer) (conv : UInt32) (addr : SockAddr)
    (users : (Room.watch server.trace).users = server.users) : Room.watch (joined server conv addr).trace =
      spread ((Room.watch server.trace).enter server.next addr) (joinText server conv addr) := by
  have text : joinText server conv addr = Room.name addr ++ ascii " join the ChatRoom!" := by
    rw [joinText, userFrom_name]
    rfl
  rw [joined_trace, watch_append _ (by simp), List.foldl_cons, ← users]
  refine @sends_spread ((Room.watch server.trace).enter server.next addr) _ _ (watch_waiting _) ?_
  rw [Room.observe, watch_settle, text]
  exact settle_of_none (watch_waiting _)

theorem joined_consistent (consistent : Consistent server) {conv : UInt32} (fresh : server.sessions.lookup conv = none)
    (addr : SockAddr) : Consistent (joined server conv addr) := by
  have short := join_length_le server conv addr
  have objects : (joined server conv addr).objects = ChatNotify.sendEach (joinText server conv addr)
      (withMade server conv addr) (server.users.insert server.next).members := by
    rw [joined, ChatNotify.notify_eq]
    rfl
  -- The new session has its address and an empty queue.
  have entered : Agrees ((Room.watch server.trace).enter server.next addr) (server.users.insert server.next)
      (withMade server conv addr) := by
    refine ⟨congrArg (·.insert server.next) consistent.room.users, ?_, consistent.room.sent, ?_⟩
    · intro id
      rw [withMade_eq]
      simp only [Room.enter, Room.move, Function.update_apply]
      split
      · rfl
      · exact consistent.room.addrs id
    · intro id
      rw [withMade_eq]
      split
      next own =>
        subst own
        exact (congrArg (List.map Broadcast.text) (consistent.unborn _ (Nat.le_refl _))).symm
      next => exact consistent.room.queues id
  refine ⟨?_, ?_, ?_, ?_, ?_, ?_⟩
  · intro id
    rw [joined_users, joined_sessions, UserSet.insert, List.mem_insert_iff, consistent.members]
    simp only [lookup_insert_some]
    constructor
    · rintro (new | ⟨other, found⟩)
      · exact ⟨conv, .inl ⟨rfl, new.symm⟩⟩
      · refine ⟨other, .inr ⟨?_, found⟩⟩
        intro same
        rw [same, fresh] at found
        cases found
    · rintro ⟨other, ⟨-, new⟩ | ⟨-, found⟩⟩
      · exact .inl new.symm
      · exact .inr ⟨other, found⟩
  · intro other id found
    rw [joined_sessions, lookup_insert_some] at found
    obtain ⟨sndQueue, kept⟩ := joined_object server conv addr id
    rw [kept]
    rcases found with ⟨rfl, rfl⟩ | ⟨-, found⟩
    · simp [withMade, made]
    · have old : id ≠ server.next := Nat.ne_of_lt (consistent.known other id found)
      simp [withMade, old, consistent.conv other id found]
  · intro other id found
    rw [joined_next]
    rw [joined_sessions, lookup_insert_some] at found
    rcases found with ⟨-, rfl⟩ | ⟨-, found⟩
    · exact Nat.lt_succ_self _
    · exact Nat.lt_succ_of_lt (consistent.known other id found)
  · refine ⟨by rw [joined_kcpOpt]; exact consistent.serves.1, ?_⟩
    intro id
    obtain ⟨sndQueue, kept⟩ := joined_object server conv addr id
    rw [kept, withMade_eq]
    split
    · exact consistent.serves.1
    · exact consistent.serves.2 id
  · rw [watch_joined server conv addr consistent.room.users, joined_users, objects]
    exact entered.spread short
  · intro id unborn
    rw [joined_next] at unborn
    rw [watch_joined server conv addr consistent.room.users]
    apply spread_unborn
    · exact consistent.unborn id (Nat.le_of_succ_le unborn)
    · rw [Room.enter, consistent.room.users, UserSet.insert, List.mem_insert_iff]
      rintro (rfl | member)
      · exact Nat.not_succ_le_self _ unborn
      · exact Nat.not_lt.mpr (Nat.le_of_succ_le unborn) (consistent.born member)

theorem Consistent.moved (consistent : Consistent server) (id : SessionId) (addr : SockAddr) :
    Consistent ((server.modify id (·.setAddr addr)).record (.moved id addr)) := by
  have watched : Room.watch (server.trace ++ [.moved id addr]) = (Room.watch server.trace).move id addr := by
    rw [watch_append _ (by simp)]
    simp only [List.foldl_cons, List.foldl_nil, Room.observe, watch_settle]
    exact settle_of_none (watch_waiting _)
  have object : ∀ other, ((server.modify id (·.setAddr addr)).objects other).kcpOpt = (server.objects other).kcpOpt ∧
      ((server.modify id (·.setAddr addr)).objects other).sndQueue = (server.objects other).sndQueue := by
    intro other
    by_cases same : other = id
    · subst same
      simp [ChatServer.modify, KcpSession.setAddr]
    · simp [ChatServer.modify, same]
  refine ⟨consistent.members, ?_, consistent.known, ?_, ?_, ?_⟩
  · intro conv other found
    exact (congrArg (·.conv) (object other).1).trans (consistent.conv conv other found)
  · exact ⟨consistent.serves.1, fun other => (congrArg (·.isServer) (object other).1).trans (consistent.serves.2 other)⟩
  · show Agrees (Room.watch (server.trace ++ [.moved id addr])) _ _
    rw [watched]
    refine ⟨consistent.room.users, ?_, consistent.room.sent, fun other => (object other).2.trans (consistent.room.queues other)⟩
    intro other
    simp only [Room.move, record, ChatServer.modify, Function.update_apply]
    split
    · rfl
    · exact consistent.room.addrs other
  · show ∀ other, _ ≤ other → inbox other (Room.watch (server.trace ++ [.moved id addr])) = []
    rw [watched]
    exact consistent.unborn

theorem getSession_consistent (consistent : Consistent server) (conv : UInt32) (addr : SockAddr) :
    Consistent (server.getSession conv addr).2 := by
  cases found : server.sessions.lookup conv with
  | none =>
    rw [getSession_new found]
    exact joined_consistent consistent found addr
  | some id =>
    rw [getSession_known found]
    dsimp only
    split
    · exact consistent
    · exact consistent.moved id addr

theorem callbacks_consistent (clock : Nat → Int) (id : SessionId) :
    ServerDelivery.Rounds (callbacks clock id) Consistent := by
  refine ⟨?_, ?_, fun server msg some fits consistent => consistent.message clock id some fits⟩
  · intro server consistent
    refine consistent.frame rfl rfl rfl rfl (fun _ => ⟨rfl, rfl, rfl⟩) ?_
    show Room.watch (server.trace ++ [.received id [] (clock server.tick)]) = _
    rw [watch_append _ (by simp)]
    simp only [List.foldl_cons, List.foldl_nil, Room.observe, watch_settle, if_true]
    refine (settle_of_none ?_).trans (cleared (watch_waiting _))
    rfl
  · intro server msg some consistent
    let heard := server.trace ++ [.received id msg (clock server.tick)]
    have stamped : (callbacks clock id).setKeepAlive ((callbacks clock id).received server msg) =
        { server.modify id (·.setKeepAlive (clock (server.tick + 1))) with
          tick := server.tick + 2
          trace := heard ++ [.refreshed id (clock (server.tick + 1))] } := rfl
    rw [stamped]
    have same : Consistent (server.modify id (·.setKeepAlive (clock (server.tick + 1)))) :=
      consistent.modify id ⟨rfl, rfl, rfl⟩
    refine same.frame rfl rfl rfl rfl (fun _ => ⟨rfl, rfl, rfl⟩) ?_
    show Room.watch (heard ++ [_]) = Room.watch server.trace
    rw [List.append_assoc, watch_append _ (by simp)]
    simp only [List.singleton_append, List.foldl_cons, List.foldl_nil, Room.observe, watch_settle]
    refine (settle_of_none ?_).trans (cleared (watch_waiting _))
    rfl

theorem opening_consistent (clock : Nat → Int) : Opening clock Consistent fun _ _ => True where
  buf _ _ consistent := consistent.frame rfl rfl rfl rfl (fun _ => ⟨rfl, rfl, rfl⟩) rfl
  rcvQueue _ id _ consistent := consistent.modify id ⟨rfl, rfl, rfl⟩
  getSession _ conv addr consistent := ⟨getSession_consistent consistent conv addr, trivial⟩
  callbacks id := by simpa using callbacks_consistent clock id

theorem watch_updated (server : ChatServer) (session : KcpSession) (id : SessionId) (time : Int) (offline : Bool)
    (more : List Action) : Room.watch (server.trace ++ (seeds session id time ++ .updated id time offline :: more)) =
      (more.foldl Room.observe ((Room.watch server.trace).observe (.updated id time offline))).settle := by
  have others : ∀ other stamp, (seeds session id time ++ .updated id time offline :: more).head? ≠ some (.refreshed other stamp) := by
    intro other stamp
    unfold seeds
    split <;> simp
  have seeded : (seeds session id time).foldl Room.observe (Room.watch server.trace) = Room.watch server.trace := by
    unfold seeds
    split
    · exact watch_settle _
    · rfl
  rw [watch_append _ others, List.foldl_append, seeded, List.foldl_cons]

/-- A session is erased, and the users that stay are sent a text. -/
theorem Consistent.left (consistent : Consistent server) {conv : UInt32} {id : SessionId}
    (found : server.sessions.lookup conv = some id) {after : ChatServer} {text : List UInt8}
    (short : text.length ≤ SessionCalls.maxSize) (frame : after.sessions = server.sessions.erase conv ∧
      after.users = server.users.erase id ∧ after.next = server.next ∧ after.kcpOpt = server.kcpOpt)
    (objects : after.objects = ChatNotify.sendEach text server.objects (server.users.erase id).members)
    (watched : Room.watch after.trace = spread ((Room.watch server.trace).leave id) text) : Consistent after := by
  obtain ⟨sessions, users, next, kcpOpt⟩ := frame
  have options : ∀ other, (after.objects other).kcpOpt = (server.objects other).kcpOpt := by
    intro other
    rw [objects, sendEach_kcpOpt (server.users.erase id).distinct]
  have stays : ∀ other, other ∈ (server.users.erase id).members ↔ other ≠ id ∧ other ∈ server.users.members :=
    fun other => server.users.distinct.mem_erase_iff
  refine ⟨?_, ?_, ?_, ?_, ?_, ?_⟩
  · intro other
    rw [users, sessions, stays, consistent.members]
    simp only [lookup_erase_some]
    constructor
    · rintro ⟨different, otherConv, member⟩
      refine ⟨otherConv, ?_, member⟩
      intro same
      rw [same, found] at member
      exact different (Option.some.inj member).symm
    · rintro ⟨otherConv, different, member⟩
      refine ⟨?_, otherConv, member⟩
      -- Two entries of one session would have its one number.
      intro same
      rw [same] at member
      exact different ((consistent.conv otherConv id member).symm.trans (consistent.conv conv id found))
  · intro otherConv other member
    rw [sessions] at member
    rw [options]
    exact consistent.conv otherConv other (lookup_erase_some.mp member).2
  · intro otherConv other member
    rw [sessions] at member
    rw [next]
    exact consistent.known otherConv other (lookup_erase_some.mp member).2
  · rw [kcpOpt]
    exact ⟨consistent.serves.1, fun other => (options other).symm ▸ consistent.serves.2 other⟩
  · rw [watched, users, objects]
    have outside : Agrees ((Room.watch server.trace).leave id) (server.users.erase id) server.objects :=
      ⟨congrArg (·.erase id) consistent.room.users, consistent.room.addrs, consistent.room.sent, consistent.room.queues⟩
    exact outside.spread short
  · intro other unborn
    rw [next] at unborn
    rw [watched]
    apply spread_unborn
    · exact consistent.unborn other unborn
    · rw [Room.leave, consistent.room.users, stays]
      exact fun member => Nat.not_lt.mpr unborn (consistent.born member.2)

theorem updateSession_consistent (consistent : Consistent server) (clock : Nat → Int) {conv : UInt32} {id : SessionId}
    (found : server.sessions.lookup conv = some id) : Consistent (updateSession clock server ⟨conv, id⟩) := by
  let current := clock server.tick
  have updated := SessionCalls.update_server current (consistent.serves.2 id)
  generalize offline : decide ((server.objects id).kcpOpt.keepAliveTimeout <
    current - ((server.objects id).seed current).recvLatestTime) = late at updated
  let session := (server.objects id).seed current
  have seeded : Consistent (server.modify id fun _ => session) :=
    consistent.modify id ⟨SessionCalls.seed_kcpOpt _ _, SessionCalls.seed_addr _ _, SessionCalls.seed_sndQueue _ _⟩
  have called : server.callUpdate clock id = (late, { server.modify id fun _ => session with
      tick := server.tick + 1
      trace := server.trace ++ (seeds (server.objects id) id current ++ [.updated id current late]) }) := by
    rw [callUpdate_eq]
    dsimp only
    rw [updated]
    rfl
  unfold updateSession
  rw [called]
  cases late with
  | false =>
    refine seeded.frame rfl rfl rfl rfl (fun _ => ⟨rfl, rfl, rfl⟩) ?_
    refine (watch_updated server _ id current false []).trans ?_
    exact (congrArg Room.settle (watch_settle server.trace)).trans (watch_settle server.trace)
  | true =>
    let text := userFrom session ++ ascii " left the ChatRoom!"
    have short : text.length ≤ SessionCalls.maxSize := ChatNotify.text_length_le session (by decide)
    let closing : ChatServer := { server.modify id fun _ => session with
      tick := server.tick + 1
      trace := server.trace ++ (seeds (server.objects id) id current ++ [.updated id current true])
      users := server.users.erase id }
    have own : closing.objects id = session := Function.update_self ..
    show Consistent { closing.notify (userFrom (closing.objects id) ++ ascii " left the ChatRoom!") with
      sessions := (closing.notify _).sessions.erase conv }
    rw [own, ChatNotify.notify_eq]
    refine seeded.left found short ⟨rfl, rfl, rfl, rfl⟩ rfl ?_
    show Room.watch (server.trace ++ (seeds (server.objects id) id current ++ [.updated id current true]) ++
      (server.users.erase id).members.map (.sent · text)) = _
    have named : userFrom session = Room.name ((Room.watch server.trace).addrs id) := by
      rw [userFrom_name, consistent.room.addrs]
      exact congrArg Room.name (SessionCalls.seed_addr _ _)
    rw [List.append_assoc, List.append_assoc, List.singleton_append, watch_updated, ← consistent.room.users]
    refine @sends_spread ((Room.watch server.trace).leave id) _ text (watch_waiting _) ?_
    rw [Room.observe, watch_settle, if_pos rfl, ← named]
    exact settle_of_none (watch_waiting _)

end steps

theorem start_consistent (kcpOpt : KcpOpt) : Consistent (start kcpOpt) := by
  refine ⟨?_, ?_, ?_, ⟨rfl, fun _ => rfl⟩, ⟨rfl, fun _ => rfl, rfl, fun _ => rfl⟩, fun _ _ => rfl⟩
  · intro id
    simp [start]
  · intro conv id found
    cases found
  · intro conv id found
    cases found

theorem run_consistent {clock : Nat → Int} {kcpOpt : KcpOpt} {events : List Event} {server : ChatServer}
    (run : Run (Step clock) (start kcpOpt) events server) : Consistent server := by
  apply run.invariant Consistent (start_consistent kcpOpt)
  intro before event after consistent step
  cases step with
  | receive received => exact receive_keeps (opening_consistent clock) received consistent
  | update all =>
    apply update_keeps Consistent _ all consistent
    intro server conv id found consistent
    exact updateSession_consistent consistent clock found

/-- In every reachable state the room and the map have the same sessions, which are the
users that an observer of the sessions counts. Every broadcast that the room is to be told
was sent once to each user of its moment, what was sent is what KCP queued for the session,
and any two users were sent the broadcasts for both of them in one order. -/
theorem room_is_consistent {clock : Nat → Int} {kcpOpt : KcpOpt} {events : List Event} {server : ChatServer}
    (run : Run (Step clock) (start kcpOpt) events server) :
    (∀ id, id ∈ server.users.members ↔ ∃ conv, server.sessions.lookup conv = some id) ∧
    (∀ conv id, server.sessions.lookup conv = some id → (server.objects id).kcpOpt.conv = conv) ∧
    (Room.watch server.trace).users = server.users ∧
    (Room.watch server.trace).sent = (Room.watch server.trace).told.flatMap (fun broadcast =>
      broadcast.users.members.map fun id => (id, broadcast)) ∧
    (∀ id, (server.objects id).sndQueue = (inbox id (Room.watch server.trace)).map Broadcast.text) ∧
    ∀ first second,
      (inbox first (Room.watch server.trace)).filter (second ∈ ·.users.members) =
        (inbox second (Room.watch server.trace)).filter (first ∈ ·.users.members) := by
  have consistent := run_consistent run
  refine ⟨consistent.members, consistent.conv, consistent.room.users, consistent.room.sent, consistent.room.queues, ?_⟩
  intro first second
  have agree := Multicast.inboxes_agree recipients (fun broadcast => broadcast.users.distinct) first second
    (Room.watch server.trace).told
  rw [← consistent.room.sent] at agree
  exact agree

private def clocked (n : Nat) : Int := if n ≤ 4 then n else 5000 + n

private def caller (conv : UInt8) (port : UInt16) : Datagram where
  bytes := List.replicate 24 conv
  fits := by rw [List.length_replicate, bodySize]; omega
  addr := ⟨(127, 0, 0, 1), port⟩

/-- Two clients say hello, the second one stays alive, and the first one times out. -/
private def party : Option ChatServer :=
  ((start {}).receive clocked (some (caller 7 17)) 0 [ascii "hello"]).bind fun server =>
    (server.receive clocked (some (caller 8 18)) 0 [ascii "hi"]).bind fun server =>
      ((server.update clocked server.sessions.entries).receive clocked (some (caller 8 18)) 0 [kcpKeepAliveCmd]).map
        fun server => server.update clocked server.sessions.entries

private theorem party_runs {server : ChatServer} (last : party = some server) :
    ∃ events, Run (Step clocked) (start {}) events server := by
  obtain ⟨first, received, rest⟩ := Option.bind_eq_some_iff.mp last
  obtain ⟨second, again, rest⟩ := Option.bind_eq_some_iff.mp rest
  obtain ⟨third, alive, rfl⟩ := Option.map_eq_some_iff.mp rest
  have run := Run.next (Run.single (Step.receive received)) (Step.receive again)
  exact ⟨_, Run.next (Run.next (Run.next run (Step.update (List.Perm.refl _))) (Step.receive alive))
    (Step.update (List.Perm.refl _))⟩

theorem room_is_consistent_party : ∃ server, party = some server ∧ server.users.members = [1] ∧
    (server.objects 0).sndQueue = [ascii "user from [127.0.0.1:17] join the ChatRoom!",
      ascii "user from [127.0.0.1:17] : hello", ascii "user from [127.0.0.1:18] join the ChatRoom!",
      ascii "user from [127.0.0.1:18] : hi"] ∧
    (server.objects 1).sndQueue = [ascii "user from [127.0.0.1:18] join the ChatRoom!",
      ascii "user from [127.0.0.1:18] : hi", ascii "user from [127.0.0.1:17] left the ChatRoom!"] := by
  have watched : party.map (fun server => ((Room.watch server.trace).users.members,
      (inbox 0 (Room.watch server.trace)).map Broadcast.text, (inbox 1 (Room.watch server.trace)).map Broadcast.text)) =
      some ([1], [ascii "user from [127.0.0.1:17] join the ChatRoom!",
        ascii "user from [127.0.0.1:17] : hello", ascii "user from [127.0.0.1:18] join the ChatRoom!",
        ascii "user from [127.0.0.1:18] : hi"], [ascii "user from [127.0.0.1:18] join the ChatRoom!",
        ascii "user from [127.0.0.1:18] : hi", ascii "user from [127.0.0.1:17] left the ChatRoom!"]) := by
    rfl
  obtain ⟨server, last, seen⟩ := Option.map_eq_some_iff.mp watched
  simp only [Prod.mk.injEq] at seen
  obtain ⟨events, run⟩ := party_runs last
  obtain ⟨-, -, users, -, queues, -⟩ := room_is_consistent run
  refine ⟨server, last, ?_, ?_, ?_⟩
  · rw [← users]
    exact seen.1
  · rw [queues]
    exact seen.2.1
  · rw [queues]
    exact seen.2.2

end NetPrograms.Proofs.ChatMembership
