import NetPrograms.Kcp.Chat
import NetPrograms.Proofs.SessionCalls

/-! The effect of `Notify`: every user's queue gets the text, and nothing else of
the server changes. -/

namespace NetPrograms.Proofs.ChatNotify
open Kcp ChatServer

def sendEach (text : List UInt8) (objects : SessionId → KcpSession) (members : List SessionId) :
    SessionId → KcpSession :=
  members.foldl (fun objects user => Function.update objects user ((objects user).send text).2) objects

theorem notify_eq (server : ChatServer) (text : List UInt8) :
    server.notify text =
      { server with
        objects := sendEach text server.objects server.users.members
        trace := server.trace ++ server.users.members.map (.sent · text) } := by
  have sends : ∀ (members : List SessionId) (server : ChatServer),
      members.foldl (fun server user => server.send user text) server =
        { server with
          objects := sendEach text server.objects members
          trace := server.trace ++ members.map (.sent · text) } := by
    intro members
    induction members with
    | nil =>
      intro server
      simp [sendEach]
    | cons user members ih =>
      intro server
      rw [List.foldl_cons, ih]
      simp [ChatServer.send, ChatServer.modify, record, sendEach]
  rw [notify, sends]

theorem sendEach_of_notMem {text : List UInt8} {members : List SessionId} {id : SessionId} (other : id ∉ members)
    (objects : SessionId → KcpSession) : sendEach text objects members id = objects id := by
  induction members generalizing objects with
  | nil => rfl
  | cons user members ih =>
    have different : id ≠ user := List.ne_of_not_mem_cons other
    have later := ih (List.not_mem_of_not_mem_cons other) (Function.update objects user ((objects user).send text).2)
    rw [Function.update_of_ne different] at later
    exact later

theorem sendEach_of_mem {text : List UInt8} {members : List SessionId} {id : SessionId} (distinct : members.Nodup)
    (member : id ∈ members) (objects : SessionId → KcpSession) :
    sendEach text objects members id = ((objects id).send text).2 := by
  induction members generalizing objects with
  | nil => cases member
  | cons user members ih =>
    obtain ⟨fresh, distinct⟩ := List.nodup_cons.mp distinct
    cases member with
    | head =>
      have sent := @sendEach_of_notMem text members id fresh (Function.update objects id ((objects id).send text).2)
      rw [Function.update_self] at sent
      exact sent
    | tail _ member =>
      have different : id ≠ user := fun same => fresh (same ▸ member)
      have later := ih distinct member (Function.update objects user ((objects user).send text).2)
      rw [Function.update_of_ne different] at later
      exact later

section frame
variable (server : ChatServer) (text : List UInt8)

@[simp] theorem notify_sessions : (server.notify text).sessions = server.sessions := by rw [notify_eq]

@[simp] theorem notify_users : (server.notify text).users = server.users := by rw [notify_eq]

@[simp] theorem notify_next : (server.notify text).next = server.next := by rw [notify_eq]

@[simp] theorem notify_buf : (server.notify text).buf = server.buf := by rw [notify_eq]

@[simp] theorem notify_kcpOpt : (server.notify text).kcpOpt = server.kcpOpt := by rw [notify_eq]

@[simp] theorem notify_tick : (server.notify text).tick = server.tick := by rw [notify_eq]

theorem notify_trace : (server.notify text).trace = server.trace ++ server.users.members.map (.sent · text) := by
  rw [notify_eq]

theorem notify_objects (id : SessionId) : (server.notify text).objects id =
    if id ∈ server.users.members then ((server.objects id).send text).2 else server.objects id := by
  rw [notify_eq]
  split
  next member => exact sendEach_of_mem server.users.distinct member _
  next other => exact sendEach_of_notMem other _

theorem notify_object (id : SessionId) :
    ∃ sndQueue, (server.notify text).objects id = { server.objects id with sndQueue } := by
  rw [notify_objects]
  split
  next => exact ⟨_, rfl⟩
  next => exact ⟨_, rfl⟩

end frame

/-- Every text begins with the name of a user, and KCP takes it when what follows is a
message that the server can read. -/
theorem text_length_le (session : KcpSession) {text : List UInt8} (fits : text.length ≤ bodySize + 3) :
    (userFrom session ++ text).length ≤ SessionCalls.maxSize := by
  have addr := SessionCalls.getAddrToString_length session
  have opening : (ascii "user from [").length = 11 := rfl
  have closing : (ascii "]").length = 1 := rfl
  unfold bodySize at fits
  simp only [userFrom, List.length_append, SessionCalls.maxSize]
  omega

theorem said_length_le (session : KcpSession) {msg : List UInt8} (fits : msg.length ≤ bodySize) :
    (userFrom session ++ ascii " : " ++ msg).length ≤ SessionCalls.maxSize := by
  have colon : (ascii " : ").length = 3 := rfl
  rw [List.append_assoc]
  apply text_length_le
  rw [List.length_append]
  omega

end NetPrograms.Proofs.ChatNotify
