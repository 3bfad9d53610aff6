import NetPrograms.Proofs.ChatNotify
import NetPrograms.Proofs.ClientDelivery
import NetPrograms.Proofs.ServerDelivery

/-! How long a chat message may be. KCP takes up to 127 fragments from a sender,
the server and the clients take 4096 bytes, and the server puts the sender's
address in front of what it passes on. -/

namespace NetPrograms.Proofs.KcpLimits
open Kcp ChatServer SessionCalls

def chatText (session : KcpSession) (msg : List UInt8) : List UInt8 := userFrom session ++ ascii " : " ++ msg

section server
variable (clock : Nat → Int) (server : ChatServer) (id : SessionId) {msg : List UInt8}

theorem server_handles (some : msg ≠ []) (fits : msg.length ≤ bodySize)
    (unmistaken : ¬ kcpKeepAliveCmd <+: Block.overlay server.buf.cells 0 msg) :
    ∃ buf, handleSession (callbacks clock id) server.buf 0 [msg] server =
      .returned buf [] (((callbacks clock id).received server msg).handleMessage id msg) := by
  refine ⟨server.buf.put msg fits, ?_⟩
  rw [handleSession, if_neg (by simp), List.length_singleton,
    ServerDelivery.recvLoop_cons _ _ _ _ _ fits, if_neg some, Buffer.put_cells, ← Block.overlay_zero,
    if_neg unmistaken, ServerDelivery.recvLoop_nil]
  rfl

theorem server_exits (long : bodySize < msg.length) :
    handleSession (callbacks clock id) server.buf 0 [msg] server = .exited server := by
  rw [handleSession, if_neg (by simp), List.length_singleton, ServerDelivery.recvLoop_long _ _ _ _ _ long]

/-- Every user is sent the text once, and KCP accepts it. -/
theorem users_queue (fits : msg.length ≤ bodySize) {user : SessionId} (member : user ∈ server.users.members) :
    ((((callbacks clock id).received server msg).handleMessage id msg).objects user).sndQueue =
      (server.objects user).sndQueue ++ [chatText (server.objects id) msg] := by
  have accepted := @send_of_le (server.objects user) (chatText (server.objects id) msg)
    (ChatNotify.said_length_le (server.objects id) fits)
  have sent : ((((callbacks clock id).received server msg).handleMessage id msg).objects user) =
      ((server.objects user).send (chatText (server.objects id) msg)).2 := by
    rw [ChatServer.handleMessage, ChatNotify.notify_objects]
    exact if_pos member
  rw [sent, accepted]

end server

section client
variable {receiver : KcpClient} {len : Int} {text : List UInt8} (current : Int)
  (online : receiver.session.kcpOpt.isServer = false) (checked : KcpClient.checkRet len)
  (empty : receiver.session.rcvQueue = [])
include online checked empty

theorem client_handles (some : text ≠ []) (fits : text.length ≤ maxBodySize) :
    ∃ after, receiver.run ClientDelivery.record id current len receiver.serverAddr 0 [text] [] =
      .returned true after [text] := by
  have valid : ∀ msg ∈ receiver.session.rcvQueue ++ [text], msg ≠ [] ∧ msg.length ≤ maxBodySize := by
    rw [empty]
    simpa using ⟨some, fits⟩
  have whole := (ClientDelivery.handed_whole valid).mpr (by simp [empty])
  have handed := ClientDelivery.run_hands current [text] online checked valid
  rw [whole, empty] at handed
  exact handed

theorem client_exits (long : maxBodySize < text.length) :
    receiver.run ClientDelivery.record id current len receiver.serverAddr 0 [text] [] = .exited [] := by
  apply ClientDelivery.run_exits id current online checked
  rw [empty, List.nil_append, KcpClient.drain]
  exact ClientDelivery.recvLoop_long _ _ _ _ _ long

end client

/-- A message that KCP took ends the server if it is longer than the server's array;
else it is passed on, and ends every client whose array the longer text exceeds. -/
theorem chat_message_limits (clock : Nat → Int) {sender : KcpClient} {msg : List UInt8}
    (accepted : (sender.send msg).1 = 0) (server : ChatServer) (id : SessionId) (some : sized msg ≠ [])
    (unmistaken : ¬ kcpKeepAliveCmd <+: Block.overlay server.buf.cells 0 (sized msg)) :
    let handled := ((callbacks clock id).received server (sized msg)).handleMessage id (sized msg)
    let text := chatText (server.objects id) (sized msg)
    (sender.send msg).2.session.sndQueue = sender.session.sndQueue ++ [sized msg] ∧
    (bodySize < (sized msg).length →
      handleSession (callbacks clock id) server.buf 0 [sized msg] server = .exited server) ∧
    ((sized msg).length ≤ bodySize →
      (∃ buf, handleSession (callbacks clock id) server.buf 0 [sized msg] server = .returned buf [] handled) ∧
      ∀ user ∈ server.users.members,
        (handled.objects user).sndQueue = (server.objects user).sndQueue ++ [text]) ∧
    ∀ (receiver : KcpClient) (current len : Int), receiver.session.kcpOpt.isServer = false →
      KcpClient.checkRet len → receiver.session.rcvQueue = [] →
      (maxBodySize < text.length →
        receiver.run ClientDelivery.record (fun calls => calls) current len receiver.serverAddr 0 [text] [] =
          .exited []) ∧
      (text.length ≤ maxBodySize → ∃ after,
        receiver.run ClientDelivery.record (fun calls => calls) current len receiver.serverAddr 0 [text] [] =
          .returned true after [text]) := by
  intro handled text
  refine ⟨send_accepted accepted, server_exits clock server id, ?_, ?_⟩
  · intro fits
    refine ⟨server_handles clock server id some fits unmistaken, ?_⟩
    intro user member
    exact users_queue clock server id fits member
  · intro receiver current len online checked empty
    refine ⟨client_exits current online checked empty, ?_⟩
    apply client_handles current online checked empty
    simp [text, chatText, some]

private def room : ChatServer := { start {} with users := ⟨[0], by simp⟩ }

theorem chat_message_limits_greeting :
    ((((callbacks (fun n => n) 0).received room (ascii "hi")).handleMessage 0 (ascii "hi")).objects 0).sndQueue =
      [ascii "user from [0.0.0.0:0] : hi"] := by
  have limits := @chat_message_limits (fun n => n) (ClientDelivery.chatClient 7 ClientDelivery.localServer)
    (ascii "hi") (by rfl) room 0 (by decide) (by decide)
  obtain ⟨-, -, handled, -⟩ := limits
  exact (handled (by decide)).2 0 (by decide)

theorem long_message_stops_server :
    ((ClientDelivery.chatClient 7 ClientDelivery.localServer).send (List.replicate 5000 97)).1 = 0 ∧
      handleSession (callbacks (fun n => n) 0) room.buf 0 [List.replicate 5000 97] room = .exited room := by
  have length : (List.replicate 5000 (97 : UInt8)).length = 5000 := List.length_replicate
  generalize List.replicate 5000 (97 : UInt8) = msg at length ⊢
  constructor
  · rw [KcpClient.send, send_of_le _ (by rw [length, maxSize]; omega)]
  · exact server_exits _ _ _ (by rw [length, bodySize]; omega)

end NetPrograms.Proofs.KcpLimits
