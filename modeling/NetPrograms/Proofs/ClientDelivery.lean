import NetPrograms.Kcp.Client
import NetPrograms.Proofs.SessionCalls
import Mathlib.Data.List.Chain

/-! Messages of a session through `KcpClient::Run`. The string keeps the length of
one message while the next is copied under it, so that resizing it afterwards
clears what lies above the earlier length. -/

namespace NetPrograms.Proofs.ClientDelivery
open Kcp

universe u
variable {σ : Type u}

/-- What is left of a message that is read into a string of the given length. -/
def cleared (length : Nat) (msg : List UInt8) : List UInt8 :=
  msg.take length ++ List.replicate (msg.length - length) 0

def handed (length : Nat) : List (List UInt8) → List (List UInt8)
  | [] => []
  | msg :: rest => cleared length msg :: handed msg.length rest

theorem cleared_getElem {length : Nat} {msg : List UInt8} {index : Nat} (inside : index < (cleared length msg).length)
    (below : index < msg.length) : (cleared length msg)[index] = if length ≤ index then 0 else msg[index] := by
  simp only [cleared, List.getElem_append, List.length_take]
  split
  next kept =>
    rw [if_neg (by omega), List.getElem_take]
  next gained =>
    rw [if_pos (by omega), List.getElem_replicate]

theorem toBytes_resize {n length : Nat} (block : Buffer UInt8 n) {msg : List UInt8} (fits : msg.length ≤ n) :
    ((⟨block.put msg fits, length⟩ : CxxString n).resize msg.length).toBytes = cleared length msg := by
  apply List.ext_getElem
  · simp [CxxString.toBytes, CxxString.resize, cleared]
    omega
  · intro index inside _
    have below : index < msg.length := by
      simp only [CxxString.toBytes, CxxString.resize, List.length_take] at inside
      omega
    rw [cleared_getElem _ below]
    simp [CxxString.toBytes, CxxString.resize, below]

section drain
variable (handleMessage : σ → List UInt8 → σ) (fuel : Nat) (body : CxxString maxBodySize) (state : σ)

theorem recvLoop_nil :
    KcpClient.recvLoop handleMessage (fuel + 1) body [] state = (some [], state) := by
  simp [KcpClient.recvLoop, ikcpRecv]

theorem recvLoop_cons {msg : List UInt8} (rest : List (List UInt8)) (some : msg ≠ [])
    (fits : msg.length ≤ maxBodySize) :
    ∃ after : CxxString maxBodySize, after.length = msg.length ∧
      KcpClient.recvLoop handleMessage (fuel + 1) body (msg :: rest) state =
        KcpClient.recvLoop handleMessage fuel after rest (handleMessage state (cleared body.length msg)) := by
  have positive : 0 < msg.length := List.length_pos_iff.mpr some
  have long : ¬ (msg.length : Int) = -3 := by omega
  have nonempty : ¬ (msg.length : Int) ≤ 0 := by omega
  refine ⟨(⟨body.block.put msg fits, body.length⟩ : CxxString maxBodySize).resize msg.length, rfl, ?_⟩
  simp only [KcpClient.recvLoop, ikcpRecv, dif_pos fits, if_neg long, if_neg nonempty, Int.toNat_natCast,
    toBytes_resize]

theorem recvLoop_long {msg : List UInt8} (rest : List (List UInt8)) (long : maxBodySize < msg.length) :
    KcpClient.recvLoop handleMessage (fuel + 1) body (msg :: rest) state = (none, state) := by
  have outside : ¬ msg.length ≤ maxBodySize := Nat.not_le.mpr long
  simp [KcpClient.recvLoop, ikcpRecv, outside]

end drain

theorem recvLoop_hands (handleMessage : σ → List UInt8 → σ) (queue : List (List UInt8))
    (valid : ∀ msg ∈ queue, msg ≠ [] ∧ msg.length ≤ maxBodySize) (body : CxxString maxBodySize) (state : σ) :
    KcpClient.recvLoop handleMessage (queue.length + 1) body queue state =
      (some [], (handed body.length queue).foldl handleMessage state) := by
  induction queue generalizing body state with
  | nil => exact recvLoop_nil handleMessage 0 body state
  | cons msg rest ih =>
    obtain ⟨some, fits⟩ := valid msg (by simp)
    obtain ⟨after, length, stepped⟩ := recvLoop_cons handleMessage (rest.length + 1) body state rest some fits
    rw [List.length_cons, stepped, ih (fun other member => valid other (List.mem_cons_of_mem _ member)), length]
    rfl

/-- The later message has only NUL bytes above the length of the earlier one. -/
def Covered (earlier later : List UInt8) : Prop := ∀ byte ∈ later.drop earlier.length, byte = 0

theorem cleared_eq_self {length : Nat} {msg : List UInt8} :
    cleared length msg = msg ↔ ∀ byte ∈ msg.drop length, byte = 0 := by
  have split : cleared length msg = msg ↔ List.replicate (msg.length - length) 0 = msg.drop length := by
    conv => lhs; rhs; rw [← List.take_append_drop length msg]
    exact List.append_right_inj _
  rw [split, ← List.length_drop, eq_comm, List.eq_replicate_length]

theorem handed_eq_self {length : Nat} {queue : List (List UInt8)} :
    handed length queue = queue ↔
      (∀ msg ∈ queue.head?, ∀ byte ∈ msg.drop length, byte = 0) ∧ queue.IsChain Covered := by
  induction queue generalizing length with
  | nil => simp [handed]
  | cons msg rest ih =>
    rw [handed, List.cons.injEq, cleared_eq_self, ih, List.isChain_cons]
    simp [Covered]

section run
variable {client : KcpClient} {len : Int}

section server
variable {handleMessage : σ → List UInt8 → σ} {arrived : List (List UInt8)} {state later : σ}
  (handleClose : σ → σ) (current : Int) (online : client.session.kcpOpt.isServer = false)
  (checked : KcpClient.checkRet len)
include online checked

theorem run_returns {rest : List (List UInt8)}
    (drained : KcpClient.drain handleMessage (client.session.rcvQueue ++ arrived) state = (some rest, later)) :
    ∃ after, client.run handleMessage handleClose current len client.serverAddr 0 arrived state =
      .returned true after later := by
  obtain ⟨session, updated, queue⟩ := SessionCalls.update_client current online
  refine ⟨⟨client.serverAddr, { session with rcvQueue := rest }⟩, ?_⟩
  simp [KcpClient.run, updated, queue, checked, drained]

theorem run_exits
    (drained : KcpClient.drain handleMessage (client.session.rcvQueue ++ arrived) state = (none, later)) :
    client.run handleMessage handleClose current len client.serverAddr 0 arrived state = .exited later := by
  obtain ⟨session, updated, queue⟩ := SessionCalls.update_client current online
  simp [KcpClient.run, updated, queue, checked, drained]

end server

def record (calls : List (List UInt8)) (msg : List UInt8) : List (List UInt8) := calls ++ [msg]

private theorem foldl_record (calls msgs : List (List UInt8)) : msgs.foldl record calls = calls ++ msgs := by
  induction msgs generalizing calls with
  | nil => simp
  | cons msg rest ih => simp [ih, record]

theorem run_hands (current : Int) (arrived : List (List UInt8)) (online : client.session.kcpOpt.isServer = false)
    (checked : KcpClient.checkRet len)
    (valid : ∀ msg ∈ client.session.rcvQueue ++ arrived, msg ≠ [] ∧ msg.length ≤ maxBodySize) :
    ∃ after, client.run record id current len client.serverAddr 0 arrived [] =
      .returned true after (handed maxBodySize (client.session.rcvQueue ++ arrived)) := by
  have drained : KcpClient.drain record (client.session.rcvQueue ++ arrived) [] =
      (some [], handed maxBodySize (client.session.rcvQueue ++ arrived)) := by
    rw [KcpClient.drain, recvLoop_hands record _ valid, foldl_record, List.nil_append]
  exact run_returns id current online checked drained

/-- The string is as long as the array at first, so that the first message is whole. -/
theorem handed_whole {queue : List (List UInt8)} (valid : ∀ msg ∈ queue, msg ≠ [] ∧ msg.length ≤ maxBodySize) :
    handed maxBodySize queue = queue ↔ queue.IsChain Covered := by
  rw [handed_eq_self, and_iff_right_iff_imp]
  intro _ msg first byte member
  have short : msg.length ≤ maxBodySize := (valid msg (List.mem_of_mem_head? first)).2
  rw [List.drop_of_length_le short] at member
  cases member

/-- The client is handed its messages as they are exactly when each is NUL above
the length of the one before it. -/
theorem run_delivers_iff (current : Int) (arrived : List (List UInt8))
    (online : client.session.kcpOpt.isServer = false) (checked : KcpClient.checkRet len)
    (valid : ∀ msg ∈ client.session.rcvQueue ++ arrived, msg ≠ [] ∧ msg.length ≤ maxBodySize) :
    (∃ after, client.run record id current len client.serverAddr 0 arrived [] =
      .returned true after (client.session.rcvQueue ++ arrived)) ↔
    (client.session.rcvQueue ++ arrived).IsChain Covered := by
  obtain ⟨after, returned⟩ := run_hands current arrived online checked valid
  rw [returned, ← handed_whole valid]
  constructor
  · rintro ⟨_, same⟩
    exact (RunResult.returned.inj same).2.2
  · intro same
    exact ⟨after, by rw [same]⟩

end run

def chatClient (conv : UInt32) (serverAddr : SockAddr) : KcpClient :=
  ⟨serverAddr, { kcpOpt := ⟨false, 1000, conv⟩, addr := serverAddr }⟩

def localServer : SockAddr := ⟨(127, 0, 0, 1), 9000⟩

theorem run_delivers_shortening :
    ∃ after, (chatClient 7 localServer).run record id 1 40 localServer 0 [ascii "hello", ascii "hi"] [] =
      .returned true after [ascii "hello", ascii "hi"] :=
  (@run_delivers_iff (chatClient 7 localServer) 40 1 [ascii "hello", ascii "hi"] rfl (by decide) (by decide)).mpr
    (by simp [chatClient, Covered, ascii])

/-- The second letter of a longer message becomes NUL. -/
theorem run_clears_letter :
    (∀ msg ∈ (chatClient 7 localServer).session.rcvQueue ++ [ascii "a", ascii "bc"],
        msg ≠ [] ∧ msg.length ≤ maxBodySize) ∧
      ¬ ∃ after, (chatClient 7 localServer).run record id 1 40 localServer 0 [ascii "a", ascii "bc"] [] =
        .returned true after [ascii "a", ascii "bc"] := by
  have valid : ∀ msg ∈ (chatClient 7 localServer).session.rcvQueue ++ [ascii "a", ascii "bc"],
      msg ≠ [] ∧ msg.length ≤ maxBodySize := by decide
  refine ⟨valid, ?_⟩
  rintro ⟨after, delivered⟩
  obtain ⟨other, returned⟩ := run_hands 1 [ascii "a", ascii "bc"] rfl (by decide : KcpClient.checkRet 40) valid
  have same := (RunResult.returned.inj (returned.symm.trans delivered)).2.2
  exact absurd same (by decide)

end NetPrograms.Proofs.ClientDelivery
