import NetPrograms.Kcp.Session
import NetPrograms.Lib.Digits

/-! The calls of one session. `Send` takes messages of fewer than 128 fragments,
by a length that goes through `uint32_t`; `Update` ends a session of a server only. -/

namespace NetPrograms.Proofs.SessionCalls
open Kcp

/-- The bytes of a message that are left when its length has gone through `uint32_t`. -/
def sized (data : List UInt8) : List UInt8 := data.take (data.length % 2 ^ 32)

theorem intOfSize_of_lt {size : Nat} (small : size < 2 ^ 31) : intOfSize size = size := by
  unfold intOfSize
  dsimp only
  split <;> omega

theorem intOfSize_toNat {size : Nat} (positive : ¬ intOfSize size < 0) :
    (intOfSize size).toNat = size % 2 ^ 32 := by
  unfold intOfSize at positive ⊢
  dsimp only at positive ⊢
  split at positive <;> omega

/-- The longest message that has fewer than 128 fragments. -/
def maxSize : Nat := 127 * 1376

theorem send_of_le (session : KcpSession) {data : List UInt8} (short : data.length ≤ maxSize) :
    session.send data = (0, { session with sndQueue := session.sndQueue ++ [data] }) := by
  unfold maxSize at short
  have negative : ¬ (data.length : Int) < 0 := by omega
  have count : ¬ ikcpWndRcv ≤ if (data.length : Int) ≤ mss then 1 else (data.length + mss - 1) / mss := by
    unfold ikcpWndRcv mss
    split <;> omega
  have queued : ikcpSend session.sndQueue data data.length = (0, session.sndQueue ++ [data]) := by
    rw [ikcpSend, if_neg negative, Int.toNat_natCast, List.take_length]
    exact if_neg count
  rw [KcpSession.send, intOfSize_of_lt (by omega), queued]

theorem ikcpSend_accepted {queue : List (List UInt8)} {buffer : List UInt8} {len : Int}
    (accepted : (ikcpSend queue buffer len).1 = 0) :
    ¬ len < 0 ∧ (ikcpSend queue buffer len).2 = queue ++ [buffer.take len.toNat] := by
  unfold ikcpSend at accepted ⊢
  by_cases negative : len < 0
  · rw [if_pos negative] at accepted
    cases accepted
  · rw [if_neg negative] at accepted ⊢
    dsimp only at accepted ⊢
    generalize (if len ≤ mss then 1 else (len.toNat + mss - 1) / mss) = count at accepted ⊢
    by_cases many : ikcpWndRcv ≤ count
    · rw [if_pos many] at accepted
      cases accepted
    · rw [if_neg many]
      exact ⟨negative, rfl⟩

theorem send_accepted {session : KcpSession} {data : List UInt8} (accepted : (session.send data).1 = 0) :
    (session.send data).2.sndQueue = session.sndQueue ++ [sized data] := by
  obtain ⟨positive, queued⟩ := ikcpSend_accepted accepted
  rw [intOfSize_toNat positive] at queued
  exact queued

theorem decimal_length {n k : Nat} (positive : 0 < k) (small : n < 10 ^ k) : (decimal n).length ≤ k :=
  digits_length positive small

theorem getAddrToString_length (session : KcpSession) : session.getAddrToString.length ≤ 21 := by
  have octet : ∀ byte : UInt8, (decimal byte.toNat).length ≤ 3 := by
    intro byte
    have bounded := byte.toNat_lt
    exact decimal_length (by decide) (by omega)
  rcases stored : session.addr with ⟨⟨a, b, c, d⟩, sinPort⟩
  have port : (decimal sinPort.toNat).length ≤ 5 := by
    have bounded := sinPort.toNat_lt
    exact decimal_length (by decide) (by omega)
  have dot : (ascii ".").length = 1 := rfl
  have colon : (ascii ":").length = 1 := rfl
  have first := octet a
  have second := octet b
  have third := octet c
  have fourth := octet d
  simp only [KcpSession.getAddrToString, stored, List.length_append]
  omega

section update
variable (session : KcpSession) (current : Int)

@[simp] theorem seed_kcpOpt : (session.seed current).kcpOpt = session.kcpOpt := by
  unfold KcpSession.seed
  split <;> rfl

@[simp] theorem seed_addr : (session.seed current).addr = session.addr := by
  unfold KcpSession.seed
  split <;> rfl

@[simp] theorem seed_sndQueue : (session.seed current).sndQueue = session.sndQueue := by
  unfold KcpSession.seed
  split <;> rfl

@[simp] theorem seed_rcvQueue : (session.seed current).rcvQueue = session.rcvQueue := by
  unfold KcpSession.seed
  split <;> rfl

variable {session}

theorem update_client (client : session.kcpOpt.isServer = false) :
    ∃ after, session.update current = (false, after) ∧ after.rcvQueue = session.rcvQueue := by
  have same := seed_rcvQueue session current
  simp only [KcpSession.update, seed_kcpOpt, client]
  rw [if_neg (by simp)]
  split
  next => exact ⟨_, rfl, same⟩
  next => exact ⟨_, rfl, same⟩

theorem update_server (server : session.kcpOpt.isServer = true) :
    session.update current =
      (decide (session.kcpOpt.keepAliveTimeout < current - (session.seed current).recvLatestTime),
        session.seed current) := by
  simp only [KcpSession.update, seed_kcpOpt, server, true_and, not_true_eq_false, false_and, if_false]
  split
  next late => rw [decide_eq_true late]
  next early => rw [decide_eq_false early]

end update

end NetPrograms.Proofs.SessionCalls
