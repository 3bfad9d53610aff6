import NetPrograms.Proofs.IkcpBounds

/-! When `ikcp_update` flushes, and what `ikcp_check` says about it. -/

namespace NetPrograms.Ikcp
open Serial

namespace Ikcpcb
variable {kcp : Ikcpcb} {current : UInt32}

theorem resync_near (kcp : Ikcpcb) : -10000 ≤ diff kcp.current kcp.resync.tsFlush ∧ diff kcp.current kcp.resync.tsFlush < 10000 := by
  unfold resync
  dsimp only
  split
  next => simp
  next near =>
    simp only [far, itimediff_eq_diff] at near
    omega

theorem nextFlush_ahead (interval : 10 ≤ kcp.interval.toNat ∧ kcp.interval.toNat ≤ 5000)
    (passed : 0 ≤ diff kcp.current kcp.tsFlush) (near : diff kcp.current kcp.tsFlush < 10000) :
    0 < diff kcp.nextFlush.tsFlush kcp.current ∧ diff kcp.nextFlush.tsFlush kcp.current ≤ 5000 := by
  have late := ahead_of_diff_nonneg passed
  have step := ahead_add kcp.tsFlush kcp.interval
  have order := @diff_of_ahead kcp.current (kcp.tsFlush + kcp.interval) kcp.tsFlush (by omega) (by omega)
  unfold nextFlush
  dsimp only
  split
  next =>
    have again := ahead_add kcp.current kcp.interval
    have ahead_ := @diff_of_ahead (kcp.current + kcp.interval) kcp.current kcp.current (by omega) (by simp)
    rw [ahead_self] at ahead_
    omega
  next early =>
    rw [itimediff_eq_diff] at early
    have ahead_ := @diff_of_ahead (kcp.tsFlush + kcp.interval) kcp.current kcp.tsFlush (by omega) (by omega)
    omega

/-- After every call of `ikcp_update` the next flush is due later than at once, and
within ten seconds. -/
theorem ikcpUpdate_deadline {conv : UInt32} {calls : List Call}
    (reached : exec Ikcpcb.call (ikcpCreate conv) calls = some kcp) (current : UInt32) :
    (kcp.ikcpUpdate current).1.current = current ∧ 0 < diff (kcp.ikcpUpdate current).1.tsFlush current ∧
      diff (kcp.ikcpUpdate current).1.tsFlush current ≤ 10000 := by
  have bounded := Bounded.run reached
  have near := (kcp.start current).resync_near
  change -10000 ≤ diff current _ ∧ diff current _ < 10000 at near
  by_cases time : itimediff current (kcp.start current).resync.tsFlush ≥ 0
  · have update : kcp.ikcpUpdate current = (kcp.start current).resync.nextFlush.ikcpFlush := if_pos time
    have next := @nextFlush_ahead (kcp.start current).resync bounded.interval time near.2
    rw [update, ikcpFlush_frame]
    exact ⟨rfl, next.1, next.2.trans (by decide)⟩
  · have update : kcp.ikcpUpdate current = ((kcp.start current).resync, {}) := if_neg time
    rw [itimediff_eq_diff] at time
    rw [update, diff_swap (by omega : diff current (kcp.start current).resync.tsFlush ≠ -2 ^ 31)]
    exact ⟨rfl, by omega, by omega⟩

theorem ikcpUpdate_deadline_wrapped : ∃ kcp, exec Ikcpcb.call (ikcpCreate 7) [.interval 10, .update 0xfffffffc] = some kcp ∧
    0 < diff (kcp.ikcpUpdate 3).1.tsFlush 3 ∧ diff (kcp.ikcpUpdate 3).1.tsFlush 3 ≤ 10000 :=
  ⟨_, rfl, (@ikcpUpdate_deadline _ 7 [.interval 10, .update 0xfffffffc] rfl 3).2⟩

/-! `ikcp_check` -/

theorem packetWait_some {segs : List Segment} {most least : Int} (wait : packetWait current segs most = some least) :
    least ≤ most ∧ (∀ seg ∈ segs, 0 < diff seg.resendts current ∧ least ≤ diff seg.resendts current) ∧
      (least = most ∨ ∃ seg ∈ segs, least = diff seg.resendts current) := by
  induction segs generalizing most with
  | nil =>
    obtain rfl := Option.some.inj wait
    exact ⟨le_rfl, by simp, Or.inl rfl⟩
  | cons seg rest ih =>
    rw [packetWait] at wait
    generalize same : itimediff seg.resendts current = gap at wait
    rw [itimediff_eq_diff] at same
    by_cases due : gap ≤ 0
    · rw [if_pos due] at wait
      exact absurd wait (by simp)
    · rw [if_neg due] at wait
      obtain ⟨below, all, reached⟩ := ih wait
      refine ⟨?_, ?_, ?_⟩
      · split at below <;> omega
      · intro other member
        rcases List.mem_cons.1 member with rfl | old
        · split at below <;> omega
        · exact all other old
      · rcases reached with first | ⟨other, member, first⟩
        · split at first
          next => exact Or.inr ⟨seg, List.mem_cons_self, first.trans same.symm⟩
          next => exact Or.inl first
        · exact Or.inr ⟨other, List.mem_cons_of_mem _ member, first⟩

theorem packetWait_none {segs : List Segment} {most : Int} (wait : packetWait current segs most = none) :
    ∃ seg ∈ segs, diff seg.resendts current ≤ 0 := by
  induction segs generalizing most with
  | nil => exact absurd wait (by simp [packetWait])
  | cons seg rest ih =>
    rw [packetWait] at wait
    by_cases due : itimediff seg.resendts current ≤ 0
    · exact ⟨seg, List.mem_cons_self, due⟩
    · rw [if_neg due] at wait
      obtain ⟨other, member, due⟩ := ih wait
      exact ⟨other, List.mem_cons_of_mem _ member, due⟩

def DueNow (kcp : Ikcpcb) (current : UInt32) : Prop :=
  far current kcp.tsFlush ∨ 0 ≤ diff current kcp.tsFlush ∨ ∃ seg ∈ kcp.sndBuf, diff seg.resendts current ≤ 0

/-- The nearest of the next flush, the first timeout and the end of an interval. -/
structure Nearest (kcp : Ikcpcb) (current : UInt32) (wait : Nat) : Prop where
  positive : 0 < wait
  flush : (wait : Int) ≤ diff kcp.tsFlush current
  interval : wait ≤ kcp.interval.toNat
  timeout : ∀ seg ∈ kcp.sndBuf, 0 < diff seg.resendts current ∧ (wait : Int) ≤ diff seg.resendts current
  reached : (wait : Int) = diff kcp.tsFlush current ∨ wait = kcp.interval.toNat ∨
    ∃ seg ∈ kcp.sndBuf, (wait : Int) = diff seg.resendts current

theorem ikcpCheck_cases (kcp : Ikcpcb) (bounded : Bounded kcp) (running : kcp.updated ≠ 0) (current : UInt32) :
    (kcp.ikcpCheck current = current ∧ kcp.DueNow current) ∨
      ¬ far current kcp.tsFlush ∧ diff current kcp.tsFlush < 0 ∧
        kcp.Nearest current (ahead (kcp.ikcpCheck current) current) := by
  rw [ikcpCheck, if_neg running]
  dsimp only
  by_cases apart : far current kcp.tsFlush
  · rw [if_pos apart, if_pos (by simp)]
    exact Or.inl ⟨rfl, Or.inl apart⟩
  · rw [if_neg apart]
    by_cases passed : itimediff current kcp.tsFlush ≥ 0
    · rw [if_pos passed]
      exact Or.inl ⟨rfl, Or.inr (Or.inl passed)⟩
    · rw [if_neg passed]
      cases wait : packetWait current kcp.sndBuf 0x7fffffff with
      | none => exact Or.inl ⟨rfl, Or.inr (Or.inr (packetWait_none wait))⟩
      | some least =>
        obtain ⟨below, all, reached⟩ := packetWait_some wait
        simp only [far, itimediff_eq_diff] at apart passed
        have turned := diff_swap (by omega : diff current kcp.tsFlush ≠ -2 ^ 31)
        have positive : 0 < least := by
          rcases reached with same | ⟨seg, member, same⟩
          · omega
          · have := (all seg member).1
            omega
        refine Or.inr ⟨by simp only [far, itimediff_eq_diff]; omega, by omega, ?_⟩
        rw [itimediff_eq_diff]
        dsimp only
        have short : (if least < diff kcp.tsFlush current then least else diff kcp.tsFlush current) =
            min least (diff kcp.tsFlush current) := by
          split <;> omega
        rw [short]
        have exact_ : (Int32.ofInt (min least (diff kcp.tsFlush current))).toInt = min least (diff kcp.tsFlush current) :=
          Int32.toInt_ofInt_of_le (by omega) (by omega)
        have minimal := toNat_toUInt32 (exact_ ▸ (by omega : 0 ≤ min least (diff kcp.tsFlush current)))
        rw [exact_] at minimal
        generalize (Int32.ofInt (min least (diff kcp.tsFlush current))).toUInt32 = minimal_ at minimal
        rw [ahead_add]
        have interval := bounded.interval
        split
        next long =>
          have long := UInt32.le_iff_toNat_le.1 long
          refine ⟨by omega, by omega, le_rfl, fun seg member => ?_, Or.inr (Or.inl rfl)⟩
          have := all seg member
          omega
        next brief =>
          have brief := mt UInt32.le_iff_toNat_le.2 brief
          refine ⟨by omega, by omega, by omega, fun seg member => ?_, ?_⟩
          · have := all seg member
            omega
          · by_cases first : least < diff kcp.tsFlush current
            · rcases reached with same | ⟨seg, member, same⟩
              · omega
              · exact Or.inr (Or.inr ⟨seg, member, by omega⟩)
            · exact Or.inl (by omega)

theorem Nearest.idle {wait steps : Nat} (running : kcp.updated ≠ 0) (near : ¬ far current kcp.tsFlush)
    (early : diff current kcp.tsFlush < 0) (nearest : kcp.Nearest current wait) (before : steps < wait) :
    kcp.ikcpUpdate (current + UInt32.ofNat steps) = ({ kcp with current := current + UInt32.ofNat steps }, {}) ∧
      ∀ seg ∈ kcp.sndBuf, diff (current + UInt32.ofNat steps) seg.resendts < 0 := by
  have flush := nearest.flush
  simp only [far, itimediff_eq_diff] at near
  have turned := diff_swap (by omega : diff current kcp.tsFlush ≠ -2 ^ 31)
  have there := ahead_of_diff_nonneg (by omega : 0 ≤ diff kcp.tsFlush current)
  have steps_ : (UInt32.ofNat steps).toNat = steps := UInt32.toNat_ofNat_of_lt' (show steps < 2 ^ 32 by omega)
  have ahead_ := ahead_add current (UInt32.ofNat steps)
  rw [steps_] at ahead_
  have still := @diff_of_ahead (current + UInt32.ofNat steps) kcp.tsFlush current (by omega) (by omega)
  constructor
  · have apart : ¬ far (current + UInt32.ofNat steps) kcp.tsFlush := by
      simp only [far, itimediff_eq_diff]
      omega
    have resync : (kcp.start (current + UInt32.ofNat steps)).resync = { kcp with current := current + UInt32.ofNat steps } := by
      unfold start resync
      simp only [if_neg running, if_neg apart]
    rw [ikcpUpdate, resync]
    refine if_neg ?_
    show ¬ diff (current + UInt32.ofNat steps) kcp.tsFlush ≥ 0
    omega
  · intro seg member
    have timeout := nearest.timeout seg member
    have later := ahead_of_diff_nonneg timeout.1.le
    have half := @diff_eq_ahead seg.resendts current
    have small : ahead seg.resendts current < 2 ^ 31 := diff_nonneg_iff.1 timeout.1.le
    rw [@diff_of_ahead (current + UInt32.ofNat steps) seg.resendts current (by omega) small]
    omega

theorem Nearest.due {next : UInt32} (nearest : kcp.Nearest current (ahead next current))
    (brief : ahead next current < kcp.interval.toNat) : kcp.DueNow next := by
  have same : ∀ time : UInt32, (ahead next current : Int) = diff time current → next = time := by
    intro time reached
    have there := ahead_of_diff_nonneg (by omega : 0 ≤ diff time current)
    exact ahead_inj.1 (by omega : ahead next current = ahead time current)
  rcases nearest.reached with flush | interval | ⟨seg, member, timeout⟩
  · refine Or.inr (Or.inl ?_)
    rw [same _ flush, diff_self]
  · omega
  · refine Or.inr (Or.inr ⟨seg, member, ?_⟩)
    rw [same _ timeout, diff_self]

end Ikcpcb

/-- `ikcp_check` misses nothing: until the time that it gives, `ikcp_update` has
nothing to do and no segment times out. It gives no time too early either, except
that it never lets more than an interval pass. -/
theorem ikcpCheck_exact {conv : UInt32} {calls : List Call} {kcp : Ikcpcb}
    (reached : exec Ikcpcb.call (ikcpCreate conv) calls = some kcp) (running : kcp.updated ≠ 0) (current : UInt32) :
    let wait := ahead (kcp.ikcpCheck current) current
    (∀ steps < wait,
      kcp.ikcpUpdate (current + UInt32.ofNat steps) = ({ kcp with current := current + UInt32.ofNat steps }, {}) ∧
        ∀ seg ∈ kcp.sndBuf, diff (current + UInt32.ofNat steps) seg.resendts < 0) ∧
      wait ≤ kcp.interval.toNat ∧ (wait < kcp.interval.toNat → kcp.DueNow (kcp.ikcpCheck current)) := by
  have bounded := Bounded.run reached
  rcases kcp.ikcpCheck_cases bounded running current with ⟨now, due⟩ | ⟨near, early, nearest⟩
  · dsimp only
    rw [now, ahead_self]
    exact ⟨fun steps before => absurd before (Nat.not_lt_zero steps), Nat.zero_le _, fun _ => due⟩
  · exact ⟨fun steps before => nearest.idle running near early before, nearest.interval, nearest.due⟩

/-- A segment is in flight. The flush comes before its timeout. -/
theorem ikcpCheck_exact_flush : ∃ kcp, exec Ikcpcb.call (ikcpCreate 7) [.nodelay 0 10 0 1, .send [1], .update 0] = some kcp ∧
    kcp.ikcpCheck 4 = 10 ∧ kcp.ikcpUpdate (4 + UInt32.ofNat 5) = ({ kcp with current := 4 + UInt32.ofNat 5 }, {}) := by
  refine ⟨_, rfl, rfl, ?_⟩
  exact ((@ikcpCheck_exact 7 [.nodelay 0 10 0 1, .send [1], .update 0] _ rfl (by decide) 4).1 5 (by decide)).1

end NetPrograms.Ikcp
