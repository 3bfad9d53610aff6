import NetPrograms.Lib.Run
import NetPrograms.Proofs.IkcpSettings

/-! Bounds on options and timers that hold in every run, whatever datagrams come
in. -/

namespace NetPrograms.Ikcp
open Serial

structure Bounded (kcp : Ikcpcb) : Prop where
  mtu : 50 ≤ kcp.mtu.toNat ∧ kcp.mtu.toNat < 2 ^ 31
  mss : kcp.mss = kcp.mtu - ikcpOverhead
  interval : 10 ≤ kcp.interval.toNat ∧ kcp.interval.toNat ≤ 5000
  minrto : kcp.rxMinrto = ikcpRtoNdl.toInt32 ∨ kcp.rxMinrto = ikcpRtoMin.toInt32
  rto : ikcpRtoNdl.toNat ≤ kcp.rxRto.toInt ∧ kcp.rxRto.toInt ≤ ikcpRtoMax.toNat
  ssthresh : ikcpThreshMin.toNat ≤ kcp.ssthresh.toNat
  probeWait : kcp.probeWait = 0 ∨ ikcpProbeInit.toNat ≤ kcp.probeWait.toNat ∧ kcp.probeWait.toNat ≤ ikcpProbeLimit.toNat

theorem ibound_toNat {lower upper : UInt32} (middle : UInt32) (order : lower.toNat ≤ upper.toNat) :
    lower.toNat ≤ (ibound lower middle upper).toNat ∧ (ibound lower middle upper).toNat ≤ upper.toNat := by
  have within : ∀ a b : UInt32, (imin a b).toNat = min a.toNat b.toNat ∧ (imax a b).toNat = max a.toNat b.toNat := by
    intro a b
    unfold imin imax
    simp only [ge_iff_le, UInt32.le_iff_toNat_le]
    constructor <;> split <;> omega
  rw [ibound, (within _ _).1, (within _ _).2]
  omega

namespace Bounded
variable {kcp : Ikcpcb}

theorem create (conv : UInt32) : Bounded (ikcpCreate conv) := by
  refine ⟨?_, rfl, ?_, Or.inr rfl, ?_, ?_, Or.inl rfl⟩
  · exact (by decide : 50 ≤ ikcpMtuDef.toNat ∧ ikcpMtuDef.toNat < 2 ^ 31)
  · exact (by decide : 10 ≤ ikcpInterval.toNat ∧ ikcpInterval.toNat ≤ 5000)
  · exact (by decide : ikcpRtoNdl.toNat ≤ ikcpRtoDef.toInt32.toInt ∧ ikcpRtoDef.toInt32.toInt ≤ ikcpRtoMax.toNat)
  · exact (by decide : ikcpThreshMin.toNat ≤ ikcpThreshInit.toNat)

/-- The options are as before, and the rest is bounded. -/
theorem options (bounded : Bounded kcp) {after : Ikcpcb} (settings : after.settings = kcp.settings)
    (rto : ikcpRtoNdl.toNat ≤ after.rxRto.toInt ∧ after.rxRto.toInt ≤ ikcpRtoMax.toNat)
    (ssthresh : ikcpThreshMin.toNat ≤ after.ssthresh.toNat)
    (probeWait : after.probeWait = 0 ∨
      ikcpProbeInit.toNat ≤ after.probeWait.toNat ∧ after.probeWait.toNat ≤ ikcpProbeLimit.toNat) : Bounded after := by
  obtain ⟨mtu, mss, -, -, -, interval, -, minrto, -⟩ := Settings.mk.inj settings
  exact ⟨mtu ▸ bounded.mtu, by rw [mss, mtu, bounded.mss], interval ▸ bounded.interval, minrto ▸ bounded.minrto,
    rto, ssthresh, probeWait⟩

theorem congr (bounded : Bounded kcp) {after : Ikcpcb} (settings : after.settings = kcp.settings)
    (rto : after.rxRto = kcp.rxRto) (ssthresh : after.ssthresh = kcp.ssthresh) (probeWait : after.probeWait = kcp.probeWait) :
    Bounded after :=
  bounded.options settings (rto ▸ bounded.rto) (ssthresh ▸ bounded.ssthresh) (probeWait ▸ bounded.probeWait)

/-! Datagrams -/

/-- The estimate may be anything. -/
theorem updateAck (minrto : kcp.rxMinrto = ikcpRtoNdl.toInt32 ∨ kcp.rxMinrto = ikcpRtoMin.toInt32) (rtt : Int32) :
    ikcpRtoNdl.toNat ≤ (kcp.ikcpUpdateAck rtt).rxRto.toInt ∧ (kcp.ikcpUpdateAck rtt).rxRto.toInt ≤ ikcpRtoMax.toNat := by
  have least : kcp.rxMinrto.toUInt32.toNat ≤ ikcpRtoMax.toNat ∧ ikcpRtoNdl.toNat ≤ kcp.rxMinrto.toUInt32.toNat := by
    rcases minrto with same | same
    all_goals
      rw [same]
      decide
  have small : ikcpRtoMax.toNat < 2 ^ 31 := by decide
  have clamped : ∀ rto, ikcpRtoNdl.toNat ≤ (ibound kcp.rxMinrto.toUInt32 rto ikcpRtoMax).toInt32.toInt ∧
      (ibound kcp.rxMinrto.toUInt32 rto ikcpRtoMax).toInt32.toInt ≤ ikcpRtoMax.toNat := by
    intro rto
    have inside := ibound_toNat rto least.1
    rw [toInt_toInt32_of_lt (by omega)]
    omega
  unfold Ikcpcb.ikcpUpdateAck
  split <;> exact clamped _

theorem measure (bounded : Bounded kcp) (ts : UInt32) :
    ikcpRtoNdl.toNat ≤ (kcp.measure ts).rxRto.toInt ∧ (kcp.measure ts).rxRto.toInt ≤ ikcpRtoMax.toNat := by
  unfold Ikcpcb.measure
  split
  next => exact updateAck bounded.minrto _
  next => exact bounded.rto

theorem inputSegment (bounded : Bounded kcp) (flag : Option UInt32) (seg : Segment) :
    Bounded (Ikcpcb.inputSegment (kcp, flag) seg).1 := by
  refine Ikcpcb.inputSegment_rule flag ?_ ?_ ?_ fun _ held => held.congr rfl rfl rfl rfl
  · rw [Ikcpcb.inputHeader_eq]
    exact bounded.congr rfl rfl rfl rfl
  · intro middle held
    rw [Ikcpcb.inputAck_fields]
    exact held.options rfl (held.measure seg.ts) held.ssthresh held.probeWait
  · intro middle held
    rw [Ikcpcb.inputPush_eq]
    exact held.congr rfl rfl rfl rfl

theorem finishInput (bounded : Bounded kcp) (flag : Option UInt32) (prevUna : UInt32) :
    Bounded (Ikcpcb.finishInput prevUna (kcp, flag)) := by
  rw [Ikcpcb.finishInput_eq]
  exact bounded.congr rfl rfl rfl rfl

/-! Flushes -/

/-- A wait begins with 7 s, and grows by half up to 120 s. -/
theorem probeWindow (bounded : Bounded kcp) : kcp.probeWindow.probeWait = 0 ∨
    ikcpProbeInit.toNat ≤ kcp.probeWindow.probeWait.toNat ∧ kcp.probeWindow.probeWait.toNat ≤ ikcpProbeLimit.toNat := by
  unfold Ikcpcb.probeWindow
  split
  next =>
    split
    next => exact Or.inr (by decide : ikcpProbeInit.toNat ≤ ikcpProbeInit.toNat ∧ ikcpProbeInit.toNat ≤ ikcpProbeLimit.toNat)
    next waiting =>
      obtain ⟨least, most⟩ := bounded.probeWait.resolve_left waiting
      split
      next =>
        refine Or.inr ?_
        dsimp only
        have first : ¬ kcp.probeWait < ikcpProbeInit := by
          rw [UInt32.lt_iff_toNat_lt]
          omega
        rw [if_neg first]
        have limit : ikcpProbeLimit.toNat = 120000 := rfl
        have half : (kcp.probeWait / 2).toNat = kcp.probeWait.toNat / 2 := UInt32.toNat_div _ _
        have sum : (kcp.probeWait + kcp.probeWait / 2).toNat = kcp.probeWait.toNat + kcp.probeWait.toNat / 2 := by
          rw [UInt32.toNat_add, half]
          omega
        split
        next => exact ⟨by decide, le_rfl⟩
        next short =>
          rw [gt_iff_lt, UInt32.lt_iff_toNat_lt] at short
          omega
      next => exact Or.inr ⟨least, most⟩
  next => exact Or.inl rfl

theorem imax_thresh (x : UInt32) : ikcpThreshMin.toNat ≤ (imax x ikcpThreshMin).toNat := by
  unfold imax
  split
  next more => exact UInt32.le_iff_toNat_le.1 more
  next => exact le_rfl

theorem shrinkCwnd (least : ikcpThreshMin.toNat ≤ kcp.ssthresh.toNat) (cwnd : UInt32) (change : Nat) (lost : Bool) :
    ikcpThreshMin.toNat ≤ (kcp.shrinkCwnd cwnd change lost).ssthresh.toNat := by
  have reduced : ikcpThreshMin.toNat ≤ (if change ≠ 0 then kcp.reduceCwnd else kcp).ssthresh.toNat := by
    split
    next => exact imax_thresh _
    next => exact least
  have collapsed : ∀ kcp : Ikcpcb, ikcpThreshMin.toNat ≤ kcp.ssthresh.toNat →
      ikcpThreshMin.toNat ≤ (if lost then kcp.collapseCwnd cwnd else kcp).ssthresh.toNat := by
    intro kcp least
    split
    next => exact imax_thresh _
    next => exact least
  have opened : ∀ kcp : Ikcpcb, kcp.openCwnd.ssthresh = kcp.ssthresh := by
    intro kcp
    unfold Ikcpcb.openCwnd
    split <;> rfl
  unfold Ikcpcb.shrinkCwnd
  dsimp only
  rw [opened]
  exact collapsed _ reduced

theorem flush (bounded : Bounded kcp) : Bounded kcp.ikcpFlush.1 := by
  by_cases idle : kcp.updated = 0
  · rw [Ikcpcb.ikcpFlush_idle idle]
    exact bounded
  · have opened : Bounded { kcp with acklist := [] } := bounded.congr rfl rfl rfl rfl
    have waits := opened.probeWindow
    have frame := Ikcpcb.ikcpFlush_eq idle
    have probeWait : kcp.ikcpFlush.1.probeWait = ({ kcp with acklist := [] } : Ikcpcb).probeWindow.probeWait := by
      rw [frame, Ikcpcb.flushed]
      show kcp.flushQueued.probeWait = _
      unfold Ikcpcb.flushQueued
      dsimp only
      rw [Ikcpcb.moveQueued_eq]
    have ssthresh : ikcpThreshMin.toNat ≤ kcp.ikcpFlush.1.ssthresh.toNat := by
      rw [Ikcpcb.ikcpFlush, if_neg idle]
      refine shrinkCwnd ?_ _ _ _
      rw [Ikcpcb.flushed, Ikcpcb.flushQueued_eq]
      exact bounded.ssthresh
    have rto : kcp.ikcpFlush.1.rxRto = kcp.rxRto := by rw [Ikcpcb.ikcpFlush_frame]
    exact bounded.options kcp.ikcpFlush_settings (rto ▸ bounded.rto) ssthresh (probeWait ▸ waits)

theorem update (bounded : Bounded kcp) (current : UInt32) : Bounded (kcp.ikcpUpdate current).1 := by
  obtain ⟨updated, tsFlush, -, quiet | flush⟩ := kcp.ikcpUpdate_cases current
  · rw [quiet]
    exact bounded.congr rfl rfl rfl rfl
  · rw [flush]
    exact Bounded.flush (bounded.congr rfl rfl rfl rfl)

/-! Options -/

theorem boundInterval (interval : Int32) :
    10 ≤ (Ikcpcb.boundInterval interval).toUInt32.toNat ∧ (Ikcpcb.boundInterval interval).toUInt32.toNat ≤ 5000 := by
  unfold Ikcpcb.boundInterval
  split
  next => decide
  next short =>
    split
    next => decide
    next long =>
      have five : (5000 : Int32).toInt = 5000 := rfl
      have ten : (10 : Int32).toInt = 10 := rfl
      rw [gt_iff_lt, Int32.lt_iff_toInt_lt, five] at short
      rw [Int32.lt_iff_toInt_lt, ten] at long
      have same := toNat_toUInt32 (by omega : 0 ≤ interval.toInt)
      omega

theorem send (bounded : Bounded kcp) (buffer : List UInt8) : Bounded (kcp.ikcpSend buffer).2 := by
  rw [Ikcpcb.ikcpSend_eq]
  exact bounded.congr rfl rfl rfl rfl

theorem recv (bounded : Bounded kcp) (len : Int) : Bounded (kcp.ikcpRecv len).2.2 := by
  by_cases result : 0 ≤ (kcp.ikcpRecv len).1
  · obtain ⟨-, -, -, probe, after⟩ := Ikcpcb.ikcpRecv_some result
    rw [after, Ikcpcb.moveReady_eq, Ikcpcb.takeFirst_eq]
    exact bounded.congr rfl rfl rfl rfl
  · rw [Ikcpcb.ikcpRecv_none (Int.not_le.1 result)]
    exact bounded

theorem setmtu (bounded : Bounded kcp) (mtu : Int32) : Bounded (kcp.ikcpSetmtu mtu).2 := by
  unfold Ikcpcb.ikcpSetmtu
  split
  next => exact bounded
  next accepted =>
    have least : ¬ mtu.toInt < 50 := fun short => accepted (Or.inl (Int32.lt_iff_toInt_lt.2 short))
    have same := toNat_toUInt32 (by omega : 0 ≤ mtu.toInt)
    have most := mtu.toInt_lt
    have range : 50 ≤ mtu.toUInt32.toNat ∧ mtu.toUInt32.toNat < 2 ^ 31 := by omega
    exact ⟨range, rfl, bounded.interval, bounded.minrto, bounded.rto, bounded.ssthresh, bounded.probeWait⟩

theorem call (bounded : Bounded kcp) {call : Call} {after : Ikcpcb} (taken : kcp.call call = some after) : Bounded after := by
  obtain ⟨⟨other, packing⟩, run, rfl⟩ := Option.map_eq_some_iff.1 taken
  cases call with
  | send buffer =>
    obtain ⟨rfl, rfl⟩ := Prod.mk.inj (Option.some.inj run)
    exact bounded.send buffer
  | recv len =>
    obtain ⟨rfl, rfl⟩ := Prod.mk.inj (Option.some.inj run)
    exact bounded.recv len
  | input data =>
    obtain ⟨⟨code, middle⟩, input, same⟩ := Option.map_eq_some_iff.1 run
    obtain ⟨rfl, rfl⟩ := Prod.mk.inj same
    exact ikcpInput_rule bounded (fun middle flag seg held _ => held.inputSegment flag seg)
      (fun middle flag prevUna held => held.finishInput flag prevUna) input
  | update current =>
    rw [Call.run, Option.some_inj] at run
    rw [← run]
    exact bounded.update current
  | flush =>
    rw [Call.run, Option.some_inj] at run
    rw [← run]
    exact bounded.flush
  | setmtu mtu =>
    obtain ⟨rfl, rfl⟩ := Prod.mk.inj (Option.some.inj run)
    exact bounded.setmtu mtu
  | interval time =>
    obtain ⟨rfl, rfl⟩ := Prod.mk.inj (Option.some.inj run)
    exact ⟨bounded.mtu, bounded.mss, boundInterval time, bounded.minrto, bounded.rto, bounded.ssthresh, bounded.probeWait⟩
  | nodelay mode time resend nc =>
    obtain ⟨rfl, rfl⟩ := Prod.mk.inj (Option.some.inj run)
    refine ⟨bounded.mtu, bounded.mss, ?_, ?_, bounded.rto, bounded.ssthresh, bounded.probeWait⟩
    · show 10 ≤ (if time ≥ 0 then (Ikcpcb.boundInterval time).toUInt32 else kcp.interval).toNat ∧
        (if time ≥ 0 then (Ikcpcb.boundInterval time).toUInt32 else kcp.interval).toNat ≤ 5000
      split
      next => exact boundInterval time
      next => exact bounded.interval
    · show (if mode ≥ 0 then if mode ≠ 0 then ikcpRtoNdl.toInt32 else ikcpRtoMin.toInt32 else kcp.rxMinrto) = _ ∨
        (if mode ≥ 0 then if mode ≠ 0 then ikcpRtoNdl.toInt32 else ikcpRtoMin.toInt32 else kcp.rxMinrto) = _
      split
      next =>
        split
        next => exact Or.inl rfl
        next => exact Or.inr rfl
      next => exact bounded.minrto
  | wndsize | stream =>
    obtain ⟨rfl, rfl⟩ := Prod.mk.inj (Option.some.inj run)
    exact ⟨bounded.mtu, bounded.mss, bounded.interval, bounded.minrto, bounded.rto, bounded.ssthresh, bounded.probeWait⟩

/-- In every run. -/
theorem run {conv : UInt32} {calls : List Call} (reached : exec Ikcpcb.call (ikcpCreate conv) calls = some kcp) :
    Bounded kcp :=
  (Run.of_exec reached).invariant Bounded (create conv) fun _ _ _ bounded taken => bounded.call taken

/-- Whatever comes in: options, the timeout, the threshold and the wait for a probe
stay within their bounds. -/
theorem throughout {conv : UInt32} {calls : List Call} (reached : exec Ikcpcb.call (ikcpCreate conv) calls = some kcp) :
    Bounded kcp ∧ kcp.mss.toNat + ikcpOverhead.toNat = kcp.mtu.toNat := by
  have bounded := run reached
  refine ⟨bounded, ?_⟩
  have least := bounded.mtu
  have overhead : ikcpOverhead.toNat = 24 := rfl
  rw [bounded.mss, UInt32.toNat_sub, overhead]
  omega

theorem throughout_options : ∃ kcp, exec Ikcpcb.call (ikcpCreate 7) [.nodelay 1 9 0 0, .setmtu 50, .interval 6000] = some kcp ∧
    kcp.interval = 5000 ∧ Bounded kcp ∧ kcp.mss.toNat + 24 = 50 :=
  ⟨_, rfl, rfl, @throughout _ 7 [.nodelay 1 9 0 0, .setmtu 50, .interval 6000] rfl⟩

end Bounded
end NetPrograms.Ikcp
