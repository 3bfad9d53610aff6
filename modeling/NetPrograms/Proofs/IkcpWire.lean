import NetPrograms.Proofs.IkcpViews

/-! The segments in a datagram. `ikcp_input` takes a datagram of encoded segments
apart into these segments, and in any other bytes it takes the segments before the
first that it cannot accept. -/

namespace NetPrograms.Ikcp

/-! Numbers -/

theorem ikcpDecode8u_encode (c : UInt8) (rest : List UInt8) : ikcpDecode8u (ikcpEncode8u c ++ rest) = some (c, rest) := rfl

theorem ikcpDecode16u_encode (w : UInt16) (rest : List UInt8) :
    ikcpDecode16u (ikcpEncode16u w ++ rest) = some (w, rest) := by
  have length : (ikcpEncode16u w).length = 2 := littleEndian_length 2 _
  have there : ¬ (ikcpEncode16u w ++ rest).length < 2 := by
    rw [List.length_append, length]
    omega
  rw [ikcpDecode16u, if_neg there, List.take_left' length, List.drop_left' length, ikcpEncode16u,
    ofLittleEndian_littleEndian w.toNat_lt, UInt16.ofNat_toNat]

theorem ikcpDecode32u_encode (l : UInt32) (rest : List UInt8) :
    ikcpDecode32u (ikcpEncode32u l ++ rest) = some (l, rest) := by
  have length : (ikcpEncode32u l).length = 4 := littleEndian_length 4 _
  have there : ¬ (ikcpEncode32u l ++ rest).length < 4 := by
    rw [List.length_append, length]
    omega
  rw [ikcpDecode32u, if_neg there, List.take_left' length, List.drop_left' length, ikcpEncode32u,
    ofLittleEndian_littleEndian l.toNat_lt, UInt32.ofNat_toNat]

theorem ikcpDecode8u_some {p rest : List UInt8} {c : UInt8} (decoded : ikcpDecode8u p = some (c, rest)) :
    p = ikcpEncode8u c ++ rest := by
  cases p with
  | nil => exact absurd decoded (by simp [ikcpDecode8u])
  | cons first p =>
    obtain ⟨rfl, rfl⟩ : first = c ∧ p = rest := by simpa [ikcpDecode8u] using decoded
    rfl

theorem ikcpDecode16u_some {p rest : List UInt8} {w : UInt16} (decoded : ikcpDecode16u p = some (w, rest)) :
    p = ikcpEncode16u w ++ rest := by
  unfold ikcpDecode16u at decoded
  split at decoded
  next => exact absurd decoded (by simp)
  next there =>
    obtain ⟨rfl, rfl⟩ := Prod.mk.inj (Option.some.inj decoded)
    have length : (p.take 2).length = 2 := by
      rw [List.length_take]
      omega
    have small := ofLittleEndian_lt (p.take 2)
    have back := littleEndian_ofLittleEndian (p.take 2)
    rw [length] at small back
    rw [ikcpEncode16u, UInt16.toNat_ofNat_of_lt' small, back, List.take_append_drop]

theorem ikcpDecode32u_some {p rest : List UInt8} {l : UInt32} (decoded : ikcpDecode32u p = some (l, rest)) :
    p = ikcpEncode32u l ++ rest := by
  unfold ikcpDecode32u at decoded
  split at decoded
  next => exact absurd decoded (by simp)
  next there =>
    obtain ⟨rfl, rfl⟩ := Prod.mk.inj (Option.some.inj decoded)
    have length : (p.take 4).length = 4 := by
      rw [List.length_take]
      omega
    have small := ofLittleEndian_lt (p.take 4)
    have back := littleEndian_ofLittleEndian (p.take 4)
    rw [length] at small back
    rw [ikcpEncode32u, UInt32.toNat_ofNat_of_lt' small, back, List.take_append_drop]

/-! Headers -/

@[simp] theorem ikcpEncodeSeg_length (seg : Segment) : (ikcpEncodeSeg seg).length = 24 := by
  simp [ikcpEncodeSeg, ikcpEncode8u, ikcpEncode16u, ikcpEncode32u]

theorem encodeSegment_length (seg : Segment) : (encodeSegment seg).length = seg.size := by
  rw [encodeSegment, List.length_append, ikcpEncodeSeg_length]
  rfl

namespace Segment

/-- The segment as it arrives, with the fields that a header has no room for cut. -/
def onWire (seg : Segment) : Segment :=
  { conv := seg.conv, cmd := seg.cmd.toUInt8.toUInt32, frg := seg.frg.toUInt8.toUInt32, wnd := seg.wnd.toUInt16.toUInt32,
    ts := seg.ts, sn := seg.sn, una := seg.una, data := seg.data }

theorem onWire_onWire (seg : Segment) : seg.onWire.onWire = seg.onWire := by
  rw [onWire, onWire, UInt8.toUInt8_toUInt32, UInt8.toUInt8_toUInt32, UInt16.toUInt16_toUInt32]

/-- What the checks of `ikcp_input` let through. -/
structure Acceptable (conv : UInt32) (seg : Segment) : Prop where
  conv : seg.conv = conv
  cmd : knownCmd seg.cmd
  data : seg.data.length < 2 ^ 31

theorem knownCmd_onWire {cmd : UInt32} (known : knownCmd cmd) : cmd.toUInt8.toUInt32 = cmd := by
  rcases known with rfl | rfl | rfl | rfl <;> rfl

theorem len_toNat {conv : UInt32} {seg : Segment} (acceptable : Acceptable conv seg) : seg.len.toNat = seg.data.length :=
  UInt32.toNat_ofNat_of_lt' (acceptable.data.trans (by decide))

theorem len_nonneg {conv : UInt32} {seg : Segment} (acceptable : Acceptable conv seg) : ¬ seg.len.toInt32 < 0 := by
  have length := len_toNat acceptable
  have small := acceptable.data
  rw [Int32.lt_iff_toInt_lt, Serial.toInt_toInt32_of_lt (length ▸ small)]
  exact Int.not_lt.2 (Int.natCast_nonneg _)

end Segment

theorem decodeFields_encode (seg : Segment) (rest : List UInt8) :
    decodeFields seg.conv
      (ikcpEncode8u seg.cmd.toUInt8 ++ (ikcpEncode8u seg.frg.toUInt8 ++ (ikcpEncode16u seg.wnd.toUInt16 ++
        (ikcpEncode32u seg.ts ++ (ikcpEncode32u seg.sn ++ (ikcpEncode32u seg.una ++ (ikcpEncode32u seg.len ++ rest))))))) =
      some ({ seg.onWire with data := [] }, seg.len, rest) := by
  simp only [decodeFields, ikcpDecode8u_encode, ikcpDecode16u_encode, ikcpDecode32u_encode, Option.bind_eq_bind,
    Option.bind_some]
  rfl

theorem checkSegment_data {conv : UInt32} {seg : Segment} (acceptable : seg.Acceptable conv) (rest : List UInt8) {size : Int}
    (enough : (seg.data.length : Int) ≤ size) :
    checkSegment size { seg.onWire with data := [] } seg.len (seg.data ++ rest) = .segment seg.onWire rest := by
  have length := Segment.len_toNat acceptable
  have known : knownCmd seg.onWire.cmd := by
    show knownCmd seg.cmd.toUInt8.toUInt32
    rw [Segment.knownCmd_onWire acceptable.cmd]
    exact acceptable.cmd
  have long : ¬ (size < seg.len.toNat ∨ seg.len.toInt32 < 0) := by
    rw [length, not_or]
    exact ⟨by omega, Segment.len_nonneg acceptable⟩
  have there : ¬ (seg.data ++ rest).length < seg.len.toNat := by
    rw [length, List.length_append]
    omega
  rw [checkSegment, if_neg long, if_neg (not_not_intro known), if_neg there, length, List.take_left, List.drop_left]
  rfl

theorem decodeSegment_encode {conv : UInt32} {seg : Segment} (acceptable : seg.Acceptable conv) (rest : List UInt8) {size : Int}
    (enough : ((encodeSegment seg).length : Int) ≤ size) :
    decodeSegment conv (encodeSegment seg ++ rest) size = .segment seg.onWire rest := by
  have length := encodeSegment_length seg
  have overhead : ikcpOverhead.toNat = 24 := rfl
  rw [Segment.size, overhead] at length
  have whole : ¬ size < ikcpOverhead.toNat := by omega
  have split_ : encodeSegment seg ++ rest = ikcpEncode32u seg.conv ++ (ikcpEncode8u seg.cmd.toUInt8 ++
      (ikcpEncode8u seg.frg.toUInt8 ++ (ikcpEncode16u seg.wnd.toUInt16 ++ (ikcpEncode32u seg.ts ++
        (ikcpEncode32u seg.sn ++ (ikcpEncode32u seg.una ++ (ikcpEncode32u seg.len ++ (seg.data ++ rest)))))))) := by
    simp only [encodeSegment, ikcpEncodeSeg, List.append_assoc]
  rw [decodeSegment, if_neg whole, split_, ikcpDecode32u_encode]
  simp only [acceptable.conv, ne_eq, not_true_eq_false, if_false]
  rw [← acceptable.conv, decodeFields_encode]
  exact checkSegment_data acceptable rest (by omega)

/-! Datagrams -/

/-- The rounds of the loop for the segments of a datagram. -/
def inputSegments (kcp : Ikcpcb) (segs : List Segment) : Ikcpcb × Option UInt32 :=
  segs.foldl Ikcpcb.inputSegment (kcp, none)

theorem inputLoop_encode {state : Ikcpcb × Option UInt32} {segs : List Segment} {rest : List UInt8} {size : Int} {fuel : Nat}
    (acceptable : ∀ seg ∈ segs, seg.Acceptable state.1.conv) (long : segs.length ≤ fuel)
    (enough : ((encodeSegments segs).length : Int) ≤ size) :
    inputLoop fuel (encodeSegments segs ++ rest) size state =
      inputLoop (fuel - segs.length) rest (size - (encodeSegments segs).length)
        ((segs.map Segment.onWire).foldl Ikcpcb.inputSegment state) := by
  induction segs generalizing state size fuel with
  | nil => simp [encodeSegments]
  | cons seg segs ih =>
    obtain ⟨fuel, rfl⟩ := Nat.exists_eq_add_one_of_ne_zero (Nat.ne_of_gt (Nat.zero_lt_of_lt long))
    have first := acceptable seg List.mem_cons_self
    have head : encodeSegments (seg :: segs) ++ rest = encodeSegment seg ++ (encodeSegments segs ++ rest) := by
      simp [encodeSegments]
    have total : (encodeSegments (seg :: segs)).length = seg.size + (encodeSegments segs).length := by
      simp [encodeSegments, encodeSegment_length]
    have size_ : seg.onWire.size = seg.size := rfl
    have whole := encodeSegment_length seg
    rw [inputLoop, head, decodeSegment_encode first (encodeSegments segs ++ rest) (by omega)]
    simp only [size_]
    rw [ih]
    · rw [total, List.map_cons, List.foldl_cons, List.length_cons]
      congr 1
      · omega
      · omega
    · intro other member
      rw [Ikcpcb.inputSegment_conv]
      exact acceptable other (List.mem_cons_of_mem _ member)
    · simpa using long
    · omega

theorem inputLoop_ended {fuel : Nat} {data : List UInt8} {size : Int} {state : Ikcpcb × Option UInt32} (short : size < 24) :
    inputLoop fuel data size state = .ended state := by
  have overhead : size < ikcpOverhead.toNat := short
  cases fuel with
  | zero => rfl
  | succ fuel => simp only [inputLoop, decodeSegment, if_pos overhead]

theorem encodeSegments_length_ge (segs : List Segment) : 24 * segs.length ≤ (encodeSegments segs).length := by
  induction segs with
  | nil => exact Nat.zero_le _
  | cons seg segs ih =>
    have first : (encodeSegment seg).length = 24 + seg.data.length := encodeSegment_length seg
    have total : (encodeSegments (seg :: segs)).length = (encodeSegment seg).length + (encodeSegments segs).length := by
      simp [encodeSegments]
    rw [List.length_cons]
    omega

/-- A datagram is taken apart into the segments that it was made of. -/
theorem ikcpInput_encode (kcp : Ikcpcb) {segs : List Segment} (some_ : segs ≠ [])
    (acceptable : ∀ seg ∈ segs, seg.Acceptable kcp.conv) :
    ikcpInput kcp (encodeSegments segs) (encodeSegments segs).length =
      some (0, Ikcpcb.finishInput kcp.sndUna (inputSegments kcp (segs.map Segment.onWire))) := by
  have least := encodeSegments_length_ge segs
  have one := List.length_pos_iff.2 some_
  have whole : ¬ ((encodeSegments segs).length : Int) < ikcpOverhead.toNat := by
    show ¬ ((encodeSegments segs).length : Int) < (24 : Nat)
    omega
  have loop := @inputLoop_encode (kcp, none) segs [] (encodeSegments segs).length ((encodeSegments segs).length + 1) acceptable
    (by omega) le_rfl
  rw [List.append_nil, sub_self, inputLoop_ended (by decide : (0 : Int) < 24)] at loop
  rw [ikcpInput, if_neg whole, loop]
  rfl

/-! Any bytes -/

theorem decodeFields_some {conv len : UInt32} {data rest : List UInt8} {seg : Segment}
    (decoded : decodeFields conv data = some (seg, len, rest)) :
    seg.onWire = seg ∧ seg.data = [] ∧ seg.conv = conv ∧
      data = ikcpEncode8u seg.cmd.toUInt8 ++ (ikcpEncode8u seg.frg.toUInt8 ++ (ikcpEncode16u seg.wnd.toUInt16 ++
        (ikcpEncode32u seg.ts ++ (ikcpEncode32u seg.sn ++ (ikcpEncode32u seg.una ++ (ikcpEncode32u len ++ rest)))))) := by
  unfold decodeFields at decoded
  obtain ⟨⟨cmd, afterCmd⟩, one, decoded⟩ := Option.bind_eq_some_iff.1 decoded
  obtain ⟨⟨frg, afterFrg⟩, two, decoded⟩ := Option.bind_eq_some_iff.1 decoded
  obtain ⟨⟨wnd, afterWnd⟩, three, decoded⟩ := Option.bind_eq_some_iff.1 decoded
  obtain ⟨⟨ts, afterTs⟩, four, decoded⟩ := Option.bind_eq_some_iff.1 decoded
  obtain ⟨⟨sn, afterSn⟩, five, decoded⟩ := Option.bind_eq_some_iff.1 decoded
  obtain ⟨⟨una, afterUna⟩, six, decoded⟩ := Option.bind_eq_some_iff.1 decoded
  obtain ⟨⟨length, afterLen⟩, seven, decoded⟩ := Option.bind_eq_some_iff.1 decoded
  obtain ⟨rfl, rfl, rfl⟩ : _ ∧ length = len ∧ afterLen = rest := by simpa using decoded
  refine ⟨by simp [Segment.onWire], rfl, rfl, ?_⟩
  rw [ikcpDecode8u_some one, ikcpDecode8u_some two, ikcpDecode16u_some three, ikcpDecode32u_some four,
    ikcpDecode32u_some five, ikcpDecode32u_some six, ikcpDecode32u_some seven]
  simp

theorem checkSegment_segment {size : Int} {header seg : Segment} {len : UInt32} {data rest : List UInt8}
    (checked : checkSegment size header len data = .segment seg rest) :
    (len.toNat : Int) ≤ size ∧ len.toNat < 2 ^ 31 ∧ knownCmd header.cmd ∧ len.toNat ≤ data.length ∧
      seg = { header with data := data.take len.toNat } ∧ rest = data.drop len.toNat := by
  unfold checkSegment at checked
  split at checked
  next => exact Decoded.noConfusion checked
  next small =>
    split at checked
    next => exact Decoded.noConfusion checked
    next known =>
      split at checked
      next => exact Decoded.noConfusion checked
      next there =>
        obtain ⟨rfl, rfl⟩ := Decoded.segment.inj checked
        obtain ⟨fits, positive⟩ := not_or.1 small
        have bound := len.toNat_lt
        rw [Int32.lt_iff_toInt_lt, Serial.toInt_toInt32] at positive
        change ¬ (_ : Int) < 0 at positive
        refine ⟨by omega, ?_, not_not.1 known, by omega, rfl, rfl⟩
        split at positive <;> omega

/-- What is accepted is the encoding of the segment that comes out. -/
theorem decodeSegment_segment {conv : UInt32} {data rest : List UInt8} {size : Int} {seg : Segment}
    (decoded : decodeSegment conv data size = .segment seg rest) :
    data = encodeSegment seg ++ rest ∧ seg.Acceptable conv ∧ seg.onWire = seg ∧ (seg.size : Int) ≤ size := by
  unfold decodeSegment at decoded
  split at decoded
  next => exact Decoded.noConfusion decoded
  next enough =>
    split at decoded
    next => exact Decoded.noConfusion decoded
    next first afterConv one =>
      split at decoded
      next => exact Decoded.noConfusion decoded
      next own =>
        split at decoded
        next => exact Decoded.noConfusion decoded
        next header len data two =>
          obtain ⟨wire, empty, same, fields⟩ := decodeFields_some two
          obtain ⟨fits, small, known, there, rfl, rfl⟩ := checkSegment_segment decoded
          have taken : (data.take len.toNat).length = len.toNat := by
            rw [List.length_take]
            omega
          have length : ({ header with data := data.take len.toNat } : Segment).len = len := by
            rw [Segment.len, taken, UInt32.ofNat_toNat]
          refine ⟨?_, ⟨same.trans (not_not.1 own), known, by rwa [taken]⟩, ?_, ?_⟩
          · rw [ikcpDecode32u_some one, fields, encodeSegment, ikcpEncodeSeg, length]
            simp only [List.append_assoc, List.take_append_drop, same]
          · have kept := congrArg (fun header : Segment => { header with data := data.take len.toNat }) wire
            exact kept
          · show ((24 + (data.take len.toNat).length : Nat) : Int) ≤ size
            change (len.toNat : Int) ≤ size - (24 : Nat) at fits
            omega

theorem ikcpDecode8u_there {p : List UInt8} (enough : 1 ≤ p.length) :
    ∃ c rest, ikcpDecode8u p = some (c, rest) ∧ rest.length + 1 = p.length := by
  cases p with
  | nil => exact absurd enough (by simp)
  | cons c rest => exact ⟨c, rest, rfl, rfl⟩

theorem ikcpDecode16u_there {p : List UInt8} (enough : 2 ≤ p.length) :
    ∃ w rest, ikcpDecode16u p = some (w, rest) ∧ rest.length + 2 = p.length := by
  refine ⟨_, _, if_neg (Nat.not_lt.2 enough), ?_⟩
  rw [List.length_drop]
  omega

theorem ikcpDecode32u_there {p : List UInt8} (enough : 4 ≤ p.length) :
    ∃ l rest, ikcpDecode32u p = some (l, rest) ∧ rest.length + 4 = p.length := by
  refine ⟨_, _, if_neg (Nat.not_lt.2 enough), ?_⟩
  rw [List.length_drop]
  omega

theorem decodeFields_there (conv : UInt32) {data : List UInt8} (enough : 20 ≤ data.length) :
    ∃ seg len rest, decodeFields conv data = some (seg, len, rest) ∧ rest.length + 20 = data.length := by
  obtain ⟨cmd, afterCmd, one, length1⟩ := ikcpDecode8u_there (p := data) (by omega)
  obtain ⟨frg, afterFrg, two, length2⟩ := ikcpDecode8u_there (p := afterCmd) (by omega)
  obtain ⟨wnd, afterWnd, three, length3⟩ := ikcpDecode16u_there (p := afterFrg) (by omega)
  obtain ⟨ts, afterTs, four, length4⟩ := ikcpDecode32u_there (p := afterWnd) (by omega)
  obtain ⟨sn, afterSn, five, length5⟩ := ikcpDecode32u_there (p := afterTs) (by omega)
  obtain ⟨una, afterUna, six, length6⟩ := ikcpDecode32u_there (p := afterSn) (by omega)
  obtain ⟨len, afterLen, seven, length7⟩ := ikcpDecode32u_there (p := afterUna) (by omega)
  refine ⟨{ conv, cmd := cmd.toUInt32, frg := frg.toUInt32, wnd := wnd.toUInt32, ts, sn, una }, len, afterLen, ?_, by omega⟩
  simp only [decodeFields, one, two, three, four, five, six, seven, Option.bind_eq_bind, Option.bind_some]

/-- How a round begins when the bytes are there. -/
theorem decodeSegment_cases (conv : UInt32) {data : List UInt8} {size : Int} (there : size ≤ data.length) :
    (size < 24 ∧ decodeSegment conv data size = .ended) ∨
      (24 ≤ size ∧ ∃ code < 0, decodeSegment conv data size = .refused code) ∨
      ∃ seg rest, decodeSegment conv data size = .segment seg rest := by
  by_cases short : size < ikcpOverhead.toNat
  · exact Or.inl ⟨short, if_pos short⟩
  · have enough : (24 : Nat) ≤ size := by
      change ¬ size < (24 : Nat) at short
      omega
    refine Or.inr ?_
    obtain ⟨first, afterConv, one, length1⟩ := ikcpDecode32u_there (by omega : 4 ≤ data.length)
    obtain ⟨header, len, afterLen, two, length2⟩ := decodeFields_there first (by omega : 20 ≤ afterConv.length)
    rw [decodeSegment, if_neg short, one]
    by_cases own : first = conv
    · simp only [own, ne_eq, not_true_eq_false, if_false]
      rw [← own, two]
      dsimp only
      rw [checkSegment]
      split
      next => exact Or.inl ⟨enough, -2, by decide, rfl⟩
      next small =>
        split
        next => exact Or.inl ⟨enough, -3, by decide, rfl⟩
        next =>
          have whole : ¬ afterLen.length < len.toNat := by
            have fits := (not_or.1 small).1
            change ¬ size - (24 : Nat) < len.toNat at fits
            omega
          rw [if_neg whole]
          exact Or.inr ⟨_, _, rfl⟩
    · simp only [ne_eq, own, not_false_eq_true, if_true]
      exact Or.inl ⟨enough, -1, by decide, rfl⟩

/-- The loop takes the acceptable segments at the head of the bytes. It ends there
regularly when no other header follows. -/
theorem inputLoop_parse {fuel : Nat} {data : List UInt8} {size : Int} {state : Ikcpcb × Option UInt32}
    (long : data.length < fuel) (there : size ≤ data.length) :
    ∃ segs rest, data = encodeSegments segs ++ rest ∧
      (∀ seg ∈ segs, seg.Acceptable state.1.conv ∧ seg.onWire = seg) ∧
      ((size < (encodeSegments segs).length + 24 ∧
          inputLoop fuel data size state = .ended (segs.foldl Ikcpcb.inputSegment state)) ∨
        ((encodeSegments segs).length + 24 ≤ size ∧ ∃ code < 0,
          inputLoop fuel data size state = .refused code (segs.foldl Ikcpcb.inputSegment state).1)) := by
  induction fuel generalizing data size state with
  | zero => exact absurd long (Nat.not_lt_zero _)
  | succ fuel ih =>
    rcases decodeSegment_cases state.1.conv there with ⟨short, ended⟩ | ⟨enough, code, negative, refused⟩ | ⟨seg, rest, decoded⟩
    · refine ⟨[], data, rfl, by simp, Or.inl ⟨by simpa [encodeSegments] using short, ?_⟩⟩
      simp only [inputLoop, ended, List.foldl_nil]
    · refine ⟨[], data, rfl, by simp, Or.inr ⟨by simpa [encodeSegments] using enough, code, negative, ?_⟩⟩
      simp only [inputLoop, refused, List.foldl_nil]
    · obtain ⟨split_, acceptable, wire, fits⟩ := decodeSegment_segment decoded
      have length := encodeSegment_length seg
      have least : 24 ≤ seg.size := Nat.le_add_right 24 _
      have total : data.length = seg.size + rest.length := by
        rw [split_, List.length_append, length]
      obtain ⟨segs, after, split_', all, result⟩ := @ih rest (size - seg.size) (Ikcpcb.inputSegment state seg) (by omega) (by omega)
      have more : (encodeSegments (seg :: segs)).length = seg.size + (encodeSegments segs).length := by
        simp [encodeSegments, length]
      have step : inputLoop (fuel + 1) data size state =
          inputLoop fuel rest (size - seg.size) (Ikcpcb.inputSegment state seg) := by
        simp only [inputLoop, decoded]
      refine ⟨seg :: segs, after, ?_, ?_, ?_⟩
      · rw [split_, split_']
        simp [encodeSegments]
      · intro other member
        rcases List.mem_cons.1 member with rfl | later
        · exact ⟨acceptable, wire⟩
        · have found := all other later
          rwa [Ikcpcb.inputSegment_conv] at found
      · rw [step, more, List.foldl_cons]
        rcases result with ⟨short, ended⟩ | ⟨enough, refused⟩
        · exact Or.inl ⟨by omega, ended⟩
        · exact Or.inr ⟨by omega, refused⟩

/-- The acceptable segments at the head are taken. -/
theorem ikcpInput_head (kcp : Ikcpcb) (data : List UInt8) :
    ∃ segs rest, data = encodeSegments segs ++ rest ∧ (∀ seg ∈ segs, seg.Acceptable kcp.conv ∧ seg.onWire = seg) ∧
      ((24 ≤ data.length ∧ rest.length < 24 ∧
          ikcpInput kcp data data.length = some (0, Ikcpcb.finishInput kcp.sndUna (inputSegments kcp segs))) ∨
        (¬ (24 ≤ data.length ∧ rest.length < 24) ∧ ∃ code < 0,
          ikcpInput kcp data data.length = some (code, (inputSegments kcp segs).1))) := by
  by_cases short : (data.length : Int) < ikcpOverhead.toNat
  · refine ⟨[], data, rfl, by simp, Or.inr ⟨?_, -1, by decide, if_pos short⟩⟩
    change (data.length : Int) < (24 : Nat) at short
    omega
  · obtain ⟨segs, rest, split_, all, result⟩ := @inputLoop_parse (data.length + 1) data data.length (kcp, none)
      (Nat.lt_succ_self _) le_rfl
    have total : data.length = (encodeSegments segs).length + rest.length := by
      rw [← List.length_append, ← split_]
    refine ⟨segs, rest, split_, all, ?_⟩
    rw [ikcpInput, if_neg short]
    change ¬ (data.length : Int) < (24 : Nat) at short
    rcases result with ⟨little, ended⟩ | ⟨much, code, negative, refused⟩
    · rw [ended]
      exact Or.inl ⟨by omega, by omega, rfl⟩
    · rw [refused]
      exact Or.inr ⟨by omega, code, negative, rfl⟩

/-- A datagram that is read to its own end is never read past it. -/
theorem ikcpInput_some (kcp : Ikcpcb) (data : List UInt8) : ∃ code after, ikcpInput kcp data data.length = some (code, after) := by
  obtain ⟨segs, rest, -, -, ⟨-, -, same⟩ | ⟨-, code, -, same⟩⟩ := ikcpInput_head kcp data
  · exact ⟨0, _, same⟩
  · exact ⟨code, _, same⟩

/-- What the segments of a datagram keep, and what follows them, is kept by
`ikcp_input`, whatever comes in. -/
theorem ikcpInput_rule {P : Ikcpcb → Prop} {kcp after : Ikcpcb} {data : List UInt8} {code : Int} (initial : P kcp)
    (segment : ∀ kcp flag seg, P kcp → seg.onWire = seg → P (Ikcpcb.inputSegment (kcp, flag) seg).1)
    (finish : ∀ kcp flag prevUna, P kcp → P (Ikcpcb.finishInput prevUna (kcp, flag)))
    (input : ikcpInput kcp data data.length = some (code, after)) : P after := by
  have rounds : ∀ (segs : List Segment) (state : Ikcpcb × Option UInt32), P state.1 → (∀ seg ∈ segs, seg.onWire = seg) →
      P (segs.foldl Ikcpcb.inputSegment state).1 := by
    intro segs
    induction segs with
    | nil => exact fun state held _ => held
    | cons seg segs ih =>
      intro state held wire
      exact ih _ (segment state.1 state.2 seg held (wire seg List.mem_cons_self))
        fun seg member => wire seg (List.mem_cons_of_mem _ member)
  obtain ⟨segs, rest, -, all, result⟩ := ikcpInput_head kcp data
  have held := rounds segs (kcp, none) initial fun seg member => (all seg member).2
  rcases result with ⟨-, -, same⟩ | ⟨-, code, -, same⟩
  all_goals
    rw [same] at input
    obtain ⟨rfl, rfl⟩ := Prod.mk.inj (Option.some.inj input)
  · exact finish _ _ _ held
  · exact held

end NetPrograms.Ikcp
