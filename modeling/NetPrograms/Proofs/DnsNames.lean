import NetPrograms.Dns.Response
import NetPrograms.Lib.Rfc1035
import NetPrograms.Lib.Walk

/-! `dns_parse_name` on the names of RFC 1035. It writes the labels with a dot
between each two, and a dot too many where a label is followed by a pointer to
the root. -/

namespace NetPrograms.Proofs.DnsNames
open Dns Rfc1035

/-- Some label of the name at the position is followed by a pointer, and the name
ends there. -/
inductive Dangling (message : List UInt8) : Nat → Prop where
  | here {pos high next} {label : Label} (here : Block.read message pos (label.bytes.length + 1) = some label.encode)
      (behind : message[pos + label.bytes.length + 1]? = some high) (pointer : 192 ≤ high.toNat)
      (root : NameAt message true (pos + label.bytes.length + 1) [] next) : Dangling message pos
  | label {pos} {label : Label} (here : Block.read message pos (label.bytes.length + 1) = some label.encode)
      (rest : Dangling message (pos + label.bytes.length + 1)) : Dangling message pos
  | pointer {pos high low} (first : message[pos]? = some high) (tag : 192 ≤ high.toNat)
      (second : message[pos + 1]? = some low)
      (target : Dangling message ((high.toNat - 192) * 256 + low.toNat)) : Dangling message pos

theorem isPointer_iff (byte : UInt8) : isPointer byte = true ↔ 192 ≤ byte.toNat := by
  have all : ∀ n : Fin 256, isPointer (UInt8.ofFin n) = true ↔ 192 ≤ n.val := by decide +kernel
  exact all byte.toFin

theorem pointerOffset_eq {high : UInt8} (tag : 192 ≤ high.toNat) (low : UInt8) :
    pointerOffset high low = (high.toNat - 192) * 256 + low.toNat := by
  have below := high.toNat_lt
  have masked : high.toNat &&& 0x3F = high.toNat - 192 := by
    rw [Nat.and_two_pow_sub_one_eq_mod high.toNat 6]
    omega
  rw [pointerOffset, masked, ← Nat.shiftLeft_add_eq_or_of_lt low.toNat_lt, Nat.shiftLeft_eq]

/-- Where the loop of `dns_parse_name` is next. -/
def hop (chunk : List UInt8) (pos : Nat) : Option (Option Nat) :=
  chunk[pos]?.bind fun flag =>
    if flag = 0 then some none
    else if isPointer flag then chunk[pos + 1]?.map fun second => some (pointerOffset flag second)
    else some (some (pos + 1 + flag.toNat))

/-- What the loop writes from a position on. -/
inductive Reads (chunk : List UInt8) : Nat → List UInt8 → Prop where
  | root {pos} (zero : chunk[pos]? = some 0) : Reads chunk pos []
  | label {pos flag label next text} (here : chunk[pos]? = some flag) (some_ : flag ≠ 0) (plain : ¬ isPointer flag)
      (bytes : Block.read chunk (pos + 1) flag.toNat = some label) (behind : chunk[pos + 1 + flag.toNat]? = some next)
      (rest : Reads chunk (pos + 1 + flag.toNat) text) :
      Reads chunk pos (label ++ ((if next ≠ 0 then [dot] else []) ++ text))
  | pointer {pos high low text} (first : chunk[pos]? = some high) (some_ : high ≠ 0) (tag : isPointer high)
      (second : chunk[pos + 1]? = some low) (target : Reads chunk (pointerOffset high low) text) : Reads chunk pos text

section
variable {chunk text : List UInt8} {pos : Nat}

theorem Reads.walk (reads : Reads chunk pos text) : ∃ steps, Walk (hop chunk) pos steps := by
  induction reads with
  | root zero => exact ⟨1, .stop (by simp [hop, zero])⟩
  | label here some_ plain _ _ _ ih =>
    obtain ⟨steps, walk⟩ := ih
    exact ⟨steps + 1, .go (by simp [hop, here, some_, plain]) walk⟩
  | pointer first some_ tag second _ ih =>
    obtain ⟨steps, walk⟩ := ih
    exact ⟨steps + 1, .go (by simp [hop, first, some_, tag, second]) walk⟩

theorem hop_inside (pos : Nat) (on : (hop chunk pos).isSome) : pos < chunk.length := by
  by_contra outside
  have none : chunk[pos]? = none := List.getElem?_eq_none (by omega)
  simp [hop, none] at on

theorem parseNameFrom_label {flag next : UInt8} {label : List UInt8} (here : chunk[pos]? = some flag) (some_ : flag ≠ 0)
    (plain : ¬ isPointer flag) (bytes : Block.read chunk (pos + 1) flag.toNat = some label)
    (behind : chunk[pos + 1 + flag.toNat]? = some next) (out : Buffer UInt8 128) {len : Nat} (fuel : Nat)
    (room : len + (label ++ if next ≠ 0 then [dot] else []).length ≤ 128) :
    ∃ written, dnsParseNameFrom chunk pos out len (fuel + 1) =
        dnsParseNameFrom chunk (pos + 1 + flag.toNat) written (len + (label ++ if next ≠ 0 then [dot] else []).length) fuel ∧
      written.cells = Block.overlay out.cells len (label ++ if next ≠ 0 then [dot] else []) := by
  have length : label.length = flag.toNat := by
    obtain ⟨inside, cut⟩ := Block.read_eq_some bytes
    rw [← cut, Block.slice_length]
    omega
  rw [List.length_append] at room
  obtain ⟨labelled, wrote, cells⟩ := Buffer.write_of_le out len label (by omega)
  simp only [dnsParseNameFrom, here, some_, plain, bytes, wrote, behind, Option.bind_eq_bind, Option.bind_some, if_false,
    Bool.false_eq_true]
  split
  next goesOn =>
    rw [if_pos goesOn, List.length_singleton] at room
    obtain ⟨dotted, wroteDot, dots⟩ := Buffer.write_of_le labelled (len + flag.toNat) [dot]
      (by rw [List.length_singleton]; omega)
    have inside : len ≤ out.cells.length := by rw [out.size]; omega
    refine ⟨dotted, ?_, ?_⟩
    · rw [wroteDot, Option.bind_some, List.length_append, length, List.length_singleton, Nat.add_assoc len]
    · rw [dots, cells, ← length]
      exact Block.overlay_overlay inside
  next => exact ⟨labelled, by rw [List.append_nil, length], by rw [cells, List.append_nil]⟩

theorem parseNameFrom_eq (reads : Reads chunk pos text) {steps fuel len : Nat} (walk : Walk (hop chunk) pos steps)
    (enough : steps ≤ fuel) (out : Buffer UInt8 128) (room : len + text.length ≤ 128) :
    ∃ after, dnsParseNameFrom chunk pos out len fuel = some (after, len + text.length) ∧
      after.cells = Block.overlay out.cells len text := by
  induction reads generalizing steps fuel len out with
  | root zero =>
    cases fuel with
    | zero => cases walk <;> cases enough
    | succ fuel =>
      refine ⟨out, by simp [dnsParseNameFrom, zero], ?_⟩
      simp [Block.overlay]
  | @label pos flag label next text here some_ plain bytes behind rest ih =>
    cases walk with
    | stop last => simp [hop, here, some_, plain] at last
    | @go _ other left on walk =>
      have same : pos + 1 + flag.toNat = other := by simpa [hop, here, some_, plain] using on
      subst same
      rw [← List.append_assoc, List.length_append] at room ⊢
      cases fuel with
      | zero => cases enough
      | succ fuel =>
        have fits : len + (label ++ if next ≠ 0 then [dot] else []).length ≤ 128 := by omega
        obtain ⟨written, turn, cells⟩ := parseNameFrom_label here some_ plain bytes behind out fuel fits
        have rest : len + (label ++ if next ≠ 0 then [dot] else []).length + text.length ≤ 128 := by omega
        obtain ⟨after, parsed, more⟩ := ih walk (Nat.le_of_succ_le_succ enough) written rest
        have inside : len ≤ out.cells.length := by rw [out.size]; omega
        refine ⟨after, ?_, ?_⟩
        · rw [turn, parsed, Nat.add_assoc]
        · rw [more, cells]
          exact Block.overlay_overlay inside
  | @pointer pos high low text first some_ tag second target ih =>
    cases walk with
    | stop last => simp [hop, first, some_, tag, second] at last
    | @go _ other left on walk =>
      have same : pointerOffset high low = other := by simpa [hop, first, some_, tag, second] using on
      subst same
      cases fuel with
      | zero => cases enough
      | succ fuel =>
        obtain ⟨after, parsed, cells⟩ := ih walk (Nat.le_of_succ_le_succ enough) out room
        refine ⟨after, ?_, cells⟩
        simp only [dnsParseNameFrom, first, some_, tag, second, Option.bind_eq_bind, Option.bind_some, if_true, if_false]
        exact parsed

theorem Reads.append (reads : Reads chunk pos text) (back : List UInt8) : Reads (chunk ++ back) pos text := by
  induction reads with
  | root zero => exact .root (Block.cell_append zero back)
  | label here some_ plain bytes behind _ ih =>
    exact .label (Block.cell_append here back) some_ plain (Block.read_append bytes back)
      (Block.cell_append behind back) ih
  | pointer first some_ tag second _ ih =>
    exact .pointer (Block.cell_append first back) some_ tag (Block.cell_append second back) ih

/-- A name that is read fits the fuel of `dns_parse_name`. -/
theorem parseName_eq (reads : Reads chunk pos text) (room : text.length ≤ 128) :
    ∃ after, dnsParseName chunk pos (Buffer.fill 0) 0 = some (after, text.length) ∧
      after.cells = text ++ List.replicate (128 - text.length) 0 := by
  obtain ⟨steps, walk⟩ := reads.walk
  obtain ⟨after, parsed, cells⟩ := parseNameFrom_eq reads walk (walk.steps_le hop_inside) (Buffer.fill 0)
    (show 0 + text.length ≤ 128 by omega)
  rw [Nat.zero_add] at parsed
  refine ⟨after, parsed, ?_⟩
  rw [cells, Block.overlay_zero, Buffer.fill, List.drop_replicate]

end

section
variable {message : List UInt8} {pos next : Nat} {name : Name} {label : Label}

theorem label_plain (here : Block.read message pos (label.bytes.length + 1) = some label.encode) :
    ¬ isPointer (UInt8.ofNat label.bytes.length) := by
  rw [isPointer_iff]
  exact label_not_pointer here (label_byte here)

/-- A name is empty where its first byte says so, or points to an empty name. -/
theorem first_byte (found : NameAt message true pos name next) :
    ∃ byte, message[pos]? = some byte ∧ (byte = 0 → name = []) ∧ (byte ≠ 0 → name = [] → 192 ≤ byte.toNat) := by
  cases found with
  | root zero => exact ⟨0, zero, fun _ => rfl, fun other => absurd rfl other⟩
  | @label _ label _ _ here => exact ⟨_, label_byte here, fun zero => absurd zero label.length_ne_zero, nofun⟩
  | pointer _ first tag => exact ⟨_, first, fun zero => absurd zero (tag_ne_zero tag), fun _ _ => tag⟩

theorem dangling_label (here : Block.read message pos (label.bytes.length + 1) = some label.encode) :
    Dangling message pos ↔ (∃ high next, message[pos + label.bytes.length + 1]? = some high ∧ 192 ≤ high.toNat ∧
      NameAt message true (pos + label.bytes.length + 1) [] next) ∨ Dangling message (pos + label.bytes.length + 1) := by
  constructor
  · intro dangling
    cases dangling with
    | here again behind pointer root =>
      obtain rfl := label_unique here again
      exact Or.inl ⟨_, _, behind, pointer, root⟩
    | label again rest =>
      obtain rfl := label_unique here again
      exact Or.inr rest
    | pointer first tag => exact absurd tag (label_not_pointer here first)
  · intro either
    rcases either with pointer | rest
    · obtain ⟨high, next, behind, tag, root⟩ := pointer
      exact .here here behind tag root
    · exact .label here rest

theorem dangling_pointer {high low : UInt8} (first : message[pos]? = some high) (tag : 192 ≤ high.toNat)
    (second : message[pos + 1]? = some low) :
    Dangling message pos ↔ Dangling message ((high.toNat - 192) * 256 + low.toNat) := by
  constructor
  · intro dangling
    cases dangling with
    | here label | label label => exact absurd tag (label_not_pointer label first)
    | pointer first' _ second' target =>
      rw [first] at first'
      rw [second] at second'
      cases first'
      cases second'
      exact target
  · exact .pointer first tag second

theorem dangling_nonempty (dangling : Dangling message pos) (found : NameAt message true pos name next) : name ≠ [] := by
  induction dangling generalizing name next with
  | here label | label label =>
    intro empty
    cases found with
    | root zero => exact absurd zero (label_not_root label)
    | label => cases empty
    | pointer _ first tag => exact absurd tag (label_not_pointer label first)
  | pointer first tag second _ ih =>
    cases found with
    | root zero => exact absurd (Option.some.inj (first.symm.trans zero)) (tag_ne_zero tag)
    | label => exact List.cons_ne_nil _ _
    | pointer _ first' _ second' target =>
      rw [first] at first'
      rw [second] at second'
      cases first'
      cases second'
      exact ih target

theorem reads_name (found : NameAt message true pos name next) :
    ∃ text, Reads message pos text ∧ (¬ Dangling message pos ∧ text = name.text ∨
      Dangling message pos ∧ text = name.text ++ [dot]) := by
  induction found with
  | @root pos zero =>
    refine ⟨[], .root zero, Or.inl ⟨?_, rfl⟩⟩
    intro dangling
    exact absurd rfl (dangling_nonempty dangling (.root zero))
  | @label pos label name next here rest ih =>
    obtain ⟨text, reads, spelled⟩ := ih
    obtain ⟨byte, behind, ended, pointer⟩ := first_byte rest
    have first := label_byte here
    have length := label.length_byte
    have plain := label_plain here
    have bytes := label_bytes here
    have position : pos + label.bytes.length + 1 = pos + 1 + (UInt8.ofNat label.bytes.length).toNat := by omega
    rw [← length] at bytes
    have written := Reads.label first label.length_ne_zero plain bytes (position ▸ behind) (position ▸ reads)
    refine ⟨_, written, ?_⟩
    rw [dangling_label here]
    by_cases empty : name = []
    · subst empty
      have quiet : ¬ Dangling message (pos + label.bytes.length + 1) :=
        fun dangling => dangling_nonempty dangling rest rfl
      obtain rfl : text = [] := by
        rcases spelled with plain | dangling
        · exact plain.2
        · exact absurd dangling.1 quiet
      by_cases zero : byte = 0
      · refine Or.inl ⟨?_, by simp [zero]⟩
        intro either
        obtain ⟨high, _, other, tag, _⟩ := either.resolve_right quiet
        rw [behind, zero] at other
        exact absurd (Option.some.inj other).symm (tag_ne_zero tag)
      · exact Or.inr ⟨Or.inl ⟨byte, next, behind, pointer zero rfl, rest⟩, by simp [zero]⟩
    · obtain ⟨second, more, rfl⟩ := List.exists_cons_of_ne_nil empty
      have on : byte ≠ 0 := fun zero => empty (ended zero)
      have same : (∃ high next, message[pos + label.bytes.length + 1]? = some high ∧ 192 ≤ high.toNat ∧
          NameAt message true (pos + label.bytes.length + 1) [] next) ∨
          Dangling message (pos + label.bytes.length + 1) ↔ Dangling message (pos + label.bytes.length + 1) := by
        apply or_iff_right
        intro root
        obtain ⟨_, _, _, _, none⟩ := root
        exact empty (rest.unique none).1
      rw [same, Name.text_cons]
      simp only [on, ne_eq, not_false_eq_true, if_true, List.append_assoc, List.cons_append, List.nil_append]
      rcases spelled with plain | dangling
      · exact Or.inl ⟨plain.1, by rw [plain.2]; rfl⟩
      · exact Or.inr ⟨dangling.1, by rw [dangling.2]; rfl⟩
  | @pointer pos high low name next _ first tag second target ih =>
    obtain ⟨text, reads, spelled⟩ := ih
    rw [← pointerOffset_eq tag] at reads
    refine ⟨text, .pointer first (tag_ne_zero tag) ((isPointer_iff high).mpr tag) second reads, ?_⟩
    rwa [dangling_pointer first tag second]

end
end NetPrograms.Proofs.DnsNames
