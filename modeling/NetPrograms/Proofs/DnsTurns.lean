import NetPrograms.Dns.Turns
import NetPrograms.Proofs.DnsNames

/-! The turns of `dns_parse_name`: where they lead, and what they have written when
they end. -/

namespace NetPrograms.Proofs.DnsTurns
open Dns Block Rfc1035 DnsNames

/-- The loop goes on from one position at the other, behind a label or where a pointer
points. -/
inductive Leads (chunk : List UInt8) : Nat → Nat → Prop where
  | label {pos flag} (here : chunk[pos]? = some flag) (some_ : flag ≠ 0) (plain : ¬ isPointer flag) :
      Leads chunk pos (pos + 1 + flag.toNat)
  | pointer {pos high low} (first : chunk[pos]? = some high) (some_ : high ≠ 0) (tag : isPointer high)
      (second : chunk[pos + 1]? = some low) : Leads chunk pos (pointerOffset high low)

/-- What is written for the name at a position of `block`, whose pointers point into
`chunk`. -/
inductive Spells (chunk : List UInt8) : List UInt8 → Nat → List UInt8 → Prop where
  | root {block pos} (zero : block[pos]? = some 0) : Spells chunk block pos []
  | label {block pos flag label next text} (here : block[pos]? = some flag) (some_ : flag ≠ 0) (plain : ¬ isPointer flag)
      (bytes : Block.read block (pos + 1) flag.toNat = some label) (behind : block[pos + 1 + flag.toNat]? = some next)
      (rest : Spells chunk block (pos + 1 + flag.toNat) text) :
      Spells chunk block pos (label ++ ((if next ≠ 0 then [dot] else []) ++ text))
  | pointer {block pos high low text} (first : block[pos]? = some high) (some_ : high ≠ 0) (tag : isPointer high)
      (second : block[pos + 1]? = some low) (target : Spells chunk chunk (pointerOffset high low) text) :
      Spells chunk block pos text

variable {chunk block text : List UInt8} {ptr : Nat}

theorem reads_of_spells (spells : Spells chunk block ptr text) (same : block = chunk) : Reads chunk ptr text := by
  induction spells with
  | root zero => exact .root (same ▸ zero)
  | label here some_ plain bytes behind _ ih =>
    subst same
    exact .label here some_ plain bytes behind (ih rfl)
  | pointer first some_ tag second _ ih =>
    subst same
    exact .pointer first some_ tag second (ih rfl)

/-- What a label is written as, with the byte behind it. -/
def written (label : List UInt8) (next : UInt8) : List UInt8 := label ++ if next ≠ 0 then [dot] else []

theorem leads_zero (zero : block[ptr]? = some 0) {next : Nat} : ¬ Leads block ptr next := by
  intro leads
  cases leads with
  | label here some_ => exact some_ (Option.some.inj (here.symm.trans zero))
  | pointer first some_ => exact some_ (Option.some.inj (first.symm.trans zero))

theorem leads_label {flag : UInt8} (here : block[ptr]? = some flag) (plain : ¬ isPointer flag) {next : Nat}
    (leads : Leads block ptr next) : next = ptr + 1 + flag.toNat := by
  cases leads with
  | label again =>
    obtain rfl := Option.some.inj (here.symm.trans again)
    rfl
  | pointer first _ tag =>
    obtain rfl := Option.some.inj (here.symm.trans first)
    exact absurd tag plain

theorem leads_pointer {high : UInt8} (first : block[ptr]? = some high) (tag : isPointer high) {next : Nat}
    (leads : Leads block ptr next) : ∃ low, block[ptr + 1]? = some low ∧ next = pointerOffset high low := by
  cases leads with
  | label here _ plain =>
    obtain rfl := Option.some.inj (first.symm.trans here)
    exact absurd tag plain
  | pointer again _ _ second =>
    obtain rfl := Option.some.inj (first.symm.trans again)
    exact ⟨_, second, rfl⟩

theorem read_length {flag : UInt8} {label : List UInt8} (bytes : Block.read block (ptr + 1) flag.toNat = some label) :
    label.length = flag.toNat := by
  obtain ⟨inside, cut⟩ := Block.read_eq_some bytes
  rw [← cut, Block.slice_length]
  omega

theorem turn_root (zero : block[ptr]? = some 0) (turns : Nat) (out : Nat → UInt8) (pos len : Nat) :
    dnsParseNameTurns chunk (turns + 1) block ptr out pos len = .returned (out, len) := by
  simp only [dnsParseNameTurns, zero, Course.ofRead_some, Course.bind_eq, Course.returned_bind, if_true]
  rfl

theorem turn_pointer {high low : UInt8} (first : block[ptr]? = some high) (some_ : high ≠ 0) (tag : isPointer high)
    (second : block[ptr + 1]? = some low) (turns : Nat) (out : Nat → UInt8) (pos len : Nat) :
    dnsParseNameTurns chunk (turns + 1) block ptr out pos len =
      dnsParseNameTurns chunk turns chunk (pointerOffset high low) out len len := by
  simp only [dnsParseNameTurns, first, some_, tag, second, Course.ofRead_some, Course.bind_eq, Course.returned_bind,
    if_true, if_false]

theorem turn_label {flag next : UInt8} {label : List UInt8} (here : block[ptr]? = some flag) (some_ : flag ≠ 0)
    (plain : ¬ isPointer flag) (bytes : Block.read block (ptr + 1) flag.toNat = some label)
    (behind : block[ptr + 1 + flag.toNat]? = some next) (turns : Nat) (out : Nat → UInt8) (pos len : Nat) :
    dnsParseNameTurns chunk (turns + 1) block ptr out pos len =
      dnsParseNameTurns chunk turns block (ptr + 1 + flag.toNat) (store out pos (written label next))
        (pos + (written label next).length) (len + (written label next).length) := by
  have length := read_length bytes
  simp only [dnsParseNameTurns, here, some_, plain, bytes, behind, Course.ofRead_some, Course.bind_eq,
    Course.returned_bind, if_false, Bool.false_eq_true]
  split
  next goesOn =>
    rw [← length, store_store, written, if_pos goesOn, List.length_append, List.length_singleton, Nat.add_assoc pos,
      Nat.add_assoc len]
  next ended => rw [written, if_neg ended, List.append_nil, length]

/-- One turn of the loop: a read outside, the end, a pointer or a label. -/
inductive Turn (chunk block : List UInt8) (ptr : Nat) : Prop where
  | outside (fault : ∀ turns out pos len, dnsParseNameTurns chunk (turns + 1) block ptr out pos len = .outside)
      (away : ∀ next, Leads block ptr next → block[next]? = none)
  | root (zero : block[ptr]? = some 0)
      (ended : ∀ turns out pos len, dnsParseNameTurns chunk (turns + 1) block ptr out pos len = .returned (out, len))
  | pointer (high low : UInt8) (first : block[ptr]? = some high) (some_ : high ≠ 0) (tag : isPointer high)
      (second : block[ptr + 1]? = some low)
      (goes : ∀ turns out pos len, dnsParseNameTurns chunk (turns + 1) block ptr out pos len =
        dnsParseNameTurns chunk turns chunk (pointerOffset high low) out len len)
  | label (flag next : UInt8) (label : List UInt8) (here : block[ptr]? = some flag) (some_ : flag ≠ 0)
      (plain : ¬ isPointer flag) (bytes : Block.read block (ptr + 1) flag.toNat = some label)
      (behind : block[ptr + 1 + flag.toNat]? = some next)
      (goes : ∀ turns out pos len, dnsParseNameTurns chunk (turns + 1) block ptr out pos len =
        dnsParseNameTurns chunk turns block (ptr + 1 + flag.toNat) (store out pos (written label next))
          (pos + (written label next).length) (len + (written label next).length))

theorem turn_cases (chunk block : List UInt8) (ptr : Nat) : Turn chunk block ptr := by
  cases here : block[ptr]? with
  | none =>
    refine .outside ?_ ?_
    · intro turns out pos len
      simp only [dnsParseNameTurns, here, Course.ofRead_none]
      rfl
    · intro next leads
      cases leads with
      | label first => exact absurd (here.symm.trans first) nofun
      | pointer first => exact absurd (here.symm.trans first) nofun
  | some flag =>
    by_cases zero : flag = 0
    · subst zero
      exact .root here (turn_root here)
    · by_cases tag : isPointer flag
      · cases second : block[ptr + 1]? with
        | none =>
          refine .outside ?_ ?_
          · intro turns out pos len
            simp only [dnsParseNameTurns, here, zero, tag, second, Course.ofRead_some, Course.ofRead_none,
              Course.bind_eq, Course.returned_bind, if_true, if_false]
            rfl
          · intro next leads
            obtain ⟨low, found, -⟩ := leads_pointer here tag leads
            exact absurd (second.symm.trans found) nofun
        | some low => exact .pointer flag low here zero tag second (turn_pointer here zero tag second)
      · cases behind : block[ptr + 1 + flag.toNat]? with
        | none =>
          refine .outside ?_ ?_
          · intro turns out pos len
            simp only [dnsParseNameTurns, here, zero, tag, behind, Course.ofRead_some, Course.ofRead_none,
              Course.bind_eq, Course.returned_bind, if_false, Bool.false_eq_true]
            cases Block.read block (ptr + 1) flag.toNat <;> rfl
          · intro next leads
            rw [leads_label here tag leads, behind]
        | some next =>
          have inside : ptr + 1 + flag.toNat ≤ block.length := Nat.le_of_lt (List.getElem?_eq_some_iff.mp behind).1
          have bytes := Block.read_of_le inside
          exact .label flag next _ here zero tag bytes behind (turn_label here zero tag bytes behind)

theorem settled (chunk block : List UInt8) (ptr : Nat) (out : Nat → UInt8) (pos len : Nat) :
    Course.Settled fun turns => dnsParseNameTurns chunk turns block ptr out pos len := by
  intro turns
  induction turns generalizing block ptr out pos len with
  | zero => exact fun ended => absurd rfl ended
  | succ turns ih =>
    intro ended
    cases turn_cases chunk block ptr with
    | outside fault => simp only [fault]
    | root _ done => simp only [done]
    | pointer _ _ _ _ _ _ goes =>
      simp only [goes] at ended ⊢
      exact ih _ _ _ _ _ ended
    | label _ _ _ _ _ _ _ _ goes =>
      simp only [goes] at ended ⊢
      exact ih _ _ _ _ _ ended

/-- A name that is spelled is parsed, with nothing but its text written. -/
theorem parsed_of_spells (spells : Spells chunk block ptr text) : ∃ turns, ∀ out len,
    dnsParseNameTurns chunk turns block ptr out len len = .returned (store out len text, len + text.length) := by
  induction spells with
  | root zero =>
    refine ⟨1, ?_⟩
    intro out len
    rw [turn_root zero, store_nil]
    rfl
  | label here some_ plain bytes behind _ ih =>
    obtain ⟨turns, parsed⟩ := ih
    refine ⟨turns + 1, ?_⟩
    intro out len
    rw [turn_label here some_ plain bytes behind, parsed, store_store, written, List.append_assoc, Nat.add_assoc len,
      ← List.length_append, List.append_assoc]
  | pointer first some_ tag second _ ih =>
    obtain ⟨turns, parsed⟩ := ih
    refine ⟨turns + 1, ?_⟩
    intro out len
    rw [turn_pointer first some_ tag second, parsed]

/-- And only such a name is parsed. -/
theorem spells_of_parsed {turns : Nat} {out after : Nat → UInt8} {len n : Nat}
    (parsed : dnsParseNameTurns chunk turns block ptr out len len = .returned (after, n)) :
    ∃ text, Spells chunk block ptr text ∧ after = store out len text ∧ n = len + text.length := by
  induction turns generalizing block ptr out len with
  | zero => cases parsed
  | succ turns ih =>
    cases turn_cases chunk block ptr with
    | outside fault =>
      rw [fault] at parsed
      cases parsed
    | root zero ended =>
      rw [ended] at parsed
      cases parsed
      exact ⟨[], .root zero, (store_nil _ _).symm, rfl⟩
    | pointer high low first some_ tag second goes =>
      rw [goes] at parsed
      obtain ⟨text, spells, stored, length⟩ := ih parsed
      exact ⟨text, .pointer first some_ tag second spells, stored, length⟩
    | label flag next label here some_ plain bytes behind goes =>
      rw [goes] at parsed
      obtain ⟨text, spells, stored, length⟩ := ih parsed
      refine ⟨_, .label here some_ plain bytes behind spells, ?_, ?_⟩
      · rw [stored, store_store, written, List.append_assoc]
      · rw [length, ← List.append_assoc, List.length_append, ← written, Nat.add_assoc]

/-- A label in front of a name. The byte behind it tells whether the name goes on. -/
theorem Spells.cons {label : Label} {name : Name} {byte : UInt8}
    (here : Block.read block ptr (label.bytes.length + 1) = some label.encode)
    (behind : block[ptr + label.bytes.length + 1]? = some byte) (ended : byte = 0 ↔ name = [])
    (rest : Spells chunk block (ptr + label.bytes.length + 1) name.text) :
    Spells chunk block ptr (Name.text (label :: name)) := by
  have first := label_byte here
  have length := label.length_byte
  have plain := label_plain here
  have bytes := label_bytes here
  have position : ptr + label.bytes.length + 1 = ptr + 1 + (UInt8.ofNat label.bytes.length).toNat := by omega
  rw [← length] at bytes
  have spells := Spells.label first label.length_ne_zero plain bytes (position ▸ behind) (position ▸ rest)
  cases name with
  | nil => simpa [ended.mpr rfl] using spells
  | cons second more =>
    have on : byte ≠ 0 := fun zero => List.cons_ne_nil _ _ (ended.mp zero)
    rw [Name.text_cons]
    simpa [on, dot] using spells

end NetPrograms.Proofs.DnsTurns
