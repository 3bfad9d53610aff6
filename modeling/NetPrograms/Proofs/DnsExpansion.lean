import NetPrograms.Proofs.DnsTurns

/-! `dns_parse_name` on well-formed names, whose labels it writes with single dots
between them. -/

namespace NetPrograms.Proofs.DnsExpansion
open Dns Block Rfc1035 DnsNames DnsTurns

/-- A name starts at a position, which ends in a zero byte or in a pointer further to
the front, where a name with a label starts. -/
inductive WellFormed (packet : List UInt8) : Nat → Name → Prop where
  | root {pos} (zero : packet[pos]? = some 0) : WellFormed packet pos []
  | label {pos} {label : Label} {name} (here : Block.read packet pos (label.bytes.length + 1) = some label.encode)
      (rest : WellFormed packet (pos + label.bytes.length + 1) name) : WellFormed packet pos (label :: name)
  | pointer {pos high low name} (first : packet[pos]? = some high) (tag : 192 ≤ high.toNat)
      (second : packet[pos + 1]? = some low) (before : (high.toNat - 192) * 256 + low.toNat < pos)
      (target : WellFormed packet ((high.toNat - 192) * 256 + low.toNat) name) (some_ : name ≠ []) :
      WellFormed packet pos name

variable {packet : List UInt8} {pos : Nat} {name : Name}

/-- The byte by which the loop decides about the dot. -/
theorem WellFormed.first (wellFormed : WellFormed packet pos name) :
    ∃ byte, packet[pos]? = some byte ∧ (byte = 0 ↔ name = []) := by
  cases wellFormed with
  | root zero => exact ⟨0, zero, by simp⟩
  | @label _ label _ here => exact ⟨_, label_byte here, by simp [label.length_ne_zero]⟩
  | pointer first tag _ _ _ some_ => exact ⟨_, first, by simp [tag_ne_zero tag, some_]⟩

theorem WellFormed.spells (wellFormed : WellFormed packet pos name) : Spells packet packet pos name.text := by
  induction wellFormed with
  | root zero => exact .root zero
  | label here rest ih =>
    obtain ⟨byte, behind, ended⟩ := rest.first
    exact .cons here behind ended ih
  | pointer first tag second _ _ _ ih =>
    rw [← pointerOffset_eq tag] at ih
    exact .pointer first (tag_ne_zero tag) ((isPointer_iff _).mpr tag) second ih

theorem parse_name_expands (packet : List UInt8) (pos : Nat) (name : Name) (wellFormed : WellFormed packet pos name)
    (out : Nat → UInt8) : ∃ turns,
      dnsParseNameTurns packet turns packet pos out 0 0 = .returned (store out 0 name.text, name.text.length) := by
  obtain ⟨turns, parsed⟩ := parsed_of_spells wellFormed.spells
  refine ⟨turns, ?_⟩
  rw [parsed, Nat.zero_add]

/-- `b`, and behind it `a` with a pointer to it. -/
def compressed : List UInt8 := [1, 98, 0, 1, 97, 192, 0]

theorem compressed_wellFormed : WellFormed compressed 3 [Label.single 97, .single 98] := by
  have target : WellFormed compressed 0 [Label.single 98] := .label (by decide) (.root (by decide))
  have high : compressed[5]? = some 192 := by decide
  have low : compressed[5 + 1]? = some 0 := by decide
  have pointer : WellFormed compressed 5 [Label.single 98] :=
    .pointer high (by decide) low (by decide) target (List.cons_ne_nil _ _)
  exact .label (by decide) pointer

theorem parse_name_expands_compressed : ∃ turns, dnsParseNameTurns compressed turns compressed 3 (fun _ => 1) 0 0 =
    .returned (store (fun _ => 1) 0 (Name.text [Label.single 97, .single 98]), (Name.text [Label.single 97, .single 98]).length) :=
  parse_name_expands compressed 3 [Label.single 97, .single 98] compressed_wellFormed fun _ => 1

end NetPrograms.Proofs.DnsExpansion
