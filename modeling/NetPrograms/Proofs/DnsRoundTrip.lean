import NetPrograms.Lib.CString
import NetPrograms.Proofs.DnsRequest
import NetPrograms.Proofs.DnsTurns

/-! `dns_parse_name` takes back what `convert_domain` has made of a host name. -/

namespace NetPrograms.Proofs.DnsRoundTrip
open Dns Block Rfc1035 DnsRequest DnsTurns

variable {chunk block : List UInt8} {pos next : Nat} {name : Name}

/-- A name without pointers is spelled whatever the packet is. -/
theorem spells_plain (chunk : List UInt8) (found : NameAt block false pos name next) : Spells chunk block pos name.text := by
  induction found with
  | root zero => exact .root zero
  | label here rest ih =>
    cases rest with
    | root zero => exact .cons here zero (by simp) ih
    | @label _ label _ _ second => exact .cons here (label_byte second) (by simp [label.length_ne_zero]) ih
    | pointer allowed => cases allowed
  | pointer allowed => cases allowed

theorem text_free (labels : Name) (free : ∀ label ∈ labels, 0 ∉ label.bytes) : 0 ∉ labels.text := by
  induction labels with
  | nil => simp
  | cons label labels ih =>
    have first := free label List.mem_cons_self
    cases labels with
    | nil => simpa using first
    | cons other labels =>
      have rest := ih fun label member => free label (List.mem_cons_of_mem _ member)
      rw [Name.text_cons]
      simp [first, rest]

/-- For a host name of any labels, and for any packet. -/
theorem convert_parse (labels : Name) (plain : ∀ label ∈ labels, dot ∉ label.bytes ∧ 0 ∉ label.bytes) (chunk : List UInt8)
    (out : Nat → UInt8) : ∃ block turns n, convertDomain labels.text = some block ∧
      dnsParseNameTurns chunk turns block 0 out 0 0 = .returned (store out 0 labels.text, n) ∧
      strlen (labels.text ++ [0]) = some n := by
  have labelled : tokens dot labels.text = labels.map Label.bytes := by
    have cut := tokens_text labels false fun label member => (plain label member).1
    rwa [hostname, if_neg (by decide), List.append_nil] at cut
  obtain ⟨back, converted⟩ : ∃ back, convertDomain labels.text = some (labels.encode ++ back) := by
    have room := prefixed_tokens_length labels.text
    obtain ⟨zeros, count⟩ := Nat.exists_eq_succ_of_ne_zero
      (show labels.text.length + 2 - (prefixed (tokens dot labels.text)).length ≠ 0 by omega)
    refine ⟨List.replicate zeros 0, ?_⟩
    rw [convertDomain_eq, count, labelled, List.replicate_succ, ← List.singleton_append, ← List.append_assoc,
      prefixed_labels]
  have found : NameAt ([] ++ (labels.encode ++ back)) false ([] : List UInt8).length labels _ := .encoded [] back labels
  obtain ⟨turns, parsed⟩ := parsed_of_spells (spells_plain chunk found)
  refine ⟨_, turns, labels.text.length, converted, ?_, ?_⟩
  · have done := parsed out 0
    rwa [Nat.zero_add] at done
  · exact strlen_append (text_free labels fun label member => (plain label member).2) []

theorem convert_parse_letters : ∃ block turns n,
    convertDomain (Name.text [Label.single 97, Label.single 98]) = some block ∧
      dnsParseNameTurns [192] turns block 0 (fun _ => 1) 0 0 =
        .returned (store (fun _ => 1) 0 (Name.text [Label.single 97, Label.single 98]), n) ∧
      strlen (Name.text [Label.single 97, Label.single 98] ++ [0]) = some n :=
  convert_parse [Label.single 97, Label.single 98] (by decide) [192] fun _ => 1

end NetPrograms.Proofs.DnsRoundTrip
