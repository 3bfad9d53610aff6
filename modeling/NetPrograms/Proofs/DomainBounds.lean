import Mathlib.Algebra.Order.BigOperators.Group.List
import Mathlib.Algebra.Order.Ring.Nat
import NetPrograms.Dns.Domain
import NetPrograms.Lib.Tally
import NetPrograms.Proofs.DnsRequest

/-! What `convert_domain` writes through `result` fits the block that it allocates, as long
as an `int` holds the length of each label. -/

namespace NetPrograms.Proofs.DomainBounds
open Dns Tally DnsRequest

/-- The labels of a host name that are not empty. -/
def labels (domain : List UInt8) : List (List UInt8) := runs (· ≠ dot) domain

section length
variable {token : List UInt8}

theorem tokenLen_short (short : token.length < 2 ^ 31) :
    ¬ Domain.tokenLen token < 0 ∧ (Domain.tokenLen token).toNatClampNeg = token.length :=
  ⟨Int32.not_lt.mpr (Int32.zero_le_ofNat_of_lt short), Int32.toNatClampNeg_ofNat_of_lt short⟩

theorem tokenLen_le (positive : ¬ Domain.tokenLen token < 0) : (Domain.tokenLen token).toNatClampNeg ≤ token.length ∧
    ((Domain.tokenLen token).toNatClampNeg = token.length → token.length < 2 ^ 31) := by
  have held : (Domain.tokenLen token).toInt = (token.length : Int).bmod (2 ^ 32) := Int32.toInt_ofNat'
  have bound := Int32.toInt_lt (Domain.tokenLen token)
  have above : 0 ≤ (Domain.tokenLen token).toInt := by
    simpa [Int32.lt_iff_toInt_lt] using positive
  rw [Int.bmod_eq_emod] at held
  unfold Int32.toNatClampNeg
  omega

end length

section loop
variable {size : Nat} {original after : Ledger UInt8 size} {result fuel : Nat}

theorem putToken_count {token : List UInt8} {behind : Nat} (written : Domain.putToken original result token = some (after, behind)) :
    ¬ Domain.tokenLen token < 0 ∧ after.count = original.count + ((Domain.tokenLen token).toNatClampNeg + 1) := by
  obtain ⟨first, prefixed, written⟩ := Option.bind_eq_some_iff.mp written
  obtain ⟨second, copied, same⟩ := Option.bind_eq_some_iff.mp written
  cases same
  unfold Domain.strncpy at copied
  split at copied
  · cases copied
  next positive =>
    have one := Ledger.write_count prefixed
    have more := Ledger.write_count copied
    rw [List.takeD_length] at more
    rw [List.length_singleton] at one
    exact ⟨positive, by omega⟩

theorem convertFrom_count {text : List UInt8} (converted : Domain.convertFrom original result (strtok dot text) fuel = some after) :
    (∀ token ∈ tokens dot text, ¬ Domain.tokenLen token < 0) ∧
      after.count = original.count + ((tokens dot text).map fun token => (Domain.tokenLen token).toNatClampNeg + 1).sum + 1 := by
  induction fuel generalizing original result text with
  | zero => cases converted
  | succ fuel ih =>
    cases call : (strtok dot text).1 with
    | none =>
      rw [strtok_none call] at converted
      rw [tokens_none call]
      exact ⟨by simp, Ledger.write_count converted⟩
    | some token =>
      have found : strtok dot text = (some token, (strtok dot text).2) := Prod.ext call rfl
      rw [found] at converted
      obtain ⟨⟨next, behind⟩, put, converted⟩ := Option.bind_eq_some_iff.mp converted
      obtain ⟨positive, here⟩ := putToken_count put
      obtain ⟨later, rest⟩ := ih converted
      rw [tokens_some found]
      refine ⟨List.forall_mem_cons.mpr ⟨positive, later⟩, ?_⟩
      rw [List.map_cons, List.sum_cons, rest, here]
      omega

theorem putToken_short {token : List UInt8} (short : token.length < 2 ^ 31) :
    (Domain.putToken original result token).map (fun after => (after.1.array.cells, after.2)) =
      (putToken original.array.cells result token).map (·, result + 1 + token.length) := by
  obtain ⟨positive, length⟩ := tokenLen_short short
  have byte : (Domain.tokenLen token).toInt8.toUInt8 = UInt8.ofNat token.length := by
    rw [Domain.tokenLen, Int32.toInt8_ofNat', Int8.toUInt8_ofNat']
  have copy : token.takeD token.length 0 = token := by
    rw [List.takeD_eq_take _ (Nat.le_refl _), List.take_length]
  simp only [Domain.putToken, putToken, Domain.strncpy, if_neg positive, byte, length, copy, ← Ledger.write_cells,
    Option.bind_eq_bind]
  cases original.write result [UInt8.ofNat token.length] with
  | none => rfl
  | some first =>
    simp only [Option.bind_some, Option.map_some, ← Ledger.write_cells]
    cases first.write (result + 1) token with
    | none => rfl
    | some second => rfl

theorem convertFrom_short {text : List UInt8} (short : ∀ token ∈ tokens dot text, token.length < 2 ^ 31) :
    (Domain.convertFrom original result (strtok dot text) fuel).map (·.array.cells) =
      convertFrom original.array.cells result (strtok dot text) fuel := by
  induction fuel generalizing original result text with
  | zero => rfl
  | succ fuel ih =>
    cases call : (strtok dot text).1 with
    | none =>
      rw [strtok_none call]
      exact original.write_cells result [0]
    | some token =>
      have found : strtok dot text = (some token, (strtok dot text).2) := Prod.ext call rfl
      rw [tokens_some found] at short
      obtain ⟨here, later⟩ := List.forall_mem_cons.mp short
      have same := @putToken_short _ original result token here
      rw [found]
      simp only [Domain.convertFrom, convertFrom, Option.bind_eq_bind]
      cases put : Domain.putToken original result token with
      | none =>
        rw [put, Option.map_none, eq_comm, Option.map_eq_none_iff] at same
        rw [same]
        rfl
      | some next =>
        rw [put, Option.map_some, eq_comm, Option.map_eq_some_iff] at same
        obtain ⟨cells, written, same⟩ := same
        obtain ⟨rfl, behind⟩ := Prod.mk.inj same
        rw [written, Option.bind_some, Option.bind_some, behind]
        exact ih later

end loop

theorem convertDomain_short {domain : List UInt8} (short : ∀ label ∈ labels domain, label.length < 2 ^ 31) :
    (Domain.convertDomain domain).map (·.array.cells) = convertDomain domain := by
  apply convertFrom_short
  rwa [tokens_eq_runs]

/-- The bytes written are those of the labels with one more for each, and the zero behind
them, and they lie in the block. -/
structure Fits (domain : List UInt8) (result : Ledger UInt8 (domain.length + 2)) : Prop where
  inside : ∀ write ∈ result.writes, write.1 + write.2.length ≤ domain.length + 2
  count : result.count = ((labels domain).map fun label => label.length + 1).sum + 1

theorem sum_short {items : List (List UInt8)} (positive : ∀ token ∈ items, ¬ Domain.tokenLen token < 0)
    (same : (items.map fun token => (Domain.tokenLen token).toNatClampNeg + 1).sum =
      (items.map fun token => token.length + 1).sum) : ∀ token ∈ items, token.length < 2 ^ 31 := by
  induction items with
  | nil => simp
  | cons token rest ih =>
    obtain ⟨here, later⟩ := List.forall_mem_cons.mp positive
    obtain ⟨below, fits⟩ := tokenLen_le here
    have bound : (rest.map fun token => (Domain.tokenLen token).toNatClampNeg + 1).sum ≤
        (rest.map fun token => token.length + 1).sum := by
      apply List.sum_le_sum
      intro other member
      exact Nat.succ_le_succ (tokenLen_le (later other member)).1
    rw [List.map_cons, List.sum_cons, List.map_cons, List.sum_cons] at same
    exact List.forall_mem_cons.mpr ⟨fits (by omega), ih later (by omega)⟩

theorem Fits.short {domain : List UInt8} {result : Ledger UInt8 (domain.length + 2)} (fits : Fits domain result)
    (converted : Domain.convertDomain domain = some result) : ∀ label ∈ labels domain, label.length < 2 ^ 31 := by
  obtain ⟨positive, written⟩ := convertFrom_count converted
  rw [tokens_eq_runs] at positive written
  rw [fits.count, Ledger.blank_count, Nat.zero_add] at written
  exact sum_short positive (Nat.succ.inj written).symm

/-- `convert_domain` stays in its block and writes the bytes of the labels exactly when an `int`
holds the length of each label. -/
theorem fits_iff_short_labels (domain : List UInt8) :
    (∃ result, Domain.convertDomain domain = some result ∧ Fits domain result) ↔
      ∀ label ∈ labels domain, label.length < 2 ^ 31 := by
  constructor
  · rintro ⟨result, converted, fits⟩
    exact fits.short converted
  · intro short
    have same := convertDomain_short short
    rw [convertDomain_eq, Option.map_eq_some_iff] at same
    obtain ⟨result, converted, -⟩ := same
    obtain ⟨-, written⟩ := convertFrom_count converted
    rw [tokens_eq_runs, Ledger.blank_count, Nat.zero_add] at written
    refine ⟨result, converted, result.inside, ?_⟩
    rw [written, labels]
    congr 2
    apply List.map_congr_left
    intro label member
    rw [(tokenLen_short (short label member)).2]

example : (Domain.convertDomain [dot, 97, 98, dot, dot, 99, dot]).map Ledger.writes =
    some [(0, [2]), (1, [97, 98]), (3, [1]), (4, [99]), (5, [0])] := by decide

theorem labels_letters {count : Nat} (positive : count ≠ 0) :
    labels (List.replicate count 97) = [List.replicate count 97] := by
  have kept : ∀ byte ∈ List.replicate count (97 : UInt8), decide (byte ≠ dot) = true := by
    intro byte member
    rw [List.eq_of_mem_replicate member]
    rfl
  have whole := runs_front (by simpa using positive) kept (by simp : ∀ byte ∈ ([] : List UInt8).head?, decide (byte ≠ dot) = false)
  rwa [List.append_nil, runs_nil] at whole

/-- The length of the one label of this name becomes a negative `int`. -/
theorem long_label_overflows : ¬ ∀ domain, ∃ result, Domain.convertDomain domain = some result ∧ Fits domain result := by
  intro always
  obtain ⟨result, converted, fits⟩ := always (List.replicate (2 ^ 31) 97)
  have short := fits.short converted
  rw [labels_letters (by simp)] at short
  have below := short _ List.mem_cons_self
  rw [List.length_replicate] at below
  exact lt_irrefl _ below

end NetPrograms.Proofs.DomainBounds
