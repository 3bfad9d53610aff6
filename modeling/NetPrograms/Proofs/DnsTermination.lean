import NetPrograms.Lib.Walk
import NetPrograms.Proofs.DnsTurns

/-! Which names `dns_parse_name` gets to the end of. Nothing counts the pointers, so
it goes round for ever where labels and pointers lead back. -/

namespace NetPrograms.Proofs.DnsTermination
open Dns DnsTurns Relation

variable {chunk : List UInt8} {ptr : Nat}

theorem terminates_of_acc (ends : Acc (fun next here => Leads chunk here next) ptr) :
    ∃ turns, ∀ out pos len, dnsParseNameTurns chunk turns chunk ptr out pos len ≠ .running := by
  induction ends with
  | intro ptr _ ih =>
    cases turn_cases chunk chunk ptr with
    | outside fault =>
      refine ⟨1, ?_⟩
      intro out pos len
      rw [fault]
      nofun
    | root _ ended =>
      refine ⟨1, ?_⟩
      intro out pos len
      rw [ended]
      nofun
    | pointer high low first some_ tag second goes =>
      obtain ⟨turns, ends⟩ := ih _ (.pointer first some_ tag second)
      refine ⟨turns + 1, ?_⟩
      intro out pos len
      rw [goes]
      exact ends _ _ _
    | label flag next label here some_ plain _ _ goes =>
      obtain ⟨turns, ends⟩ := ih _ (.label here some_ plain)
      refine ⟨turns + 1, ?_⟩
      intro out pos len
      rw [goes]
      exact ends _ _ _

/-- Nothing leads on from outside. -/
theorem acc_outside (none : chunk[ptr]? = none) : Acc (fun next here => Leads chunk here next) ptr := by
  constructor
  intro next leads
  cases leads with
  | label here => exact absurd (none.symm.trans here) nofun
  | pointer first => exact absurd (none.symm.trans first) nofun

theorem acc_of_terminates {turns : Nat} {out : Nat → UInt8} {pos len : Nat}
    (ended : dnsParseNameTurns chunk turns chunk ptr out pos len ≠ .running) :
    Acc (fun next here => Leads chunk here next) ptr := by
  induction turns generalizing ptr out pos len with
  | zero => exact absurd rfl ended
  | succ turns ih =>
    constructor
    intro next leads
    cases turn_cases chunk chunk ptr with
    | outside _ away => exact acc_outside (away next leads)
    | root zero => exact absurd leads (leads_zero zero)
    | pointer high low first _ tag second goes =>
      obtain ⟨again, found, rfl⟩ := leads_pointer first tag leads
      obtain rfl := Option.some.inj (second.symm.trans found)
      rw [goes] at ended
      exact ih ended
    | label flag _ label here _ plain _ _ goes =>
      obtain rfl := leads_label here plain leads
      rw [goes] at ended
      exact ih ended

theorem leads_inside {next : Nat} (leads : Leads chunk ptr next) : ptr < chunk.length := by
  cases leads with
  | label here => exact (List.getElem?_eq_some_iff.mp here).1
  | pointer first => exact (List.getElem?_eq_some_iff.mp first).1

/-- `chunk` is the packet with the memory that can be read behind it. The function
ends exactly when no position on the way from the first one is reached again. -/
theorem parse_name_terminates_iff (chunk : List UInt8) (ptr : Nat) (out : Nat → UInt8) (len : Nat) :
    Course.Terminates (fun turns => dnsParseNameTurns chunk turns chunk ptr out len len) ↔
      ∀ pos, ReflTransGen (Leads chunk) ptr pos → ¬ TransGen (Leads chunk) pos pos := by
  rw [← acc_iff_no_return (Set.finite_lt_nat chunk.length) leads_inside]
  constructor
  · intro ⟨turns, ended⟩
    exact acc_of_terminates ended
  · intro ends
    obtain ⟨turns, ended⟩ := terminates_of_acc ends
    exact ⟨turns, ended _ _ _⟩

/-- A header, and a pointer to itself behind it. -/
def selfPointer : List UInt8 := List.replicate 12 0 ++ [192, 12]

theorem self_pointer_endless :
    ¬ Course.Terminates fun turns => dnsParseNameTurns selfPointer turns selfPointer 12 (fun _ => 0) 0 0 := by
  have first : selfPointer[12]? = some 192 := rfl
  have second : selfPointer[12 + 1]? = some 12 := rfl
  have here : pointerOffset 192 12 = 12 := by decide
  have endless (turns : Nat) : dnsParseNameTurns selfPointer turns selfPointer 12 (fun _ => 0) 0 0 = .running := by
    induction turns with
    | zero => rfl
    | succ turns ih => rw [turn_pointer first (by decide) (by decide) second, here, ih]
  intro ⟨turns, ended⟩
  exact ended (endless turns)

end NetPrograms.Proofs.DnsTermination
