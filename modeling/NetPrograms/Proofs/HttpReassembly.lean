import NetPrograms.Http.Client
import Mathlib.Data.List.TakeWhile

/-! The response that `http_send_request` puts together. The block always has room,
and of every chunk the bytes in front of its first zero are kept. -/

namespace NetPrograms.Proofs.HttpReassembly
open Http

def text (bytes : List UInt8) : List UInt8 := bytes.takeWhile (· ≠ 0)

theorem text_free (bytes : List UInt8) : 0 ∉ text bytes := by
  intro member
  simpa using List.mem_takeWhile_imp member

theorem text_of_free {bytes : List UInt8} (free : 0 ∉ bytes) : text bytes = bytes := by
  apply List.takeWhile_eq_self_iff.mpr
  intro byte member
  have other : byte ≠ 0 := fun zero => free (zero ▸ member)
  simp [other]

theorem realloc_prefix (front rest : List UInt8) (room : Nat) (heap : Nat → UInt8) :
    ∃ more, realloc (front ++ rest) (front.length + room) heap = front ++ more ∧ more.length = room := by
  refine ⟨(List.range room).map fun cell => (front ++ rest)[front.length + cell]?.getD (heap (front.length + cell)), ?_, ?_⟩
  · rw [realloc, List.range_add, List.map_append, List.map_map]
    congr 1
    apply List.ext_getElem
    · simp
    · intro cell inside within
      simp [List.getElem?_append_left within, within]
  · simp

/-- A string grows without losing its end. -/
theorem realloc_string (front rest : List UInt8) (room : Nat) (heap : Nat → UInt8) :
    ∃ more, realloc (front ++ 0 :: rest) (front.length + room + 1) heap = front ++ 0 :: more ∧ more.length = room := by
  obtain ⟨more, grown, length⟩ := realloc_prefix (front ++ [0]) rest room heap
  refine ⟨more, ?_, length⟩
  simpa [Nat.add_right_comm] using grown

theorem textUpTo_append (bytes rest : List UInt8) : textUpTo bytes.length (bytes ++ rest) = some (text bytes) := by
  induction bytes with
  | nil => rfl
  | cons byte bytes ih =>
    rw [List.length_cons, List.cons_append, textUpTo, ih]
    by_cases zero : byte = 0
    · simp [zero, text]
    · simp [zero, text]

theorem append_spec {result bytes front : List UInt8} (heap : Nat → UInt8) (string : cstring result = some front)
    (fits : bytes.length ≤ bufferSzie) :
    ∃ after, append result bytes heap = .returned after ∧ cstring after = some (front ++ text bytes) := by
  obtain ⟨free, rest, rfl⟩ := cstring_eq_some string
  obtain ⟨more, grown, room⟩ := realloc_string front rest bytes.length heap
  have filled : Block.write (List.replicate bufferSzie 0) 0 bytes =
      some (bytes ++ (List.replicate bufferSzie 0).drop bytes.length) :=
    Block.write_behind [] bytes (List.replicate bufferSzie 0) (by simpa using fits)
  have short : (text bytes).length ≤ bytes.length := (List.takeWhile_prefix _).length_le
  have written : Block.write (front ++ 0 :: more) front.length (text bytes ++ [0]) =
      some (front ++ (text bytes ++ [0] ++ (0 :: more).drop (text bytes ++ [0]).length)) :=
    Block.write_behind front (text bytes ++ [0]) (0 :: more) (by simp; omega)
  refine ⟨front ++ (text bytes ++ [0] ++ (0 :: more).drop (text bytes ++ [0]).length), ?_, ?_⟩
  · simp [append, strncat, filled, strlen_append free, grown, textUpTo_append, written]
  · have ended : 0 ∉ front ++ text bytes := by simp [free, text_free]
    rw [List.append_assoc (text bytes), ← List.append_assoc]
    exact cstring_append ended _

theorem receive_spec {result front : List UInt8} (string : cstring result = some front)
    (chunks : List (List UInt8 × (Nat → UInt8))) (fits : ∀ chunk ∈ chunks, chunk.1.length ≤ bufferSzie) :
    ∃ after, receive result (chunks.map (fun chunk => .received chunk.1 chunk.2) ++ [.ended]) = .returned after ∧
      cstring after = some (front ++ chunks.flatMap (fun chunk => text chunk.1)) := by
  induction chunks generalizing result front with
  | nil => exact ⟨result, rfl, by simpa using string⟩
  | cons chunk chunks ih =>
    obtain ⟨here, behind⟩ := List.forall_mem_cons.mp fits
    obtain ⟨middle, appended, longer⟩ := append_spec chunk.2 string here
    obtain ⟨after, received, whole⟩ := ih longer behind
    refine ⟨after, ?_, ?_⟩
    · rw [List.map_cons, List.cons_append, receive, appended]
      exact received
    · rw [whole, List.flatMap_cons, List.append_assoc]

theorem start_string : cstring (List.replicate 4 0) = some [] := rfl

/-- Whatever the bytes are, every write stays inside its block. -/
theorem request_returns (chunks : List (List UInt8 × (Nat → UInt8)))
    (fits : ∀ chunk ∈ chunks, chunk.1.length ≤ bufferSzie) :
    ∃ result, httpSendRequest (chunks.map (fun chunk => .received chunk.1 chunk.2) ++ [.ended]) = .returned result ∧
      cstring result = some (chunks.flatMap (fun chunk => text chunk.1)) :=
  receive_spec start_string chunks fits

/-- The string that is returned holds all bytes received, and no write left its block. -/
def Reassembles (chunks : List (List UInt8 × (Nat → UInt8))) : Prop :=
  ∃ result, httpSendRequest (chunks.map (fun chunk => .received chunk.1 chunk.2) ++ [.ended]) = .returned result ∧
    cstring result = some (chunks.flatMap Prod.fst)

theorem reassembles_iff_no_zero (chunks : List (List UInt8 × (Nat → UInt8)))
    (sizes : ∀ chunk ∈ chunks, 1 ≤ chunk.1.length ∧ chunk.1.length ≤ bufferSzie) :
    Reassembles chunks ↔ 0 ∉ chunks.flatMap Prod.fst := by
  constructor
  · rintro ⟨result, -, string⟩
    exact (cstring_eq_some string).1
  · intro free
    obtain ⟨result, returned, string⟩ := request_returns chunks (fun chunk member => (sizes chunk member).2)
    refine ⟨result, returned, ?_⟩
    rw [string]
    congr 1
    apply List.flatMap_congr
    intro chunk member
    apply text_of_free
    exact fun zero => free (List.mem_flatMap.mpr ⟨chunk, member, zero⟩)

theorem two_chunks_reassembled :
    (∀ chunk ∈ [(ascii "HTTP", fun _ => 7), (ascii "/1.1", fun _ : Nat => (9 : UInt8))],
      1 ≤ chunk.1.length ∧ chunk.1.length ≤ bufferSzie) ∧
      Reassembles [(ascii "HTTP", fun _ => 7), (ascii "/1.1", fun _ => 9)] := by
  have sizes : ∀ chunk ∈ [(ascii "HTTP", fun _ => 7), (ascii "/1.1", fun _ : Nat => (9 : UInt8))],
      1 ≤ chunk.1.length ∧ chunk.1.length ≤ bufferSzie := by
    simp [ascii, bufferSzie]
  refine ⟨sizes, (reassembles_iff_no_zero _ sizes).mpr ?_⟩
  decide

/-- Of the body `P`, zero, `N` only the first byte is kept. -/
theorem zero_byte_cuts : ¬ ∀ chunks : List (List UInt8 × (Nat → UInt8)),
    (∀ chunk ∈ chunks, 1 ≤ chunk.1.length ∧ chunk.1.length ≤ bufferSzie) → Reassembles chunks := by
  intro always
  obtain ⟨result, -, string⟩ := always [([80, 0, 78], fun _ => 0)] (by simp [bufferSzie])
  exact (cstring_eq_some string).1 (by simp)

end NetPrograms.Proofs.HttpReassembly
