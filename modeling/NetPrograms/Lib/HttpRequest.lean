import Mathlib.Algebra.Order.Ring.Int
import Mathlib.Data.List.Infix

/-! The head of an HTTP request: a request line and header fields, each ended by CRLF,
and an empty line. -/

namespace NetPrograms.Http

def crlf : List UInt8 := [13, 10]

def lowerCase (byte : UInt8) : UInt8 := if 65 ≤ byte ∧ byte ≤ 90 then byte + 32 else byte

/-- A header field with the blanks and tabs between its colon and its value. -/
structure Field where
  name : List UInt8
  space : List UInt8
  value : List UInt8
  plain : 58 ∉ name
  blank : ∀ byte ∈ space, byte = 32 ∨ byte = 9
  start : ∀ byte ∈ value.head?, byte ≠ 32 ∧ byte ≠ 9

def Field.line (field : Field) : List UInt8 := field.name ++ 58 :: (field.space ++ field.value)

/-- Names are compared without case. -/
def Field.Named (field : Field) (name : List UInt8) : Prop := field.name.map lowerCase = name.map lowerCase

structure Request where
  requestLine : List UInt8
  fields : List Field

def Request.lines (request : Request) : List (List UInt8) := request.requestLine :: request.fields.map Field.line

/-- Each line with its CRLF, and the empty line. -/
def ended (lines : List (List UInt8)) : List UInt8 := (lines.map (· ++ crlf)).flatten ++ crlf

def Request.text (request : Request) : List UInt8 := ended request.lines

/-- The lines can be told apart, and none is the empty one. -/
structure Separate (lines : List (List UInt8)) : Prop where
  filled : ∀ line ∈ lines, line ≠ []
  unbroken : ∀ line ∈ lines, ¬ crlf <:+: line

theorem ended_cons (line : List UInt8) (lines : List (List UInt8)) :
    ended (line :: lines) = line ++ 13 :: 10 :: ended lines := by
  simp [ended, crlf]

theorem ended_length_ge (lines : List (List UInt8)) : lines.length ≤ (ended lines).length := by
  induction lines with
  | nil => exact Nat.zero_le _
  | cons line lines ih =>
    rw [ended_cons, List.length_append, List.length_cons, List.length_cons, List.length_cons]
    omega

theorem not_mem_ended {byte : UInt8} (other : byte ∉ crlf) {lines : List (List UInt8)}
    (free : ∀ line ∈ lines, byte ∉ line) : byte ∉ ended lines := by
  intro member
  rcases List.mem_append.mp member with inLine | inEnd
  · obtain ⟨_, held, inside⟩ := List.mem_flatten.mp inLine
    obtain ⟨line, known, rfl⟩ := List.mem_map.mp held
    rcases List.mem_append.mp inside with inText | inEnd
    · exact free line known inText
    · exact other inEnd
  · exact other inEnd

theorem Separate.tail {line : List UInt8} {lines : List (List UInt8)} (separate : Separate (line :: lines)) :
    Separate lines :=
  ⟨fun other member => separate.filled other (List.mem_cons_of_mem _ member),
    fun other member => separate.unbroken other (List.mem_cons_of_mem _ member)⟩

/-- A line that is not empty is not taken for the empty one. -/
theorem crlf_not_prefix {line : List UInt8} (filled : line ≠ []) (unbroken : ¬ crlf <:+: line) (rest : List UInt8) :
    ¬ crlf <+: line ++ 13 :: rest := by
  intro begins
  cases line with
  | nil => exact filled rfl
  | cons byte line =>
    obtain ⟨rfl, next⟩ := List.cons_prefix_cons.mp begins
    cases line with
    | nil => cases (List.cons_prefix_cons.mp next).1
    | cons other line =>
      obtain ⟨rfl, -⟩ := List.cons_prefix_cons.mp next
      exact unbroken ⟨[], line, rfl⟩

end NetPrograms.Http
