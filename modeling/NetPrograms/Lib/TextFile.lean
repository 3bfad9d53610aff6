import Mathlib.Algebra.Order.Ring.Int
import Mathlib.Data.List.Basic

/-! Reading a text file by lines with `fgets` into a buffer of a fixed size, in a
loop that ends when a read has met the end of the file. -/

namespace NetPrograms.TextFile

def newline : UInt8 := 10

/-- What each read gets, when `line` is read of the current one. A read ends behind
a newline or when the buffer has room for the ending zero only; the last read meets
the end of the file and may get nothing. -/
def readsFrom (size : Nat) (line : List UInt8) : List UInt8 → List (List UInt8)
  | [] => [line]
  | byte :: rest =>
    if byte = newline ∨ size ≤ line.length + 2 then
      (line ++ [byte]) :: readsFrom size [] rest
    else
      readsFrom size (line ++ [byte]) rest

def reads (size : Nat) (content : List UInt8) : List (List UInt8) := readsFrom size [] content

section lines
variable {size : Nat} {line rest : List UInt8}

theorem readsFrom_text (before rest : List UInt8) (free : newline ∉ line) (short : before.length + line.length + 2 ≤ size) :
    readsFrom size before (line ++ rest) = readsFrom size (before ++ line) rest := by
  induction line generalizing before with
  | nil => simp
  | cons byte line ih =>
    simp only [List.mem_cons, not_or, List.length_cons] at free short
    have goesOn : ¬ (byte = newline ∨ size ≤ before.length + 2) := by
      rintro (same | full)
      · exact free.1 same.symm
      · omega
    rw [List.cons_append, readsFrom, if_neg goesOn, ih (before ++ [byte]) free.2 (by simp; omega), List.append_assoc]
    rfl

/-- A line that fits is read at once. -/
theorem reads_line (free : newline ∉ line) (short : line.length + 2 ≤ size) :
    reads size (line ++ newline :: rest) = (line ++ [newline]) :: reads size rest := by
  rw [reads, readsFrom_text [] _ free (by simpa using short), List.nil_append, readsFrom, if_pos (.inl rfl), reads]

/-- Text without a newline is what the last read gets. -/
theorem reads_tail (free : newline ∉ line) (short : line.length + 2 ≤ size) : reads size line = [line] := by
  have read := readsFrom_text [] [] free (by simpa using short)
  rwa [List.append_nil] at read

theorem reads_lines (lines : List (List UInt8)) (free : ∀ line ∈ lines, newline ∉ line)
    (short : ∀ line ∈ lines, line.length + 2 ≤ size) :
    reads size (lines.flatMap (· ++ [newline]) ++ rest) = lines.map (· ++ [newline]) ++ reads size rest := by
  induction lines with
  | nil => rfl
  | cons line lines ih =>
    rw [List.flatMap_cons, List.append_assoc, List.append_assoc, List.singleton_append,
      reads_line (free line List.mem_cons_self) (short line List.mem_cons_self),
      ih (fun other member => free other (List.mem_cons_of_mem line member))
        (fun other member => short other (List.mem_cons_of_mem line member))]
    rfl

end lines
end NetPrograms.TextFile
