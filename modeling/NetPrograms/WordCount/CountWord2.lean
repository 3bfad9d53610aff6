import Mathlib.Algebra.Order.Ring.Int
import NetPrograms.Lib.Digits

/-! The word count of homework_CountWord2.cc, in the C locale. Its results go to a file. -/

namespace NetPrograms.WordCount

def intMax : Nat := 2147483647

def isupper (ch : UInt8) : Bool := 65 ≤ ch && ch ≤ 90

def isalpha (ch : UInt8) : Bool := isupper ch || 97 ≤ ch && ch ≤ 122

def isspace (ch : UInt8) : Bool := ch = 32 || 9 ≤ ch && ch ≤ 13

def tolower (ch : UInt8) : UInt8 := if isupper ch then ch + 32 else ch

/-- The loop over `WordRecord`, and the new entry of a word that it does not find. A
count above `INT_MAX` is undefined. -/
def record : List (List UInt8 × Nat) → List UInt8 → Option (List (List UInt8 × Nat))
  | [], word => some [(word, 1)]
  | oldWord :: wordRecord, word =>
    if word = oldWord.1 then
      if oldWord.2 < intMax then
        some ((oldWord.1, oldWord.2 + 1) :: wordRecord)
      else
        none
    else
      (record wordRecord word).map (oldWord :: ·)

def line (result : List UInt8 × Nat) : List UInt8 := result.1 ++ [32] ++ digits result.2 ++ [10]

end NetPrograms.WordCount
