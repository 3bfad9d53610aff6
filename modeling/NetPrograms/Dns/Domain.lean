import Mathlib.Data.List.TakeDrop
import NetPrograms.Dns.Request
import NetPrograms.Lib.Ledger

/-! `convert_domain` of dns.c with its `int len`, and with a record of what it writes
through `result`. -/

namespace NetPrograms.Dns.Domain

variable {size : Nat}

/-- `int len = strlen(token);` -/
def tokenLen (token : List UInt8) : Int32 := Int32.ofNat token.length

/-- `strncpy(result, token, len);`, which fills up with zeros. A negative `len` is a
`size_t` above 2^63, and no block has so many bytes. -/
def strncpy (original : Ledger UInt8 size) (result : Nat) (token : List UInt8) (len : Int32) : Option (Ledger UInt8 size) :=
  if len < 0 then
    none
  else
    original.write result (token.takeD len.toNatClampNeg 0)

/-- The body of the loop, up to the next call of `strtok`. -/
def putToken (original : Ledger UInt8 size) (result : Nat) (token : List UInt8) : Option (Ledger UInt8 size × Nat) := do
  let len := tokenLen token
  let original ← original.write result [len.toInt8.toUInt8]
  let original ← strncpy original (result + 1) token len
  some (original, result + 1 + len.toNatClampNeg)

/-- The loop with what the last `strtok` returned, and the zero behind the labels. -/
def convertFrom (original : Ledger UInt8 size) (result : Nat) (call : Option (List UInt8) × List UInt8) :
    Nat → Option (Ledger UInt8 size)
  | 0 => none
  | fuel + 1 =>
    match call with
    | (none, _) => original.write result [0]
    | (some token, rest) => do
      let (original, result) ← putToken original result token
      convertFrom original result (strtok dot rest) fuel

/-- The block at `original_result`. `strdup` and `malloc` succeed, and `memset` has made
the block zero. -/
def convertDomain (domain : List UInt8) : Option (Ledger UInt8 (domain.length + 2)) :=
  convertFrom (.blank (Buffer.fill 0)) 0 (strtok dot domain) (domain.length + 1)

end NetPrograms.Dns.Domain
