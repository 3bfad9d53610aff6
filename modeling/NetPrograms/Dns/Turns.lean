import NetPrograms.Dns.Response
import NetPrograms.Lib.Course

/-! `dns_parse_name` and `dns_parse_response` of dns.c as far as they get in a number
of turns. The functions do not know where the response or `out` ends: a read outside
the response is an outcome of its own, and so is a name too long for its array. -/

namespace NetPrograms.Dns
open Block

/-- `block` is the array that `ptr` points into, and each call of the function has its
own `pos`. -/
def dnsParseNameTurns (chunk : List UInt8) : Nat → List UInt8 → Nat → (Nat → UInt8) → Nat → Nat →
    Course ((Nat → UInt8) × Nat)
  | 0, _, _, _, _, _ => .running
  | turns + 1, block, ptr, out, pos, len => do
    let flag ← .ofRead block[ptr]?
    if flag = 0 then
      pure (out, len)
    else if isPointer flag then
      let second ← .ofRead block[ptr + 1]?
      dnsParseNameTurns chunk turns chunk (pointerOffset flag second) out len len
    else
      let label ← .ofRead (Block.read block (ptr + 1) flag.toNat)
      let out := store out pos label
      let ptr := ptr + 1 + flag.toNat
      let pos := pos + flag.toNat
      let len := len + flag.toNat
      let next ← .ofRead block[ptr]?
      if next ≠ 0 then
        dnsParseNameTurns chunk turns block ptr (store out pos [dot]) (pos + 1) (len + 1)
      else
        dnsParseNameTurns chunk turns block ptr out pos len

/-- The call with `*len = 0` and a zeroed array of 128 bytes, which the name leaves
when it has more than 127. -/
def parseNameInto (turns : Nat) (buffer : List UInt8) (ptr : Nat) : Course (List UInt8) := do
  let (out, len) ← dnsParseNameTurns buffer turns buffer ptr (fun _ => 0) 0 0
  if len ≤ 127 then
    pure ((List.range 128).map out)
  else
    .overflow

/-- The body of the loop over the answers. -/
def parseAnswerTurns (turns : Nat) (buffer : List UInt8) (ptr : Nat) (list : List DnsItem) :
    Course (Nat × List DnsItem) := do
  let aname ← parseNameInto turns buffer ptr
  let ptr := ptr + 2
  let type ← .ofRead (readShort buffer ptr)
  let ptr := ptr + 4
  let _ttl ← .ofRead (Block.read buffer ptr 4)
  let ptr := ptr + 4
  let datalen ← .ofRead (readShort buffer ptr)
  let ptr := ptr + 2
  if dnsCname = type then
    let _cname ← parseNameInto turns buffer ptr
    pure (ptr + datalen, list)
  else if dnsHost = type then
    if 4 = datalen then
      let netip ← .ofRead (Block.read buffer ptr datalen)
      let ip ← .ofRead (inetNtop netip (Buffer.fill 0) 16)
      let domain ← .ofRead (cstring aname)
      let ip ← .ofRead (cstring ip.cells)
      pure (ptr + datalen, list ++ [⟨domain, ip⟩])
    else
      pure (ptr + datalen, list)
  else
    pure (ptr, list)

def parseAnswersTurns (turns : Nat) (buffer : List UInt8) : Nat → Nat → List DnsItem → Course (List DnsItem)
  | 0, _, list => pure list
  | answers + 1, ptr, list => do
    let (ptr, list) ← parseAnswerTurns turns buffer ptr list
    parseAnswersTurns turns buffer answers ptr list

def dnsParseResponseTurns (buffer : List UInt8) (turns : Nat) : Course (Nat × List DnsItem) := do
  let querys ← .ofRead (readShort buffer 4)
  let answers ← .ofRead (readShort buffer 6)
  let ptr ← .ofRead (skipQuestions buffer querys 12)
  let list ← parseAnswersTurns turns buffer answers ptr []
  pure (list.length, list)

end NetPrograms.Dns
