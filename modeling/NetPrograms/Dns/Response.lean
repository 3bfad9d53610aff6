import NetPrograms.Lib.CString
import NetPrograms.Lib.Digits
import NetPrograms.Dns.Request

/-! `dns_parse_name` and `dns_parse_response` of dns.c. A read outside the block
of the response has no result. -/

namespace NetPrograms.Dns

def isPointer (byte : UInt8) : Bool := 0xC0 &&& byte == 0xC0

def pointerOffset (first second : UInt8) : Nat := ((first.toNat &&& 0x3F) <<< 8) ||| second.toNat

/-- The loop of `dns_parse_name`, which ends with the call for a pointer. `pos` is
always `out + len`. -/
def dnsParseNameFrom (chunk : List UInt8) (ptr : Nat) (out : Buffer UInt8 128) (len : Nat) :
    Nat → Option (Buffer UInt8 128 × Nat)
  | 0 => none
  | fuel + 1 => do
    let flag ← chunk[ptr]?
    if flag = 0 then
      some (out, len)
    else if isPointer flag then
      let second ← chunk[ptr + 1]?
      dnsParseNameFrom chunk (pointerOffset flag second) out len fuel
    else
      let label ← Block.read chunk (ptr + 1) flag.toNat
      let out ← out.write len label
      let ptr := ptr + 1 + flag.toNat
      let len := len + flag.toNat
      let next ← chunk[ptr]?
      if next ≠ 0 then
        let out ← out.write len [dot]
        dnsParseNameFrom chunk ptr out (len + 1) fuel
      else
        dnsParseNameFrom chunk ptr out len fuel

/-- The way from a position does not depend on what was read before, so a name
that ends is at no position twice. -/
def dnsParseName (chunk : List UInt8) (ptr : Nat) (out : Buffer UInt8 128) (len : Nat) :
    Option (Buffer UInt8 128 × Nat) :=
  dnsParseNameFrom chunk ptr out len chunk.length

structure DnsItem where
  domain : List UInt8
  ip : List UInt8
  deriving DecidableEq

def dnsHost : Nat := 1

def dnsCname : Nat := 5

/-- `ntohs(*(unsigned short *)ptr)`. -/
def readShort (buffer : List UInt8) (ptr : Nat) : Option Nat := (Block.read buffer ptr 2).map ofBigEndian

/-- The text of an address with AF_INET. -/
def dottedQuad (netip : List UInt8) : List UInt8 := [dot].intercalate (netip.map fun byte => digits byte.toNat)

/-- `inet_ntop` leaves `ip` as it is when the text does not fit. -/
def inetNtop (netip : List UInt8) (ip : Buffer UInt8 20) (size : Nat) : Option (Buffer UInt8 20) :=
  if (dottedQuad netip).length < size then ip.write 0 (dottedQuad netip ++ [0]) else some ip

/-- The question section: `ptr` behind the names and types of `querys` questions. -/
def skipName (buffer : List UInt8) (ptr : Nat) : Nat → Option Nat
  | 0 => none
  | fuel + 1 => do
    let flag ← buffer[ptr]?
    let ptr := ptr + flag.toNat + 1
    if flag = 0 then some ptr else skipName buffer ptr fuel

def skipQuestions (buffer : List UInt8) : Nat → Nat → Option Nat
  | 0, ptr => some ptr
  | querys + 1, ptr => do
    let ptr ← skipName buffer ptr buffer.length
    skipQuestions buffer querys (ptr + 4)

/-- The body of the loop over the answers. A record that is neither of the two
types leaves `ptr` at its data. -/
def parseAnswer (buffer : List UInt8) (ptr : Nat) (list : List DnsItem) : Option (Nat × List DnsItem) := do
  let (aname, _) ← dnsParseName buffer ptr (Buffer.fill 0) 0
  let ptr := ptr + 2
  let type ← readShort buffer ptr
  let ptr := ptr + 4
  let _ttl ← Block.read buffer ptr 4
  let ptr := ptr + 4
  let datalen ← readShort buffer ptr
  let ptr := ptr + 2
  if dnsCname = type then
    let _cname ← dnsParseName buffer ptr (Buffer.fill 0) 0
    some (ptr + datalen, list)
  else if dnsHost = type then
    if 4 = datalen then
      let netip ← Block.read buffer ptr datalen
      let ip ← inetNtop netip (Buffer.fill 0) 16
      let domain ← cstring aname.cells
      let ip ← cstring ip.cells
      some (ptr + datalen, list ++ [⟨domain, ip⟩])
    else
      some (ptr + datalen, list)
  else
    some (ptr, list)

def parseAnswers (buffer : List UInt8) : Nat → Nat → List DnsItem → Option (List DnsItem)
  | 0, _, list => some list
  | answers + 1, ptr, list => do
    let (ptr, list) ← parseAnswer buffer ptr list
    parseAnswers buffer answers ptr list

/-- The result of `dns_parse_response` and the entries of `*domains`. -/
def dnsParseResponse (buffer : List UInt8) : Option (Nat × List DnsItem) := do
  let querys ← readShort buffer 4
  let answers ← readShort buffer 6
  let ptr ← skipQuestions buffer querys 12
  let list ← parseAnswers buffer answers ptr []
  some (list.length, list)

end NetPrograms.Dns
