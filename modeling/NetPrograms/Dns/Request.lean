import NetPrograms.Lib.Block
import NetPrograms.Lib.ByteOrder
import NetPrograms.Lib.Strtok

/-! `convert_domain`, `dns_create_question` and `dns_build_request` of dns.c, and
the calls of them in `dns_client_commit`. -/

namespace NetPrograms.Dns

def dot : UInt8 := 46

def htons (n : UInt16) : UInt16 := (n <<< 8) ||| (n >>> 8)

/-- An `unsigned short` in memory. -/
def stored (n : UInt16) : List UInt8 := littleEndian 2 n.toNat

structure DnsHeader where
  id : UInt16
  flags : UInt16
  questions : UInt16
  answer : UInt16
  authority : UInt16
  additional : UInt16

def DnsHeader.bytes (header : DnsHeader) : List UInt8 :=
  stored header.id ++ stored header.flags ++ stored header.questions ++ stored header.answer ++
    stored header.authority ++ stored header.additional

structure DnsQuestion where
  length : Nat
  qtype : UInt16
  qclass : UInt16
  name : List UInt8

def dnsCreateHeader (rand : UInt16) : DnsHeader where
  id := rand
  flags := htons 0x0100
  questions := htons 1
  answer := 0
  authority := 0
  additional := 0

/-- The body of the loop of `convert_domain`: `result` is an index into the block
that `original_result` points to. The length of a token has no bound here, the `int`
that holds it is in `Domain.putToken`. -/
def putToken (original : List UInt8) (result : Nat) (token : List UInt8) : Option (List UInt8) := do
  let original ← Block.write original result [UInt8.ofNat token.length]
  Block.write original (result + 1) token

/-- The loop of `convert_domain` with what the last `strtok` returned. -/
def convertFrom (original : List UInt8) (result : Nat) (call : Option (List UInt8) × List UInt8) :
    Nat → Option (List UInt8)
  | 0 => none
  | fuel + 1 =>
    match call with
    | (none, _) => Block.write original result [0]
    | (some token, rest) => do
      let original ← putToken original result token
      convertFrom original (result + 1 + token.length) (strtok dot rest) fuel

/-- The whole block that `convert_domain` returns. A token has at least one byte,
so `strtok` is called at most once more than there are bytes. -/
def convertDomain (domain : List UInt8) : Option (List UInt8) :=
  convertFrom (List.replicate (domain.length + 2) 0) 0 (strtok dot domain) (domain.length + 1)

def dnsCreateQuestion (hostname : List UInt8) : Option DnsQuestion := do
  let name ← convertDomain hostname
  some {
    length := hostname.length + 2
    qtype := htons 1
    qclass := htons 1
    name }

def dnsBuildRequest (header : DnsHeader) (question : DnsQuestion) (rlen : Nat) : Option (Buffer UInt8 rlen × Nat) := do
  let request ← (Buffer.fill 0 : Buffer UInt8 rlen).write 0 header.bytes
  let offset := header.bytes.length
  let name ← Block.read question.name 0 question.length
  let request ← request.write offset name
  let offset := offset + question.length
  let request ← request.write offset (stored question.qtype)
  let offset := offset + 2
  let request ← request.write offset (stored question.qclass)
  some (request, offset + 2)

/-- The bytes that `dns_client_commit` sends for a name. -/
def clientRequest (rand : UInt16) (domain : List UInt8) : Option (List UInt8) := do
  let question ← dnsCreateQuestion domain
  let (request, length) ← dnsBuildRequest (dnsCreateHeader rand) question 1024
  request.read 0 length

end NetPrograms.Dns
