import NetPrograms.Lib.Block
import NetPrograms.Lib.ByteOrder
import Mathlib.Data.List.Basic

/-! The messages of the domain name system as RFC 1035 lays them out. What stands
at a position of a message is a relation between the position, the item and the
position behind it. -/

namespace NetPrograms.Rfc1035

structure Label where
  bytes : List UInt8
  nonempty : bytes ≠ []
  short : bytes.length ≤ 63

theorem single_nonempty (byte : UInt8) : [byte] ≠ [] := List.cons_ne_nil _ _

theorem single_short (byte : UInt8) : [byte].length ≤ 63 := by simp

def Label.single (byte : UInt8) : Label := ⟨[byte], single_nonempty byte, single_short byte⟩

abbrev Name := List Label

/-- The labels with a dot between each two. -/
def Name.text (name : Name) : List UInt8 := [46].intercalate (name.map Label.bytes)

def Label.encode (label : Label) : List UInt8 := UInt8.ofNat label.bytes.length :: label.bytes

def Name.encode (name : Name) : List UInt8 := name.flatMap Label.encode ++ [0]

/-- A name starts at a position. A derivation is finite, so the pointers of a name
never lead back to it. -/
inductive NameAt (message : List UInt8) (compression : Bool) : Nat → Name → Nat → Prop where
  | root {pos} (zero : message[pos]? = some 0) : NameAt message compression pos [] (pos + 1)
  | label {pos label name next} (here : Block.read message pos (label.bytes.length + 1) = some label.encode)
      (rest : NameAt message compression (pos + label.bytes.length + 1) name next) :
      NameAt message compression pos (label :: name) next
  | pointer {pos high low name next} (allowed : compression = true)
      (first : message[pos]? = some high) (tag : 192 ≤ high.toNat) (second : message[pos + 1]? = some low)
      (target : NameAt message compression ((high.toNat - 192) * 256 + low.toNat) name next) :
      NameAt message compression pos name (pos + 2)

/-- A number in network order at a position. -/
def Number (message : List UInt8) (pos width n : Nat) : Prop :=
  (Block.read message pos width).map ofBigEndian = some n

/-- Items one behind the other. -/
inductive Sequence {α : Type} (At : Nat → α → Nat → Prop) : Nat → List α → Nat → Prop where
  | nil {pos} : Sequence At pos [] pos
  | cons {pos item middle items next} (first : At pos item middle) (rest : Sequence At middle items next) :
      Sequence At pos (item :: items) next

structure Question where
  name : Name
  type : Nat
  class_ : Nat

def QuestionAt (message : List UInt8) (compression : Bool) (pos : Nat) (q : Question) (next : Nat) : Prop :=
  ∃ after, NameAt message compression pos q.name after ∧ Number message after 2 q.type ∧
    Number message (after + 2) 2 q.class_ ∧ next = after + 4

def cname : Nat := 5

/-- A resource record with its position in the message. The RDATA of a CNAME
record is a name, the target. -/
structure Record where
  start : Nat
  owner : Name
  type : Nat
  class_ : Nat
  ttl : Nat
  rdata : List UInt8
  target : Option Name

def RecordAt (message : List UInt8) (pos : Nat) (r : Record) (next : Nat) : Prop :=
  r.start = pos ∧ ∃ after, NameAt message true pos r.owner after ∧ Number message after 2 r.type ∧
    Number message (after + 2) 2 r.class_ ∧ Number message (after + 4) 4 r.ttl ∧
    Number message (after + 8) 2 r.rdata.length ∧
    Block.read message (after + 10) r.rdata.length = some r.rdata ∧ next = after + 10 + r.rdata.length ∧
    (r.type = cname → ∃ target, r.target = some target ∧ NameAt message true (after + 10) target next)

structure Message where
  id : Nat
  flags : Nat
  questions : List Question
  answers : List Record
  authority : List Record
  additional : List Record

/-- The bytes are the message, from the header to the last record. -/
structure MessageAt (bytes : List UInt8) (compression : Bool) (m : Message) : Prop where
  id : Number bytes 0 2 m.id
  flags : Number bytes 2 2 m.flags
  qdcount : Number bytes 4 2 m.questions.length
  ancount : Number bytes 6 2 m.answers.length
  nscount : Number bytes 8 2 m.authority.length
  arcount : Number bytes 10 2 m.additional.length
  sections : ∃ first second third, Sequence (QuestionAt bytes compression) 12 m.questions first ∧
    Sequence (RecordAt bytes) first m.answers second ∧ Sequence (RecordAt bytes) second m.authority third ∧
    Sequence (RecordAt bytes) third m.additional bytes.length

theorem Number.encoded {message : List UInt8} {pos width n : Nat} (front : List UInt8)
    (here : front ++ bigEndian width n <+: message) (start : front.length = pos) (fits : n < 256 ^ width) :
    Number message pos width n := by
  obtain ⟨back, rfl⟩ := here
  subst start
  have middle := Block.read_middle front (bigEndian width n) back
  rw [bigEndian_length] at middle
  rw [Number, List.append_assoc, middle, Option.map_some, ofBigEndian_bigEndian fits]

@[simp] theorem Name.text_nil : Name.text [] = [] := rfl

@[simp] theorem Name.text_single (label : Label) : Name.text [label] = label.bytes := by
  simp [Name.text]

theorem Name.text_cons (label other : Label) (labels : Name) :
    Name.text (label :: other :: labels) = label.bytes ++ 46 :: Name.text (other :: labels) := by
  simp [Name.text, List.intercalate]

theorem Label.positive (label : Label) : 0 < label.bytes.length := List.length_pos_iff.mpr label.nonempty

@[simp] theorem Label.encode_length (label : Label) : label.encode.length = label.bytes.length + 1 := rfl

theorem Label.length_byte (label : Label) : (UInt8.ofNat label.bytes.length).toNat = label.bytes.length := by
  have short := label.short
  simp only [UInt8.toNat_ofNat']
  omega

theorem Label.length_ne_zero (label : Label) : UInt8.ofNat label.bytes.length ≠ 0 := by
  intro zero
  have length := label.length_byte
  rw [zero] at length
  exact absurd length (Nat.ne_of_lt label.positive)

/-- The first byte of a pointer is not that of an empty name. -/
theorem tag_ne_zero {high : UInt8} (tag : 192 ≤ high.toNat) : high ≠ 0 := by
  intro zero
  rw [zero] at tag
  cases tag

theorem Label.ext_bytes {first second : Label} (same : first.bytes = second.bytes) : first = second := by
  cases first
  cases second
  cases same
  rfl

section
variable {message : List UInt8} {compression : Bool} {pos next : Nat} {name : Name} {label : Label}

theorem label_byte (here : Block.read message pos (label.bytes.length + 1) = some label.encode) :
    message[pos]? = some (UInt8.ofNat label.bytes.length) := by
  obtain ⟨-, whole⟩ := Block.read_eq_some here
  have first := congrArg (·[0]?) whole
  rwa [Block.slice_getElem?, if_pos (Nat.succ_pos _), Nat.add_zero] at first

theorem label_bytes (here : Block.read message pos (label.bytes.length + 1) = some label.encode) :
    Block.read message (pos + 1) label.bytes.length = some label.bytes := by
  obtain ⟨inside, encoded⟩ := Block.read_eq_some here
  have whole : Block.slice message pos 1 ++ Block.slice message (pos + 1) label.bytes.length =
      [UInt8.ofNat label.bytes.length] ++ label.bytes := by
    rw [← Block.slice_append, Nat.add_comm]
    exact encoded
  have front : (Block.slice message pos 1).length = 1 := by
    rw [Block.slice_length]
    omega
  rw [Block.read_of_le (by omega)]
  exact congrArg some (List.append_inj_right whole front)

theorem label_first (here : Block.read message pos (label.bytes.length + 1) = some label.encode) {byte : UInt8}
    (first : message[pos]? = some byte) : byte.toNat = label.bytes.length := by
  have length := label.length_byte
  rw [label_byte here] at first
  rwa [Option.some.inj first] at length

/-- A label starts with a byte that is neither zero nor that of a pointer. -/
theorem label_not_root (here : Block.read message pos (label.bytes.length + 1) = some label.encode) :
    message[pos]? ≠ some 0 := by
  intro zero
  exact absurd (label_first here zero) (Nat.ne_of_lt label.positive)

theorem label_not_pointer (here : Block.read message pos (label.bytes.length + 1) = some label.encode) {high : UInt8}
    (first : message[pos]? = some high) : ¬ 192 ≤ high.toNat := by
  have length := label_first here first
  have short := label.short
  omega

theorem label_unique (here : Block.read message pos (label.bytes.length + 1) = some label.encode) {other : Label}
    (again : Block.read message pos (other.bytes.length + 1) = some other.encode) : label = other := by
  have length := (label_first here (label_byte again)).symm.trans other.length_byte
  have bytes := label_bytes again
  rw [← length, label_bytes here] at bytes
  exact Label.ext_bytes (Option.some.inj bytes)

/-- An encoded name inside a message. -/
theorem NameAt.encoded (front back : List UInt8) (name : Name) :
    NameAt (front ++ (name.encode ++ back)) compression front.length name (front.length + name.encode.length) := by
  induction name generalizing front with
  | nil => exact .root (by simp [Name.encode])
  | cons label name ih =>
    have moved := ih (front ++ label.encode)
    have same : front ++ label.encode ++ (Name.encode name ++ back) = front ++ (Name.encode (label :: name) ++ back) := by
      simp [Name.encode]
    have start : (front ++ label.encode).length = front.length + label.bytes.length + 1 := List.length_append
    have length : front.length + (Name.encode (label :: name)).length =
        front.length + label.bytes.length + 1 + (Name.encode name).length := by
      simp [Name.encode]
      omega
    rw [same, start] at moved
    rw [length]
    refine .label ?_ moved
    rw [← same, List.append_assoc]
    exact Block.read_middle front label.encode _

theorem NameAt.forward (found : NameAt message compression pos name next) : pos < next := by
  induction found with
  | root | pointer => omega
  | label _ _ ih => omega

theorem Number.append {width n : Nat} (found : Number message pos width n) (back : List UInt8) :
    Number (message ++ back) pos width n := by
  obtain ⟨bytes, read, value⟩ := Option.map_eq_some_iff.mp found
  rw [Number, Block.read_append read back]
  exact congrArg some value

/-- What stands at a position is one name at most. -/
theorem NameAt.unique (found : NameAt message compression pos name next) {other : Name} {behind : Nat}
    (again : NameAt message compression pos other behind) : name = other ∧ next = behind := by
  induction found generalizing other behind with
  | @root pos zero =>
    cases again with
    | root => exact ⟨rfl, rfl⟩
    | label here => exact absurd zero (label_not_root here)
    | pointer _ first tag => exact absurd (Option.some.inj (first.symm.trans zero)) (tag_ne_zero tag)
  | @label pos label name next here rest ih =>
    cases again with
    | root zero => exact absurd zero (label_not_root here)
    | @label _ label' _ _ here' rest' =>
      obtain rfl := label_unique here here'
      obtain ⟨rfl, rfl⟩ := ih rest'
      exact ⟨rfl, rfl⟩
    | pointer _ first tag => exact absurd tag (label_not_pointer here first)
  | @pointer pos high low name next _ first tag second target ih =>
    cases again with
    | root zero => exact absurd (Option.some.inj (first.symm.trans zero)) (tag_ne_zero tag)
    | label here => exact absurd tag (label_not_pointer here first)
    | pointer _ first' _ second' target' =>
      rw [first] at first'
      rw [second] at second'
      cases first'
      cases second'
      exact ⟨(ih target').1, rfl⟩

end
end NetPrograms.Rfc1035
