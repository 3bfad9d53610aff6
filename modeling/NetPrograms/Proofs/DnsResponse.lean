import NetPrograms.Proofs.DnsNames

/-! `dns_parse_response` takes every owner name for a pointer and every record for
an address or an alias. On responses that are so, it returns the address records,
each with the name that `dns_parse_name` spells. -/

namespace NetPrograms.Proofs.DnsResponse
open Dns Rfc1035 DnsNames

/-- The records that the result is about. -/
def Counted (r : Record) : Prop := r.type = dnsHost ∧ r.rdata.length = 4

instance (r : Record) : Decidable (Counted r) := inferInstanceAs (Decidable (_ ∧ _))

def item (r : Record) : DnsItem := ⟨r.owner.text, dottedQuad r.rdata⟩

def items (answers : List Record) : List DnsItem := (answers.filter fun r => Counted r).map item

/-- The names have room in the arrays of the program. -/
def Short (r : Record) : Prop := r.owner.text.length ≤ 127 ∧ ∀ target, r.target = some target → target.text.length ≤ 127

/-- Every owner name is a pointer and nothing else, and only the last record has
data of a type that is not skipped. -/
structure Aligned (message : List UInt8) (answers : List Record) : Prop where
  pointers : ∀ r ∈ answers, ∃ high, message[r.start]? = some high ∧ 192 ≤ high.toNat
  skipped : ∀ r ∈ answers.dropLast, r.type = dnsHost ∨ r.type = dnsCname ∨ r.rdata = []

/-- The owner name is a string of the language, and is spelled without a dot at
its end. -/
def Legible (message : List UInt8) (r : Record) : Prop := 0 ∉ r.owner.text ∧ ¬ Dangling message r.start

section quad
variable {netip : List UInt8}

theorem quad_cons (a b c d : UInt8) : dottedQuad [a, b, c, d] = digits a.toNat ++ dot :: digits b.toNat ++
    dot :: digits c.toNat ++ dot :: digits d.toNat := by
  simp [dottedQuad, List.intercalate]

theorem quad_printed (four : netip.length = 4) : (dottedQuad netip).length < 16 ∧ 0 ∉ dottedQuad netip := by
  obtain ⟨a, b, c, d, rfl⟩ : ∃ a b c d, netip = [a, b, c, d] := by
    match netip, four with
    | [a, b, c, d], _ => exact ⟨a, b, c, d, rfl⟩
  have octet : ∀ byte : UInt8, (digits byte.toNat).length ≤ 3 ∧ 0 ∉ digits byte.toNat := by
    intro byte
    have bounded := byte.toNat_lt
    refine ⟨digits_length (by decide) (by omega), ?_⟩
    intro zero
    cases (digits_range zero).1
  have first := octet a
  have second := octet b
  have third := octet c
  have fourth := octet d
  rw [quad_cons]
  constructor
  · simp only [List.length_append, List.length_cons]
    omega
  · simp [dot, first.2, second.2, third.2, fourth.2]

theorem inetNtop_eq (four : netip.length = 4) : ∃ ip, inetNtop netip (Buffer.fill 0) 16 = some ip ∧
    cstring ip.cells = some (dottedQuad netip) := by
  obtain ⟨short, free⟩ := quad_printed four
  obtain ⟨ip, wrote, cells⟩ := Buffer.write_of_le (Buffer.fill 0 : Buffer UInt8 20) 0 (dottedQuad netip ++ [0])
    (by rw [List.length_append, List.length_singleton]; omega)
  refine ⟨ip, by rw [inetNtop, if_pos short, wrote], ?_⟩
  rw [cells, Block.overlay_zero, List.append_assoc]
  exact cstring_append free _

end quad

section
variable {message back : List UInt8} {pos next : Nat} {r : Record}

theorem pointer_next {compression : Bool} {name : Name} {high : UInt8} (found : NameAt message compression pos name next)
    (first : message[pos]? = some high) (tag : 192 ≤ high.toNat) : next = pos + 2 := by
  cases found with
  | root zero => exact absurd (Option.some.inj (first.symm.trans zero)) (tag_ne_zero tag)
  | label here => exact absurd tag (label_not_pointer here first)
  | pointer => rfl

theorem readShort_eq {n : Nat} (found : Number message pos 2 n) : readShort (message ++ back) pos = some n :=
  found.append back

/-- Every name that has room is parsed. -/
theorem parseName_name (back : List UInt8) {name : Name} (found : NameAt message true pos name next) (short : name.text.length ≤ 127) :
    ∃ text aname, dnsParseName (message ++ back) pos (Buffer.fill 0) 0 = some (aname, text.length) ∧
      aname.cells = text ++ List.replicate (128 - text.length) 0 ∧
      (¬ Dangling message pos ∧ text = name.text ∨ Dangling message pos ∧ text = name.text ++ [dot]) := by
  obtain ⟨text, reads, spelled⟩ := reads_name found
  have room : text.length ≤ 128 := by
    rcases spelled with plain | dangling
    · rw [plain.2]; omega
    · rw [dangling.2, List.length_append, List.length_singleton]; omega
  obtain ⟨aname, parsed, cells⟩ := parseName_eq (reads.append back) room
  exact ⟨text, aname, parsed, cells, spelled⟩

/-- A record behind a pointer. A counted one is entered under the string that the
name was spelled as. -/
theorem parseAnswer_eq (record : RecordAt message pos r next) (short : Short r) {high : UInt8}
    (first : message[pos]? = some high) (tag : 192 ≤ high.toNat) :
    ∃ (text : List UInt8) (ptr : Nat), (r.type = dnsHost ∨ r.type = dnsCname ∨ r.rdata = [] → ptr = next) ∧
      (¬ Dangling message pos ∧ text = r.owner.text ∨ Dangling message pos ∧ text = r.owner.text ++ [dot]) ∧
      ∀ list, parseAnswer (message ++ back) pos list =
        if Counted r then (cstring (text ++ List.replicate (128 - text.length) 0)).map
          fun domain => (ptr, list ++ [⟨domain, dottedQuad r.rdata⟩])
        else some (ptr, list) := by
  obtain ⟨-, after, owner, type, -, ttl, length, data, rfl, target⟩ := record
  obtain rfl := pointer_next owner first tag
  obtain ⟨text, aname, parsed, cells, spelled⟩ := parseName_name back owner short.1
  obtain ⟨ttl, readTtl, -⟩ := Option.map_eq_some_iff.mp ttl
  have readType := @readShort_eq _ back _ _ type
  have readTtl : Block.read (message ++ back) (pos + 2 + 4) 4 = some ttl := Block.read_append readTtl back
  have readLength : readShort (message ++ back) (pos + 2 + 4 + 4) = some r.rdata.length := readShort_eq length
  have readData : Block.read (message ++ back) (pos + 2 + 4 + 4 + 2) r.rdata.length = some r.rdata :=
    Block.read_append data back
  have host : ¬ dnsCname = dnsHost := by decide
  refine ⟨text, if r.type = dnsHost ∨ r.type = dnsCname then pos + 2 + 10 + r.rdata.length else pos + 2 + 10, ?_, spelled,
    ?_⟩
  · intro skipped
    split
    · rfl
    next other =>
      have none := (or_assoc.mpr skipped).resolve_left other
      rw [none]
      rfl
  · intro list
    simp only [parseAnswer, parsed, readType, readTtl, readLength, readData, Option.bind_eq_bind, Option.bind_some]
    by_cases cnameType : r.type = dnsCname
    · obtain ⟨name, known, found⟩ := target cnameType
      obtain ⟨_, cname, parsedCname, -⟩ := parseName_name back found (short.2 name known)
      have behind : dnsParseName (message ++ back) (pos + 2 + 4 + 4 + 2) (Buffer.fill 0) 0 = _ := parsedCname
      have uncounted : ¬ Counted r := fun counted => host (cnameType.symm.trans counted.1)
      simp only [cnameType, behind, uncounted, Option.bind_some, if_true, if_false, or_true]
    · by_cases hostType : r.type = dnsHost
      · by_cases four : r.rdata.length = 4
        · obtain ⟨ip, printed, quad⟩ := inetNtop_eq four
          have counted : Counted r := ⟨hostType, four⟩
          simp only [hostType, host, four, counted, printed, cells, quad, if_true, if_false, true_or,
            Option.bind_some]
          cases cstring (text ++ List.replicate (128 - text.length) 0) <;> rfl
        · have uncounted : ¬ Counted r := fun counted => four counted.2
          simp only [hostType, host, Ne.symm four, uncounted, if_true, if_false, true_or]
      · have uncounted : ¬ Counted r := fun counted => hostType counted.1
        simp only [hostType, cnameType, Ne.symm hostType, Ne.symm cnameType, uncounted, if_false, or_self]

/-- The string of the spelled name is the owner name exactly when that is legible. -/
theorem domain_iff {text : List UInt8} (start : r.start = pos)
    (spelled : ¬ Dangling message pos ∧ text = r.owner.text ∨ Dangling message pos ∧ text = r.owner.text ++ [dot])
    (short : Short r) :
    cstring (text ++ List.replicate (128 - text.length) 0) = some r.owner.text ↔ Legible message r := by
  obtain ⟨room, -⟩ := short
  subst start
  constructor
  · intro heard
    obtain ⟨free, rest, whole⟩ := cstring_eq_some heard
    refine ⟨free, ?_⟩
    rcases spelled with plain | dangling
    · exact plain.1
    · rw [dangling.2, List.append_assoc] at whole
      have other := List.append_cancel_left whole
      cases other
  · intro legible
    obtain ⟨free, plain⟩ := legible
    rcases spelled with same | dangling
    · obtain ⟨zeros, padding⟩ := Nat.exists_eq_succ_of_ne_zero (show 128 - r.owner.text.length ≠ 0 by omega)
      rw [same.2, padding]
      exact cstring_append free _
    · exact absurd dangling.1 plain

theorem parseAnswer_extends {buffer : List UInt8} {ptr after : Nat} {list longer : List DnsItem}
    (parsed : parseAnswer buffer ptr list = some (after, longer)) : list <+: longer := by
  simp only [parseAnswer, Option.bind_eq_bind, Option.bind_eq_some_iff] at parsed
  obtain ⟨_, _, _, _, _, _, _, _, parsed⟩ := parsed
  split at parsed
  · obtain ⟨_, _, same⟩ := Option.bind_eq_some_iff.mp parsed
    cases same
    exact List.prefix_rfl
  · split at parsed
    · split at parsed
      · simp only [Option.bind_eq_some_iff] at parsed
        obtain ⟨_, _, _, _, _, _, _, _, same⟩ := parsed
        cases same
        exact List.prefix_append _ _
      · cases parsed
        exact List.prefix_rfl
    · cases parsed
      exact List.prefix_rfl

theorem parseAnswers_extends {buffer : List UInt8} {answers ptr : Nat} {list longer : List DnsItem}
    (parsed : parseAnswers buffer answers ptr list = some longer) : list <+: longer := by
  induction answers generalizing ptr list with
  | zero =>
    cases parsed
    exact List.prefix_rfl
  | succ answers ih =>
    obtain ⟨⟨after, middle⟩, first, rest⟩ := Option.bind_eq_some_iff.mp parsed
    exact (parseAnswer_extends first).trans (ih rest)

theorem items_cons (answers : List Record) :
    items (r :: answers) = (if Counted r then [item r] else []) ++ items answers := by
  unfold items
  by_cases counted : Counted r <;> simp [counted]

/-- The loop over aligned answers enters all counted ones when they are legible,
and something else when one of them is not. -/
theorem parseAnswers_iff {answers : List Record} (sequence : Sequence (RecordAt message) pos answers next)
    (short : ∀ r ∈ answers, Short r) (aligned : Aligned message answers) (list : List DnsItem) :
    parseAnswers (message ++ back) answers.length pos list = some (list ++ items answers) ↔
      ∀ r ∈ answers, Counted r → Legible message r := by
  induction sequence generalizing list with
  | nil => simp [parseAnswers, items]
  | @cons pos r middle rest next first more ih =>
    have start := first.1
    obtain ⟨high, byte, tag⟩ := aligned.pointers r List.mem_cons_self
    rw [start] at byte
    obtain ⟨text, ptr, moved, spelled, parsed⟩ := @parseAnswer_eq _ back _ _ _ first (short r List.mem_cons_self) _ byte tag
    have heard := domain_iff start spelled (short r List.mem_cons_self)
    have further : ∀ list, parseAnswers (message ++ back) rest.length ptr list = some (list ++ items rest) ↔
        ∀ r ∈ rest, Counted r → Legible message r := by
      intro list
      cases rest with
      | nil => simp [parseAnswers, items]
      | cons second rest =>
        rw [moved (aligned.skipped r List.mem_cons_self)]
        apply ih (fun other member => short other (List.mem_cons_of_mem _ member)) ⟨?_, ?_⟩
        · exact fun other member => aligned.pointers other (List.mem_cons_of_mem _ member)
        · exact fun other member => aligned.skipped other (List.mem_cons_of_mem _ member)
    simp only [List.length_cons, parseAnswers, parsed, items_cons, List.forall_mem_cons]
    by_cases counted : Counted r
    · simp only [counted, if_true, true_imp_iff, ← heard, Option.bind_eq_bind, ← List.append_assoc list]
      cases cstring (text ++ List.replicate (128 - text.length) 0) with
      | none => simp
      | some domain =>
        simp only [Option.map_some, Option.bind_some, Option.some.injEq]
        by_cases same : domain = r.owner.text
        · subst same
          simp only [true_and]
          exact further _
        · simp only [same, false_and, iff_false]
          intro entered
          have extended := parseAnswers_extends entered
          rw [List.append_assoc, List.prefix_append_right_inj, List.singleton_append, List.cons_prefix_cons] at extended
          exact same (congrArg DnsItem.domain extended.1)
    · simp only [counted, if_false, false_imp_iff, true_and, Option.bind_eq_bind, Option.bind_some, List.nil_append]
      exact further list

theorem skipName_eq {name : Name} (found : NameAt message false pos name next) {fuel : Nat}
    (enough : next ≤ pos + fuel) : skipName (message ++ back) pos fuel = some next := by
  induction found generalizing fuel with
  | @root pos zero =>
    obtain ⟨less, rfl⟩ := Nat.exists_eq_succ_of_ne_zero (show fuel ≠ 0 by omega)
    simp [skipName, Block.cell_append zero back]
  | @label pos label name next here rest ih =>
    have forward := rest.forward
    have length := label.length_byte
    have first := Block.cell_append (label_byte here) back
    obtain ⟨less, rfl⟩ := Nat.exists_eq_succ_of_ne_zero (show fuel ≠ 0 by omega)
    simp only [skipName, first, label.length_ne_zero, length, Option.bind_eq_bind, Option.bind_some, if_false]
    exact ih (by omega)
  | pointer allowed => cases allowed

theorem name_inside {compression : Bool} {name : Name} (found : NameAt message compression pos name next) :
    next ≤ message.length := by
  induction found with
  | root zero => exact (List.getElem?_eq_some_iff.mp zero).1
  | label _ _ ih => exact ih
  | pointer _ _ _ second => exact (List.getElem?_eq_some_iff.mp second).1

theorem skipQuestions_eq {questions : List Question} (sequence : Sequence (QuestionAt message false) pos questions next) :
    skipQuestions (message ++ back) questions.length pos = some next := by
  induction sequence with
  | nil => rfl
  | cons first _ ih =>
    obtain ⟨after, name, -, -, rfl⟩ := first
    have inside := name_inside name
    have skipped := @skipName_eq _ back _ _ _ name (message ++ back).length (by rw [List.length_append]; omega)
    simp only [List.length_cons, skipQuestions, skipped, Option.bind_eq_bind, Option.bind_some]
    exact ih

/-- On aligned responses in the array of `dns_client_commit` the result is the
counted records, each under its owner name, exactly when those names are legible. -/
theorem parse_response_iff (bytes : List UInt8) (m : Message) (response : Buffer UInt8 1024)
    (received : bytes <+: response.cells) (wellFormed : MessageAt bytes false m) (short : ∀ r ∈ m.answers, Short r)
    (aligned : Aligned bytes m.answers) :
    dnsParseResponse response.cells = some ((items m.answers).length, items m.answers) ↔
      ∀ r ∈ m.answers, Counted r → Legible bytes r := by
  obtain ⟨back, whole⟩ := received
  obtain ⟨first, second, -, questions, answers, -, -⟩ := wellFormed.sections
  have entered := @parseAnswers_iff _ back _ _ _ answers short aligned []
  rw [← whole, ← entered]
  simp only [dnsParseResponse, readShort_eq wellFormed.qdcount, readShort_eq wellFormed.ancount,
    skipQuestions_eq questions, Option.bind_eq_bind, Option.bind_some, List.nil_append]
  constructor
  · intro returned
    obtain ⟨list, parsed, same⟩ := Option.bind_eq_some_iff.mp returned
    rw [parsed]
    exact congrArg (Option.map Prod.snd) same
  · intro parsed
    rw [parsed]
    rfl

end

section
private def letter : Label := ⟨[97], List.cons_ne_nil _ _, by simp⟩

private def other : Label := ⟨[98], List.cons_ne_nil _ _, by simp⟩

private def address (start : Nat) (owner : Name) : Record where
  start
  owner
  type := 1
  class_ := 1
  ttl := 60
  rdata := [1, 2, 3, 4]
  target := none

private def canonical : Record where
  start := 19
  owner := [letter]
  type := 5
  class_ := 1
  ttl := 60
  rdata := [1, 98, 0]
  target := some [other]

private def reply (questions : List Question) (answers : List Record) : Message where
  id := 7
  flags := 33152
  questions
  answers
  authority := []
  additional := []

/-- A question for `a`, its alias `b` under a pointer to the question, and the address
under a pointer into the data of the alias. -/
private def pointed : List UInt8 := [0, 7, 129, 128, 0, 1, 0, 2, 0, 0, 0, 0, 1, 97, 0, 0, 1, 0, 1,
  192, 12, 0, 5, 0, 1, 0, 0, 0, 60, 0, 3, 1, 98, 0, 192, 31, 0, 1, 0, 1, 0, 0, 0, 60, 0, 4, 1, 2, 3, 4]

private theorem pointed_wellFormed :
    MessageAt pointed false (reply [⟨[letter], 1, 1⟩] [canonical, address 34 [other]]) := by
  have name : ∀ compression, NameAt pointed compression 12 [letter] 15 := fun _ => .label rfl (.root rfl)
  have target : NameAt pointed true 31 [other] 34 := .label rfl (.root rfl)
  have question : QuestionAt pointed false 12 ⟨[letter], 1, 1⟩ 19 := ⟨15, name false, rfl, rfl, rfl⟩
  have first : RecordAt pointed 19 canonical 34 :=
    ⟨rfl, 21, .pointer rfl rfl (by decide) rfl (name true), rfl, rfl, rfl, rfl, rfl, rfl, fun _ => ⟨_, rfl, target⟩⟩
  have second : RecordAt pointed 34 (address 34 [other]) 50 :=
    ⟨rfl, 36, .pointer rfl rfl (by decide) rfl target, rfl, rfl, rfl, rfl, rfl, rfl, nofun⟩
  exact ⟨rfl, rfl, rfl, rfl, rfl, rfl, _, _, _, .cons question .nil, .cons first (.cons second .nil), .nil, .nil⟩

private theorem pointed_legible : Legible pointed (address 34 [other]) := by
  refine ⟨by decide, ?_⟩
  have second : Block.read pointed 31 (other.bytes.length + 1) = some other.encode := rfl
  intro dangling
  have target : Dangling pointed 31 := (@dangling_pointer pointed 34 192 31 rfl (by decide) rfl).mp dangling
  rcases (dangling_label second).mp target with behind | behind
  · obtain ⟨high, next, found, tag, -⟩ := behind
    obtain rfl := Option.some.inj (found.symm.trans (show pointed[33]? = some 0 from rfl))
    exact absurd tag (by decide)
  · exact dangling_nonempty behind (.root rfl) rfl

theorem parse_response_iff_pointed :
    dnsParseResponse ((Buffer.fill 0 : Buffer UInt8 1024).put pointed (by decide)).cells =
      some (1, [⟨[98], ascii "1.2.3.4"⟩]) := by
  have same : items [canonical, address 34 [other]] = [⟨[98], ascii "1.2.3.4"⟩] := by decide
  have short : ∀ r ∈ [canonical, address 34 [other]], Short r := by
    intro r member
    simp only [List.mem_cons, List.not_mem_nil, or_false] at member
    rcases member with rfl | rfl
    · refine ⟨by decide, fun target found => ?_⟩
      obtain rfl := Option.some.inj found
      decide
    · exact ⟨by decide, nofun⟩
  have aligned : Aligned pointed [canonical, address 34 [other]] := by
    refine ⟨fun r member => ⟨192, ?_, by decide⟩, by decide⟩
    simp only [List.mem_cons, List.not_mem_nil, or_false] at member
    rcases member with rfl | rfl <;> rfl
  have parsed := parse_response_iff pointed (reply [⟨[letter], 1, 1⟩] [canonical, address 34 [other]])
    ((Buffer.fill 0).put pointed (by decide)) (by simp) pointed_wellFormed short aligned
  refine (congrArg (fun list => some (list.length, list)) same) ▸ parsed.mpr ?_
  intro r member counted
  simp only [reply, List.mem_cons, List.not_mem_nil, or_false] at member
  rcases member with rfl | rfl
  · exact absurd counted (by decide)
  · exact pointed_legible

/-- The same address under the name itself. -/
private def spelled : List UInt8 := [0, 7, 129, 128, 0, 0, 0, 1, 0, 0, 0, 0,
  1, 97, 0, 0, 1, 0, 1, 0, 0, 0, 60, 0, 4, 1, 2, 3, 4]

theorem parse_response_loses_spelled_name : ¬ ∀ (bytes : List UInt8) (m : Message) (response : Buffer UInt8 1024),
    bytes <+: response.cells → MessageAt bytes false m → (∀ r ∈ m.answers, Short r) →
    dnsParseResponse response.cells = some ((items m.answers).length, items m.answers) := by
  intro always
  have short : Short (address 12 [letter]) := ⟨by decide, nofun⟩
  have answer : RecordAt spelled 12 (address 12 [letter]) 29 :=
    ⟨rfl, 15, .label rfl (.root rfl), rfl, rfl, rfl, rfl, rfl, rfl, nofun⟩
  have wellFormed : MessageAt spelled false (reply [] [address 12 [letter]]) :=
    ⟨rfl, rfl, rfl, rfl, rfl, rfl, _, _, _, .nil, .cons answer .nil, .nil, .nil⟩
  have entered := always spelled (reply [] [address 12 [letter]]) ((Buffer.fill 0).put spelled (by decide)) (by simp) wellFormed
    (fun r member => List.mem_singleton.mp member ▸ short)
  have lost : dnsParseResponse ((Buffer.fill 0 : Buffer UInt8 1024).put spelled (by decide)).cells = some (0, []) := by
    decide +kernel
  rw [lost] at entered
  exact absurd (congrArg (Option.map Prod.fst) entered) (by decide)

end
end NetPrograms.Proofs.DnsResponse
