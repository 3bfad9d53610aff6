import NetPrograms.Dns.Request
import NetPrograms.Lib.Rfc1035

/-! The query of a host name is a message of RFC 1035 exactly when the name has
no dot at its end: `dns_create_question` counts that dot as a byte of the encoded
name, which `convert_domain` does not write. -/

namespace NetPrograms.Proofs.DnsRequest
open Dns Rfc1035

/-- What the loop of `convert_domain` writes for the tokens. -/
def prefixed (tokens : List (List UInt8)) : List UInt8 :=
  tokens.flatMap fun token => UInt8.ofNat token.length :: token

theorem prefixed_tokens_length (text : List UInt8) : (prefixed (tokens dot text)).length ≤ text.length + 1 := by
  generalize same : text.length = length
  induction length using Nat.strong_induction_on generalizing text with
  | _ length ih =>
    cases call : (strtok dot text).1 with
    | none =>
      rw [tokens_none call]
      exact Nat.zero_le _
    | some token =>
      have found : strtok dot text = (some token, (strtok dot text).2) := Prod.ext call rfl
      obtain ⟨nonempty, total, shorter⟩ := strtok_some found
      have positive := List.length_pos_iff.mpr nonempty
      rw [tokens_some found]
      simp only [prefixed, List.flatMap_cons, List.length_append, List.length_cons]
      cases rest : (strtok dot text).2 with
      | nil =>
        have last : tokens dot ([] : List UInt8) = [] := rfl
        simp only [last, List.flatMap_nil, List.length_nil]
        omega
      | cons first more =>
        rw [rest] at shorter
        have strict := shorter (List.cons_ne_nil _ _)
        have tail := ih _ (by omega) (first :: more) rfl
        unfold prefixed at tail
        omega

theorem putToken_eq (done token : List UInt8) {zeros : Nat} (room : token.length < zeros) :
    putToken (done ++ List.replicate zeros 0) done.length token =
      some (done ++ UInt8.ofNat token.length :: token ++ List.replicate (zeros - (token.length + 1)) 0) := by
  unfold putToken
  have first := Block.write_behind done [UInt8.ofNat token.length] (List.replicate zeros 0)
    (by simp only [List.length_replicate, List.length_singleton]; omega)
  have second := Block.write_behind (done ++ [UInt8.ofNat token.length]) token (List.replicate (zeros - 1) 0)
    (by simp only [List.length_replicate]; omega)
  simp only [List.length_append, List.length_singleton, List.drop_replicate, List.append_assoc, List.singleton_append]
    at first second
  rw [first, Option.bind_eq_bind, Option.bind_some, second, Nat.sub_sub, Nat.add_comm 1]
  simp

theorem convertFrom_eq (done text : List UInt8) (zeros : Nat) {fuel : Nat} (room : (prefixed (tokens dot text)).length < zeros)
    (enough : text.length < fuel) : convertFrom (done ++ List.replicate zeros 0) done.length (strtok dot text) fuel =
      some (done ++ prefixed (tokens dot text) ++ List.replicate (zeros - (prefixed (tokens dot text)).length) 0) := by
  induction fuel generalizing done text zeros with
  | zero => cases enough
  | succ fuel ih =>
    cases call : (strtok dot text).1 with
    | none =>
      rw [strtok_none call, tokens_none call]
      have ended := Block.write_behind done [0] (List.replicate zeros (0 : UInt8))
        (by simp only [List.length_replicate, List.length_singleton]; omega)
      have same : [0] ++ (List.replicate zeros (0 : UInt8)).drop [(0 : UInt8)].length = List.replicate zeros 0 := by
        obtain ⟨less, rfl⟩ := Nat.exists_eq_succ_of_ne_zero (show zeros ≠ 0 by omega)
        rfl
      rw [same] at ended
      simpa [convertFrom, prefixed] using ended
    | some token =>
      have found : strtok dot text = (some token, (strtok dot text).2) := Prod.ext call rfl
      obtain ⟨nonempty, total, -⟩ := strtok_some found
      have positive := List.length_pos_iff.mpr nonempty
      rw [tokens_some found] at room ⊢
      have here : prefixed (token :: tokens dot (strtok dot text).2) =
          UInt8.ofNat token.length :: token ++ prefixed (tokens dot (strtok dot text).2) := rfl
      have size := congrArg List.length here
      simp only [List.length_append, List.length_cons] at size
      have next := ih (done ++ UInt8.ofNat token.length :: token) (strtok dot text).2
        (zeros - (token.length + 1)) (by omega) (by omega)
      rw [found, convertFrom, putToken_eq done token (by omega)]
      have moved : done.length + 1 + token.length = (done ++ UInt8.ofNat token.length :: token).length := by
        simp only [List.length_append, List.length_cons]
        omega
      simp only [Option.bind_eq_bind, Option.bind_some, moved]
      rw [next, here, List.append_assoc done, List.length_append, List.length_cons, Nat.sub_sub]

/-- `convert_domain` writes every token behind its length, and the rest of the
block stays zero. -/
theorem convertDomain_eq (domain : List UInt8) : convertDomain domain = some (prefixed (tokens dot domain) ++
    List.replicate (domain.length + 2 - (prefixed (tokens dot domain)).length) 0) := by
  have room := prefixed_tokens_length domain
  exact convertFrom_eq [] domain (domain.length + 2) (by omega) (Nat.lt_succ_self _)

/-- The array starts with the bytes, and the rest of it is zero. -/
def Filled {size : Nat} (request : Buffer UInt8 size) (bytes : List UInt8) : Prop :=
  ∃ zeros, request.cells = bytes ++ List.replicate zeros 0

theorem Filled.write {size : Nat} {request : Buffer UInt8 size} {bytes : List UInt8} (filled : Filled request bytes)
    (items : List UInt8) (fits : bytes.length + items.length ≤ size) :
    ∃ after, request.write bytes.length items = some after ∧ Filled after (bytes ++ items) := by
  obtain ⟨zeros, whole⟩ := filled
  have length := congrArg List.length whole
  rw [request.size, List.length_append, List.length_replicate] at length
  obtain ⟨after, written, cells⟩ := Buffer.write_behind whole items (by rw [List.length_replicate]; omega)
  exact ⟨after, written, zeros - items.length, by rw [cells, List.drop_replicate, List.append_assoc]⟩

theorem Filled.read {size : Nat} {request : Buffer UInt8 size} {bytes : List UInt8} (filled : Filled request bytes) :
    request.read 0 bytes.length = some bytes := by
  obtain ⟨zeros, whole⟩ := filled
  unfold Buffer.read
  rw [whole]
  exact Block.read_middle [] bytes _

@[simp] theorem stored_length (n : UInt16) : (stored n).length = 2 := littleEndian_length 2 _

@[simp] theorem header_length (header : DnsHeader) : header.bytes.length = 12 := by
  simp [DnsHeader.bytes]

theorem dnsBuildRequest_eq (header : DnsHeader) {question : DnsQuestion} {rlen : Nat}
    (owned : question.name.length = question.length) (fits : 12 + question.length + 4 ≤ rlen) :
    ∃ request, dnsBuildRequest header question rlen = some (request, 12 + question.length + 4) ∧
      Filled request (header.bytes ++ question.name ++ stored question.qtype ++ stored question.qclass) := by
  have zero : Filled (Buffer.fill 0 : Buffer UInt8 rlen) [] := ⟨rlen, rfl⟩
  obtain ⟨first, wroteHeader, filled⟩ := zero.write header.bytes (by simp; omega)
  obtain ⟨second, wroteName, filled⟩ := filled.write question.name (by simp; omega)
  obtain ⟨third, wroteType, filled⟩ := filled.write (stored question.qtype) (by simp; omega)
  obtain ⟨last, wroteClass, filled⟩ := filled.write (stored question.qclass) (by simp; omega)
  have name : Block.read question.name 0 question.length = some question.name := by
    rw [← owned]
    simpa using Block.read_middle [] question.name []
  simp only [List.nil_append, List.length_nil, List.length_append, header_length, owned, stored_length] at *
  refine ⟨last, ?_, filled⟩
  simp only [dnsBuildRequest, wroteHeader, header_length, name, Option.bind_eq_bind, Option.bind_some, wroteName,
    wroteType, wroteClass]

theorem stored_one : stored (htons 1) = bigEndian 2 1 := by decide

theorem header_bytes (rand : UInt16) : (dnsCreateHeader rand).bytes = stored rand ++ bigEndian 2 256 ++
    bigEndian 2 1 ++ bigEndian 2 0 ++ bigEndian 2 0 ++ bigEndian 2 0 := by
  have flags : stored (htons 0x0100) = bigEndian 2 256 := by decide
  have zero : stored 0 = bigEndian 2 0 := by decide
  simp only [DnsHeader.bytes, dnsCreateHeader, flags, stored_one, zero]

/-- The request for any name that fits. -/
theorem clientRequest_eq (rand : UInt16) (domain : List UInt8) (fits : 12 + (domain.length + 2) + 4 ≤ 1024) :
    clientRequest rand domain = some ((dnsCreateHeader rand).bytes ++ (prefixed (tokens dot domain) ++
      List.replicate (domain.length + 2 - (prefixed (tokens dot domain)).length) 0) ++ bigEndian 2 1 ++ bigEndian 2 1) := by
  have room := prefixed_tokens_length domain
  have owned : (prefixed (tokens dot domain) ++
      List.replicate (domain.length + 2 - (prefixed (tokens dot domain)).length) 0).length = domain.length + 2 := by
    rw [List.length_append, List.length_replicate]
    omega
  let question : DnsQuestion := {
    length := domain.length + 2
    qtype := htons 1
    qclass := htons 1
    name := prefixed (tokens dot domain) ++
      List.replicate (domain.length + 2 - (prefixed (tokens dot domain)).length) 0 }
  have asked : dnsCreateQuestion domain = some question := by
    rw [dnsCreateQuestion, convertDomain_eq]
    rfl
  have size : question.name.length = question.length := owned
  obtain ⟨request, built, filled⟩ := dnsBuildRequest_eq (dnsCreateHeader rand) size fits
  have all := filled.read
  simp only [List.length_append, header_length, stored_length, size] at all
  simp only [clientRequest, asked, Option.bind_eq_bind, Option.bind_some, built, ← stored_one]
  exact all

/-- A request that was sent lies inside the array. -/
theorem clientRequest_fits {rand : UInt16} {domain bytes : List UInt8} (sent : clientRequest rand domain = some bytes) :
    12 + (domain.length + 2) + 4 ≤ 1024 := by
  simp only [clientRequest, dnsCreateQuestion, dnsBuildRequest, header_length, Option.bind_eq_bind,
    Option.bind_eq_some_iff, Option.some.injEq] at sent
  obtain ⟨question, ⟨name, -, rfl⟩, built, ⟨first, -, block, -, second, -, third, -, last, wrote, rfl⟩, read⟩ := sent
  have inside := (Buffer.write_eq_some wrote).1
  simp only [stored_length] at inside
  omega

/-- The labels with a dot between each two, and one dot more in a fully qualified
name that is written with it. -/
def hostname (labels : Name) (trailing : Bool) : List UInt8 :=
  labels.text ++ if trailing then [dot] else []

theorem tokens_text (labels : Name) (trailing : Bool) (plain : ∀ label ∈ labels, dot ∉ label.bytes) :
    tokens dot (hostname labels trailing) = labels.map Label.bytes := by
  induction labels with
  | nil => cases trailing <;> rfl
  | cons label labels ih =>
    have free := plain label List.mem_cons_self
    cases labels with
    | nil =>
      have call : strtok dot (hostname [label] trailing) = (some label.bytes, []) := by
        cases trailing with
        | false =>
          have cut := @strtok_append _ _ _ _ [] label.nonempty free (by simp)
          simpa [hostname] using cut
        | true =>
          have cut := @strtok_append _ _ _ _ [dot] label.nonempty free (by simp)
          simpa [hostname] using cut
      rw [tokens_some call]
      rfl
    | cons other labels =>
      have call : strtok dot (hostname (label :: other :: labels) trailing) =
          (some label.bytes, hostname (other :: labels) trailing) := by
        rw [hostname, Name.text_cons, List.append_assoc]
        exact strtok_append label.nonempty free (by simp [dot])
      rw [tokens_some call, ih fun label member => plain label (List.mem_cons_of_mem _ member)]
      rfl

theorem prefixed_labels (labels : Name) : prefixed (labels.map Label.bytes) ++ [0] = labels.encode := by
  rw [prefixed, List.flatMap_map]
  rfl

theorem encode_length (label : Label) (labels : Name) :
    (Name.encode (label :: labels)).length = (Name.text (label :: labels)).length + 2 := by
  induction labels generalizing label with
  | nil => simp [Name.encode, Name.text]
  | cons other labels ih =>
    have rest := ih other
    rw [Name.text_cons]
    simp only [Name.encode, List.flatMap_cons, List.length_append, List.length_cons, Label.encode_length] at rest ⊢
    omega

/-- The bytes are one question for the address of the name, and nothing else. -/
def Asks (bytes : List UInt8) (labels : Name) : Prop :=
  ∃ id flags, MessageAt bytes true {
    id, flags
    questions := [⟨labels, 1, 1⟩]
    answers := []
    authority := []
    additional := [] }

/-- The request of a name that is encoded without a byte too many. -/
theorem asks_plain (rand : UInt16) (labels : Name) :
    Asks ((dnsCreateHeader rand).bytes ++ labels.encode ++ bigEndian 2 1 ++ bigEndian 2 1) labels := by
  have size := header_length (dnsCreateHeader rand)
  have name : NameAt ((dnsCreateHeader rand).bytes ++ labels.encode ++ bigEndian 2 1 ++ bigEndian 2 1) true 12 labels
      (12 + labels.encode.length) := by
    rw [← size, List.append_assoc, List.append_assoc]
    exact .encoded _ _ labels
  rw [header_bytes] at size name ⊢
  refine ⟨ofBigEndian (stored rand), 256, ?_, ?_, ?_, ?_, ?_, ?_, ?_⟩
  · simp only [List.append_assoc]
    have read := Block.read_middle [] (stored rand)
    simp only [List.nil_append, List.length_nil, stored_length] at read
    rw [Number, read]
    rfl
  · exact .encoded (stored rand) (by simp) (by simp) (by simp)
  · exact .encoded (stored rand ++ bigEndian 2 256) (by simp) (by simp) (by simp)
  · exact .encoded (stored rand ++ bigEndian 2 256 ++ bigEndian 2 1) (by simp) (by simp) (by simp)
  · exact .encoded (stored rand ++ bigEndian 2 256 ++ bigEndian 2 1 ++ bigEndian 2 0) (by simp) (by simp) (by simp)
  · exact .encoded (stored rand ++ bigEndian 2 256 ++ bigEndian 2 1 ++ bigEndian 2 0 ++ bigEndian 2 0) (by simp) (by simp) (by simp)
  · refine ⟨_, _, _, .cons ⟨_, name, .encoded _ (List.prefix_append _ (bigEndian 2 1)) ?_ (by simp),
      .encoded _ List.prefix_rfl ?_ (by simp), rfl⟩ .nil, .nil, .nil, ?_⟩
    · rw [List.length_append, size]
    · rw [List.length_append, List.length_append, size, bigEndian_length]
    · have last : 12 + labels.encode.length + 4 = (stored rand ++ bigEndian 2 256 ++ bigEndian 2 1 ++ bigEndian 2 0 ++
          bigEndian 2 0 ++ bigEndian 2 0 ++ labels.encode ++ bigEndian 2 1 ++ bigEndian 2 1).length := by
        simp only [List.length_append, stored_length, bigEndian_length]
      rw [← last]
      exact .nil

private theorem written_length (label : Label) (more : Name) :
    (prefixed ((label :: more).map Label.bytes)).length = (Name.text (label :: more)).length + 1 := by
  have whole := congrArg List.length (prefixed_labels (label :: more))
  rw [List.length_append, List.length_singleton, encode_length] at whole
  omega

/-- With the dot at its end a name is followed by a byte that belongs to nothing. -/
theorem not_asks_trailing (rand : UInt16) (label : Label) (more : Name) :
    ¬ Asks ((dnsCreateHeader rand).bytes ++ (Name.encode (label :: more) ++ [0]) ++ bigEndian 2 1 ++ bigEndian 2 1)
      (label :: more) := by
  intro asks
  have size := header_length (dnsCreateHeader rand)
  obtain ⟨id, flags, message⟩ := asks
  have name : NameAt ((dnsCreateHeader rand).bytes ++ (Name.encode (label :: more) ++ [0]) ++ bigEndian 2 1 ++
      bigEndian 2 1) true 12 (label :: more) (12 + (Name.encode (label :: more)).length) := by
    rw [← size, List.append_assoc, List.append_assoc, List.append_assoc]
    exact .encoded _ _ _
  obtain ⟨first, second, third, questions, answers, authority, additional⟩ := message.sections
  cases answers
  cases authority
  cases questions with
  | cons question none =>
    cases none
    obtain ⟨after, named, -, -, last⟩ := question
    obtain ⟨-, rfl⟩ := named.unique name
    generalize same : (dnsCreateHeader rand).bytes ++ (Name.encode (label :: more) ++ [0]) ++ bigEndian 2 1 ++
      bigEndian 2 1 = bytes at *
    have length := congrArg List.length same
    cases additional
    simp only [List.length_append, size, bigEndian_length, List.length_singleton] at length
    omega

/-- The bytes that `dns_build_request` leaves for a host name are one question
with the labels of the name exactly when no dot stands behind the last label. -/
theorem request_asks_iff (rand : UInt16) (labels : Name) (trailing : Bool) (named : labels ≠ [])
    (plain : ∀ label ∈ labels, dot ∉ label.bytes) (fits : 12 + labels.encode.length + 4 ≤ 1024) :
    (∃ bytes, clientRequest rand (hostname labels trailing) = some bytes ∧ Asks bytes labels) ↔ trailing = false := by
  obtain ⟨label, more, rfl⟩ := List.exists_cons_of_ne_nil named
  have length := encode_length label more
  have written := written_length label more
  have ended := prefixed_labels (label :: more)
  constructor
  · intro parsed
    obtain ⟨bytes, sent, asks⟩ := parsed
    have inside := clientRequest_fits sent
    rw [clientRequest_eq rand _ inside, tokens_text _ _ plain, written] at sent
    cases trailing with
    | false => rfl
    | true =>
      have longer : (hostname (label :: more) true).length = (Name.text (label :: more)).length + 1 := by simp [hostname]
      have zeros : (Name.text (label :: more)).length + 1 + 2 - ((Name.text (label :: more)).length + 1) = 2 := by omega
      rw [longer, zeros] at sent
      obtain rfl := Option.some.inj sent
      apply absurd asks
      have block : prefixed ((label :: more).map Label.bytes) ++ List.replicate 2 0 =
          Name.encode (label :: more) ++ [0] := by
        rw [← ended, List.append_assoc]
        rfl
      rw [block]
      exact not_asks_trailing rand label more
  · intro absent
    subst absent
    have same : (hostname (label :: more) false).length = (Name.text (label :: more)).length := by simp [hostname]
    have zeros : (Name.text (label :: more)).length + 2 - ((Name.text (label :: more)).length + 1) = 1 := by omega
    refine ⟨_, clientRequest_eq rand _ (by omega), ?_⟩
    rw [tokens_text _ _ plain, written, same, zeros]
    have block : prefixed ((label :: more).map Label.bytes) ++ List.replicate 1 0 = Name.encode (label :: more) := ended
    rw [block]
    exact asks_plain rand _

private def letter (byte : UInt8) : Label := ⟨[byte], List.cons_ne_nil _ _, by simp⟩

theorem request_asks_iff_letters :
    (∃ bytes, clientRequest 7 (hostname [letter 97, letter 98] false) = some bytes ∧ Asks bytes [letter 97, letter 98]) ↔
      false = false :=
  request_asks_iff 7 [letter 97, letter 98] false (List.cons_ne_nil _ _) (by decide) (by decide)

/-- The request for `a.` puts a zero byte between the name and its type. -/
theorem request_trailing_dot : ¬ ∀ (rand : UInt16) (labels : Name) (trailing : Bool), labels ≠ [] →
    (∀ label ∈ labels, dot ∉ label.bytes) → 12 + labels.encode.length + 4 ≤ 1024 →
    ∃ bytes, clientRequest rand (hostname labels trailing) = some bytes ∧ Asks bytes labels := by
  intro always
  obtain ⟨bytes, sent, asks⟩ := always 7 [letter 97] true (List.cons_ne_nil _ _) (by decide) (by decide)
  rw [clientRequest_eq 7 _ (by decide)] at sent
  obtain rfl := Option.some.inj sent
  exact not_asks_trailing 7 (letter 97) [] asks

end NetPrograms.Proofs.DnsRequest
