import NetPrograms.Lib.HttpRequest
import NetPrograms.Proofs.WebSocketLines

/-! For which upgrade requests `handshake` answers with the accept value of their key. -/

namespace NetPrograms.Proofs.WebSocketAccept
open WebSocket WebSocketHandshake WebSocketLines Http

/-- A complete upgrade request that one `recv` returns. The name of its key field may be
written in any case, and no other field has the name as the program writes it. -/
structure Upgrade where
  request : Request
  before : List Field
  key : Field
  behind : List Field
  fields : request.fields = before ++ key :: behind
  named : key.Named keyName
  single : ∀ field ∈ before ++ behind, field.name ≠ keyName
  started : request.requestLine ≠ []
  plain : ∀ line ∈ request.lines, 0 ∉ line ∧ ¬ crlf <:+: line ∧ line.length < 900
  short : request.text.length ≤ 1023

/-- Whatever SHA-1 and base64 compute, the response carries the value for the key. -/
def Accepts (c : Conn) (key : List UInt8) : Prop :=
  ∀ ssl : OpenSsl, (∀ bytes, 0 ∉ ssl.base64 bytes) →
    ∃ after, handshake ssl c = some after ∧ Responds after (ssl.base64 (ssl.sha1 (key ++ guid))).dropLast

/-- The first line with the text `Sec-WebSocket-Key` is 19 bytes and the key. -/
def KeyReached (lines : List (List UInt8)) (key : List UInt8) : Prop :=
  ∃ start, lines.find? namesKey = some (start ++ key) ∧ start.length = websockKeyLength

theorem firstLine_append {line : List UInt8} (unbroken : ¬ crlf <:+: line) (rest : List UInt8) :
    firstLine (line ++ 13 :: 10 :: rest) = some (line, rest) := by
  induction line with
  | nil => rfl
  | cons byte line ih =>
    have further : ¬ (byte = 13 ∧ (line ++ 13 :: 10 :: rest).head? = some 10) := by
      intro ⟨isReturn, first⟩
      cases line with
      | nil => cases first
      | cons other line =>
        obtain rfl := Option.some.inj first
        exact unbroken ⟨[], line, by rw [isReturn]; rfl⟩
    have inner : ¬ crlf <:+: line := fun inside => unbroken (inside.trans (List.suffix_cons byte line).isInfix)
    rw [List.cons_append, firstLine, if_neg further, ih inner]
    rfl

/-- The loop looks at all lines of a request. -/
theorem examinedFrom_ended {lines : List (List UInt8)} (some_ : lines ≠ []) (separate : Separate lines) {most : Nat}
    (enough : lines.length ≤ most) : examinedFrom most (ended lines) = lines := by
  induction lines generalizing most with
  | nil => exact absurd rfl some_
  | cons line lines ih =>
    rw [List.length_cons] at enough
    obtain ⟨most, rfl⟩ : ∃ fewer, most = fewer + 1 := ⟨most - 1, by omega⟩
    rw [ended_cons, examinedFrom, firstLine_append (separate.unbroken line List.mem_cons_self)]
    dsimp only
    cases lines with
    | nil => rfl
    | cons next lines =>
      have notLast : [13, 10].isPrefixOf (ended (next :: lines)) = false := by
        rw [← Bool.not_eq_true, List.isPrefixOf_iff_prefix, ended_cons]
        exact crlf_not_prefix (separate.tail.filled next List.mem_cons_self)
          (separate.tail.unbroken next List.mem_cons_self) _
      rw [notLast, if_neg Bool.false_ne_true, ih (List.cons_ne_nil _ _) separate.tail (Nat.le_of_succ_le_succ enough)]

namespace Upgrade
variable (upgrade : Upgrade)

theorem separate : Separate upgrade.request.lines where
  filled line member := by
    rcases List.mem_cons.mp member with rfl | inFields
    · exact upgrade.started
    · obtain ⟨field, -, rfl⟩ := List.mem_map.mp inFields
      exact List.append_ne_nil_of_right_ne_nil _ (List.cons_ne_nil _ _)
  unbroken line member := (upgrade.plain line member).2.1

theorem examined_text : examined upgrade.request.text = upgrade.request.lines :=
  examinedFrom_ended (List.cons_ne_nil _ _) upgrade.separate (Nat.le_succ_of_le (ended_length_ge _))

theorem textOf_text : textOf upgrade.request.text = upgrade.request.text :=
  textOf_free (not_mem_ended (by decide) fun line member => (upgrade.plain line member).1)

def Received (c : Conn) : Prop :=
  c.rbuffer.cells = upgrade.request.text ++ List.replicate (1024 - upgrade.request.text.length) 0

variable {upgrade} {c : Conn}

theorem answers (received : upgrade.Received c) (ssl : OpenSsl) :
    Answer ssl c (upgrade.request.lines.find? namesKey) (Turns.handshake ssl c 1024) := by
  have answer := received_answers ssl upgrade.short received
  rwa [textOf_text, examined_text] at answer

theorem handshake_unnamed (received : upgrade.Received c) (ssl : OpenSsl)
    (unnamed : upgrade.request.lines.find? namesKey = none) : handshake ssl c = some c := by
  have answer := answers received ssl
  rw [unnamed] at answer
  rw [handshake_result, answer.unchanged, Course.result_returned]

theorem handshake_responds (received : upgrade.Received c) (ssl : OpenSsl) {line : List UInt8}
    (named : upgrade.request.lines.find? namesKey = some line) :
    ∃ after, handshake ssl c = some after ∧ Responds after (acceptValue ssl ((line ++ guid).drop websockKeyLength)) := by
  have answer := answers received ssl
  rw [named] at answer
  have short := (upgrade.plain line (List.mem_of_find?_eq_some named)).2.2
  have size : guid.length = 36 := rfl
  obtain ⟨after, returned, responds⟩ := answer.responds (by omega)
  refine ⟨after, ?_, responds⟩
  rw [handshake_result, returned, Course.result_returned]

end Upgrade

/-- The value in the write buffer is the only one. -/
theorem responds_unique {c : Conn} {accept other : List UInt8} (first : Responds c accept) (second : Responds c other) :
    accept = other := by
  have lengths : (switching accept).length = (switching other).length :=
    Int.ofNat_inj.mp (first.1.symm.trans second.1)
  have same : switching accept = switching other := by rw [← first.2, lengths, second.2]
  exact List.append_cancel_left (List.append_cancel_right same)

/-- A digest that tells one text from all others. -/
def marking (text : List UInt8) : OpenSsl where
  sha1 other := if other = text then List.replicate 20 1 else List.replicate 20 2
  sha1_length other := by split <;> exact List.length_replicate
  base64 bytes := List.replicate 29 (if bytes = List.replicate 20 1 then 65 else 66)
  base64_length _ _ := List.length_replicate

theorem marking_free (text bytes : List UInt8) : 0 ∉ (marking text).base64 bytes := by
  intro member
  have zero := List.eq_of_mem_replicate member
  split at zero <;> cases zero

theorem marking_accept (text other : List UInt8) :
    ((marking text).base64 ((marking text).sha1 other)).dropLast = List.replicate 28 (if other = text then 65 else 66) := by
  by_cases same : other = text
  · simp [marking, same]
  · simp [marking, same]

section
variable {upgrade : Upgrade} {c : Conn}

theorem accepts_of_reached (received : upgrade.Received c) {key : List UInt8}
    (reached : KeyReached upgrade.request.lines key) : Accepts c key := by
  intro ssl free
  obtain ⟨start, found, size⟩ := reached
  obtain ⟨after, shaken, responds⟩ := upgrade.handshake_responds received ssl found
  have hashed : (start ++ key ++ guid).drop websockKeyLength = key ++ guid := by
    rw [List.append_assoc]
    exact List.drop_left' size
  have whole : acceptValue ssl (key ++ guid) = (ssl.base64 (ssl.sha1 (key ++ guid))).dropLast :=
    textOf_free fun member => free _ (List.mem_of_mem_dropLast member)
  rw [hashed, whole] at responds
  exact ⟨after, shaken, responds⟩

theorem reached_of_accepts (received : upgrade.Received c) {key : List UInt8} (accepts : Accepts c key) :
    KeyReached upgrade.request.lines key := by
  obtain ⟨after, shaken, expected⟩ := accepts (marking (key ++ guid)) (marking_free _)
  rw [marking_accept, if_pos rfl] at expected
  cases found : upgrade.request.lines.find? namesKey with
  | none =>
    -- what was in the write buffer cannot be the value of two digests
    obtain ⟨other, again, wanted⟩ := accepts (marking []) (marking_free _)
    rw [upgrade.handshake_unnamed received _ found] at shaken again
    obtain rfl := Option.some.inj shaken
    obtain rfl := Option.some.inj again
    have nonempty : key ++ guid ≠ [] := List.append_ne_nil_of_right_ne_nil _ (by decide)
    rw [marking_accept, if_neg nonempty] at wanted
    have same := responds_unique expected wanted
    cases same
  | some line =>
    obtain ⟨other, again, responds⟩ := upgrade.handshake_responds received (marking (key ++ guid)) found
    obtain rfl := Option.some.inj (shaken.symm.trans again)
    have whole : acceptValue (marking (key ++ guid)) ((line ++ guid).drop websockKeyLength) =
        ((marking (key ++ guid)).base64 ((marking (key ++ guid)).sha1 ((line ++ guid).drop websockKeyLength))).dropLast :=
      textOf_free fun member => marking_free _ _ (List.mem_of_mem_dropLast member)
    rw [whole, marking_accept] at responds
    have same := responds_unique expected responds
    have hashed : (line ++ guid).drop websockKeyLength = key ++ guid := by
      by_contra differs
      rw [if_neg differs] at same
      cases same
    have lengths := congrArg List.length hashed
    have size : guid.length = 36 := rfl
    have offset : websockKeyLength = 19 := rfl
    rw [List.length_drop, List.length_append, List.length_append] at lengths
    have long : websockKeyLength ≤ line.length := by omega
    rw [List.drop_append_of_le_length long] at hashed
    refine ⟨line.take websockKeyLength, ?_, List.length_take_of_le long⟩
    have rest : line.drop websockKeyLength = key := List.append_cancel_right hashed
    rw [found, ← rest, List.take_append_drop]

end

/-- The response to an upgrade request carries the value for its key exactly when the
first line with the text `Sec-WebSocket-Key` is 19 bytes and the key. -/
theorem handshake_accepts_iff (upgrade : Upgrade) (c : Conn) (received : upgrade.Received c) :
    Accepts c upgrade.key.value ↔ KeyReached upgrade.request.lines upgrade.key.value :=
  ⟨reached_of_accepts received, accepts_of_reached received⟩

def keyField (space : List UInt8) (blank : ∀ byte ∈ space, byte = 32 ∨ byte = 9) : Field where
  name := keyName
  space := space
  value := ascii "dGhlIHNhbXBsZSBub25jZQ=="
  plain := by decide
  blank := blank
  start byte first := by
    obtain rfl : 100 = byte := Option.some.inj first
    decide

def keyRequest (field : Field) : Request := ⟨ascii "GET / HTTP/1.1", [field]⟩

theorem one_blank : ∀ byte ∈ ([32] : List UInt8), byte = 32 ∨ byte = 9 := by simp

def spaced : Upgrade where
  request := keyRequest (keyField [32] one_blank)
  before := []
  key := keyField [32] one_blank
  behind := []
  fields := rfl
  named := rfl
  single := nofun
  started := by decide
  plain := by decide +kernel
  short := by decide

theorem handshake_accepts_iff_spaced : Accepts (holding spaced.request.text spaced.short) spaced.key.value ↔
    KeyReached spaced.request.lines spaced.key.value := handshake_accepts_iff spaced _ (holding_cells _ _)

def tight : Upgrade where
  request := keyRequest (keyField [] nofun)
  before := []
  key := keyField [] nofun
  behind := []
  fields := rfl
  named := rfl
  single := nofun
  started := by decide
  plain := by decide +kernel
  short := by decide

/-- The first byte of the key is not hashed. -/
theorem tight_not_accepted : ¬ Accepts (holding tight.request.text tight.short) tight.key.value := by
  intro accepts
  have received : tight.Received (holding tight.request.text tight.short) := holding_cells _ _
  obtain ⟨start, found, size⟩ := reached_of_accepts received accepts
  have named : tight.request.lines.find? namesKey = some tight.key.line := by decide +kernel
  have lengths := congrArg List.length (Option.some.inj (named.symm.trans found))
  have line : tight.key.line.length = 42 := by decide
  have value : tight.key.value.length = 24 := by decide
  have offset : websockKeyLength = 19 := rfl
  rw [List.length_append] at lengths
  omega

end NetPrograms.Proofs.WebSocketAccept
