import NetPrograms.Proofs.DnsResponse
import NetPrograms.Proofs.DnsTurns

/-! On which responses `dns_parse_response` stays inside its arrays. It knows neither
how long the response is nor how long a name may be, so that its records have to lie
in the array and its names have to be short. -/

namespace NetPrograms.Proofs.DnsBounds
open Dns Block Course DnsTurns

/-- The name of a question, which has no pointers. -/
inductive Skipped (buffer : List UInt8) : Nat → Nat → Prop where
  | root {pos} (zero : buffer[pos]? = some 0) : Skipped buffer pos (pos + 1)
  | label {pos flag next} (here : buffer[pos]? = some flag) (some_ : flag ≠ 0)
      (rest : Skipped buffer (pos + flag.toNat + 1) next) : Skipped buffer pos next

/-- The names of the questions lie inside, each with its type and class behind it. -/
inductive Questions (buffer : List UInt8) : Nat → Nat → Nat → Prop where
  | nil {pos} : Questions buffer 0 pos pos
  | cons {count pos middle next} (name : Skipped buffer pos middle) (rest : Questions buffer count (middle + 4) next) :
      Questions buffer (count + 1) pos next

/-- All that is read of a name lies inside, and it is written with 127 characters at
most. -/
def NameFits (buffer : List UInt8) (pos : Nat) : Prop :=
  ∃ text, Spells buffer buffer pos text ∧ text.length ≤ 127

/-- The owner name and the 12 bytes from its position on, and what is used of the data,
with the position of the next record. -/
inductive AnswerFits (buffer : List UInt8) (pos : Nat) : Nat → Prop where
  | canonical {datalen} (owner : NameFits buffer pos) (type : readShort buffer (pos + 2) = some dnsCname)
      (length : readShort buffer (pos + 10) = some datalen) (target : NameFits buffer (pos + 12)) :
      AnswerFits buffer pos (pos + 12 + datalen)
  | address {datalen} (owner : NameFits buffer pos) (type : readShort buffer (pos + 2) = some dnsHost)
      (length : readShort buffer (pos + 10) = some datalen) (data : datalen = 4 → pos + 12 + 4 ≤ buffer.length) :
      AnswerFits buffer pos (pos + 12 + datalen)
  | other {type datalen} (owner : NameFits buffer pos) (kind : readShort buffer (pos + 2) = some type)
      (notCanonical : type ≠ dnsCname) (notAddress : type ≠ dnsHost) (length : readShort buffer (pos + 10) = some datalen) :
      AnswerFits buffer pos (pos + 12)

inductive AnswersFit (buffer : List UInt8) : Nat → Nat → Prop where
  | nil {pos} : AnswersFit buffer 0 pos
  | cons {count pos next} (first : AnswerFits buffer pos next) (rest : AnswersFit buffer count next) :
      AnswersFit buffer (count + 1) pos

/-- The questions and the answers that the header counts fit. -/
def Fits (buffer : List UInt8) : Prop :=
  ∃ querys answers ptr, readShort buffer 4 = some querys ∧ readShort buffer 6 = some answers ∧
    Questions buffer querys 12 ptr ∧ AnswersFit buffer answers ptr

variable {buffer : List UInt8} {pos next : Nat}

theorem skipped_inside (skipped : Skipped buffer pos next) : pos < next ∧ next ≤ buffer.length := by
  induction skipped with
  | root zero =>
    have inside := (List.getElem?_eq_some_iff.mp zero).1
    omega
  | label _ _ _ ih => omega

/-- Each turn goes forward, so the turns of `skipName` are enough for every name. -/
theorem skipName_iff : skipName buffer pos buffer.length = some next ↔ Skipped buffer pos next := by
  constructor
  · intro found
    generalize buffer.length = turns at found
    induction turns generalizing pos with
    | zero => cases found
    | succ turns ih =>
      obtain ⟨flag, here, found⟩ := Option.bind_eq_some_iff.mp found
      by_cases zero : flag = 0
      · subst zero
        cases found
        exact .root here
      · simp only [zero, if_false] at found
        exact .label here zero (ih found)
  · intro skipped
    have enough : next ≤ pos + buffer.length := by
      have := skipped_inside skipped
      omega
    generalize buffer.length = turns at enough
    induction skipped generalizing turns with
    | root zero =>
      obtain ⟨less, rfl⟩ := Nat.exists_eq_succ_of_ne_zero (show turns ≠ 0 by omega)
      simp [skipName, zero]
    | label here some_ rest ih =>
      have forward := (skipped_inside rest).1
      obtain ⟨less, rfl⟩ := Nat.exists_eq_succ_of_ne_zero (show turns ≠ 0 by omega)
      simp only [skipName, here, some_, Option.bind_eq_bind, Option.bind_some, if_false]
      exact ih less (by omega)

theorem skipQuestions_iff {count : Nat} : skipQuestions buffer count pos = some next ↔ Questions buffer count pos next := by
  constructor
  · intro found
    induction count generalizing pos with
    | zero =>
      cases found
      exact .nil
    | succ count ih =>
      obtain ⟨middle, name, rest⟩ := Option.bind_eq_some_iff.mp found
      exact .cons (skipName_iff.mp name) (ih rest)
  · intro questions
    induction questions with
    | nil => rfl
    | cons name _ ih =>
      simp only [skipQuestions, skipName_iff.mpr name, Option.bind_eq_bind, Option.bind_some]
      exact ih

theorem parseNameInto_settled (buffer : List UInt8) (pos : Nat) : Settled fun turns => parseNameInto turns buffer pos := by
  apply Settled.bind (settled buffer buffer pos _ 0 0)
  intro (out, len)
  exact .const _

theorem nameFits_of_returned {turns : Nat} {cells : List UInt8} (parsed : parseNameInto turns buffer pos = .returned cells) :
    NameFits buffer pos := by
  obtain ⟨⟨out, len⟩, named, rest⟩ := bind_eq_returned.mp parsed
  obtain ⟨text, spells, -, rfl⟩ := spells_of_parsed named
  dsimp only at rest
  split at rest
  next short => exact ⟨text, spells, by omega⟩
  next => cases rest

theorem cells_eq (text : List UInt8) (short : text.length ≤ 128) :
    (List.range 128).map (store (fun _ => 0) 0 text) = text ++ List.replicate (128 - text.length) 0 := by
  apply List.ext_getElem
  · simp only [List.length_map, List.length_range, List.length_append, List.length_replicate]
    omega
  · intro index inside _
    by_cases within : index < text.length
    · simp [store, List.getElem_append_left within, within]
    · have outside : text[index]? = none := List.getElem?_eq_none (by omega)
      simp [store, outside, List.getElem_append_right (Nat.le_of_not_lt within)]

/-- A short name leaves a zero at the end of its array. -/
theorem cstring_cells (text : List UInt8) (short : text.length ≤ 127) :
    ∃ domain, cstring ((List.range 128).map (store (fun _ => 0) 0 text)) = some domain := by
  rw [cells_eq text (by omega)]
  exact cstring_isSome (List.mem_append_right _ (List.mem_replicate.mpr ⟨by omega, rfl⟩))

theorem returns_of_nameFits (fits : NameFits buffer pos) : ∃ cells domain,
    Returns (fun turns => parseNameInto turns buffer pos) cells ∧ cstring cells = some domain := by
  obtain ⟨text, spells, short⟩ := fits
  obtain ⟨turns, parsed⟩ := parsed_of_spells spells
  obtain ⟨domain, heard⟩ := cstring_cells text short
  have done : parseNameInto turns buffer pos =
      returned ((List.range 128).map (store (fun _ => 0) 0 text)) := by
    simp only [parseNameInto, parsed, Course.bind_eq, returned_bind]
    rw [if_pos (by omega)]
    rfl
  exact ⟨_, domain, (parseNameInto_settled buffer pos).returns done, heard⟩

theorem parseAnswerTurns_settled (buffer : List UInt8) (pos : Nat) (list : List DnsItem) :
    Settled fun turns => parseAnswerTurns turns buffer pos list := by
  unfold parseAnswerTurns
  apply Settled.bind (parseNameInto_settled buffer pos)
  intro aname
  apply Settled.bind (.const _)
  intro type
  apply Settled.bind (.const _)
  intro ttl
  apply Settled.bind (.const _)
  intro datalen
  by_cases canonical : dnsCname = type
  · simp only [canonical, if_true]
    apply Settled.bind (parseNameInto_settled buffer _)
    intro cname
    exact .const _
  · simp only [canonical, if_false]
    exact .const _

theorem answerFits_of_returned {turns : Nat} {list longer : List DnsItem}
    (parsed : parseAnswerTurns turns buffer pos list = .returned (next, longer)) : AnswerFits buffer pos next := by
  obtain ⟨aname, named, header⟩ := bind_eq_returned.mp parsed
  obtain ⟨type, typed, behindType⟩ := bind_eq_returned.mp header
  obtain ⟨-, -, behindTtl⟩ := bind_eq_returned.mp behindType
  obtain ⟨datalen, counted, data⟩ := bind_eq_returned.mp behindTtl
  have owner := nameFits_of_returned named
  have kind := ofRead_eq_returned.mp typed
  have length := ofRead_eq_returned.mp counted
  dsimp only at data
  split at data
  next canonical =>
    subst canonical
    obtain ⟨cname, target, last⟩ := bind_eq_returned.mp data
    cases last
    exact .canonical owner kind length (nameFits_of_returned target)
  next notCanonical =>
    split at data
    next address =>
      subst address
      split at data
      next four =>
        obtain ⟨netip, copied, printed⟩ := bind_eq_returned.mp data
        obtain ⟨ip, -, named⟩ := bind_eq_returned.mp printed
        obtain ⟨domain, -, entered⟩ := bind_eq_returned.mp named
        obtain ⟨text, -, last⟩ := bind_eq_returned.mp entered
        cases last
        refine .address owner kind length ?_
        intro same
        have inside := (Block.read_eq_some (ofRead_eq_returned.mp copied)).1
        omega
      next other =>
        cases data
        exact .address owner kind length fun same => absurd same.symm other
    next notAddress =>
      cases data
      exact .other owner kind (Ne.symm notCanonical) (Ne.symm notAddress) length

theorem returns_of_answerFits (fits : AnswerFits buffer pos next) (list : List DnsItem) :
    ∃ longer, Returns (fun turns => parseAnswerTurns turns buffer pos list) (next, longer) := by
  have ttl {datalen : Nat} (length : readShort buffer (pos + 10) = some datalen) :
      ∃ bytes, Block.read buffer (pos + 2 + 4) 4 = some bytes := by
    obtain ⟨bytes, read, -⟩ := Option.map_eq_some_iff.mp length
    have inside := (Block.read_eq_some read).1
    exact ⟨_, Block.read_of_le (by omega)⟩
  have apart : dnsCname ≠ dnsHost := by decide
  unfold parseAnswerTurns
  cases fits with
  | canonical owner kind length target =>
    obtain ⟨aname, domain, owner, -⟩ := returns_of_nameFits owner
    obtain ⟨cname, -, target, -⟩ := returns_of_nameFits target
    obtain ⟨bytes, ttl⟩ := ttl length
    refine ⟨list, owner.bind ?_⟩
    simp only [kind, ttl, length, ofRead_some, Course.bind_eq, returned_bind, if_true]
    exact target.bind (.const _)
  | @address datalen owner kind length data =>
    obtain ⟨aname, domain, owner, heard⟩ := returns_of_nameFits owner
    obtain ⟨bytes, ttl⟩ := ttl length
    by_cases four : 4 = datalen
    · subst four
      have netip : Block.read buffer (pos + 2 + 4 + 4 + 2) 4 = some (Block.slice buffer (pos + 12) 4) :=
        Block.read_of_le (data rfl)
      have size : (Block.slice buffer (pos + 12) 4).length = 4 := by
        have inside := data rfl
        rw [Block.slice_length]
        omega
      obtain ⟨ip, printed, quad⟩ := DnsResponse.inetNtop_eq size
      refine ⟨list ++ [⟨domain, dottedQuad (Block.slice buffer (pos + 12) 4)⟩], owner.bind ?_⟩
      simp only [kind, ttl, length, apart, netip, printed, heard, quad, ofRead_some, Course.bind_eq, returned_bind,
        if_true, if_false]
      exact .const _
    · refine ⟨list, owner.bind ?_⟩
      simp only [kind, ttl, length, four, apart, ofRead_some, Course.bind_eq, returned_bind, if_true, if_false]
      exact .const _
  | @other type datalen owner kind notCanonical notAddress length =>
    obtain ⟨aname, domain, owner, -⟩ := returns_of_nameFits owner
    obtain ⟨bytes, ttl⟩ := ttl length
    refine ⟨list, owner.bind ?_⟩
    simp only [kind, ttl, length, notCanonical.symm, notAddress.symm, ofRead_some, Course.bind_eq, returned_bind, if_false]
    exact .const _

theorem answersFit_of_returned {turns count : Nat} {list longer : List DnsItem}
    (parsed : parseAnswersTurns turns buffer count pos list = .returned longer) : AnswersFit buffer count pos := by
  induction count generalizing pos list with
  | zero => exact .nil
  | succ count ih =>
    obtain ⟨⟨next, more⟩, first, rest⟩ := bind_eq_returned.mp parsed
    exact .cons (answerFits_of_returned first) (ih rest)

theorem returns_of_answersFit {count : Nat} (fits : AnswersFit buffer count pos) (list : List DnsItem) :
    ∃ longer, Returns (fun turns => parseAnswersTurns turns buffer count pos list) longer := by
  induction fits generalizing list with
  | nil => exact ⟨list, .const list⟩
  | cons first _ ih =>
    obtain ⟨more, first⟩ := returns_of_answerFits first list
    obtain ⟨longer, rest⟩ := ih more
    exact ⟨longer, first.bind rest⟩

theorem parseAnswersTurns_settled (buffer : List UInt8) (count pos : Nat) (list : List DnsItem) :
    Settled fun turns => parseAnswersTurns turns buffer count pos list := by
  induction count generalizing pos list with
  | zero => exact .const _
  | succ count ih =>
    apply Settled.bind (parseAnswerTurns_settled buffer pos list)
    intro (next, more)
    exact ih next more

theorem parseResponse_settled (buffer : List UInt8) : Settled (dnsParseResponseTurns buffer) := by
  apply Settled.bind (.const _)
  intro querys
  apply Settled.bind (.const _)
  intro answers
  apply Settled.bind (.const _)
  intro ptr
  apply Settled.bind (parseAnswersTurns_settled buffer answers ptr [])
  intro list
  exact .const _

/-- The responses that are parsed to the end. -/
theorem returned_iff_fits (buffer : List UInt8) :
    (∃ turns result, dnsParseResponseTurns buffer turns = .returned result) ↔ Fits buffer := by
  constructor
  · intro ⟨turns, result, parsed⟩
    obtain ⟨querys, asked, counted⟩ := bind_eq_returned.mp parsed
    obtain ⟨answers, answered, skipped⟩ := bind_eq_returned.mp counted
    obtain ⟨ptr, questions, rest⟩ := bind_eq_returned.mp skipped
    obtain ⟨list, entered, -⟩ := bind_eq_returned.mp rest
    exact ⟨querys, answers, ptr, ofRead_eq_returned.mp asked, ofRead_eq_returned.mp answered,
      skipQuestions_iff.mp (ofRead_eq_returned.mp questions), answersFit_of_returned entered⟩
  · intro ⟨querys, answers, ptr, asked, answered, questions, fits⟩
    obtain ⟨list, turns, parsed⟩ := returns_of_answersFit fits []
    refine ⟨turns, (list.length, list), ?_⟩
    simp only [dnsParseResponseTurns, asked, answered, skipQuestions_iff.mpr questions, parsed turns (Nat.le_refl _),
      ofRead_some, Course.bind_eq, returned_bind]
    rfl

/-! What is parsed to the end, the functions with the arrays of the program parse too. -/

theorem parseName_of_returned {turns : Nat} {cells : List UInt8} (parsed : parseNameInto turns buffer pos = .returned cells) :
    ∃ aname n, dnsParseName buffer pos (Buffer.fill 0) 0 = some (aname, n) ∧ aname.cells = cells := by
  obtain ⟨⟨out, len⟩, named, rest⟩ := bind_eq_returned.mp parsed
  obtain ⟨text, spells, rfl, rfl⟩ := spells_of_parsed named
  dsimp only at rest
  split at rest
  next short =>
    cases rest
    rw [Nat.zero_add] at short
    obtain ⟨aname, bounded, stored⟩ := DnsNames.parseName_eq (reads_of_spells spells rfl) (by omega)
    exact ⟨aname, text.length, bounded, by rw [stored, cells_eq text (by omega)]⟩
  next => cases rest

theorem parseAnswer_of_returned {turns : Nat} {list longer : List DnsItem}
    (parsed : parseAnswerTurns turns buffer pos list = .returned (next, longer)) :
    parseAnswer buffer pos list = some (next, longer) := by
  obtain ⟨cells, named, header⟩ := bind_eq_returned.mp parsed
  obtain ⟨type, typed, behindType⟩ := bind_eq_returned.mp header
  obtain ⟨ttl, timed, behindTtl⟩ := bind_eq_returned.mp behindType
  obtain ⟨datalen, counted, data⟩ := bind_eq_returned.mp behindTtl
  obtain ⟨aname, n, bounded, rfl⟩ := parseName_of_returned named
  rw [ofRead_eq_returned] at typed timed counted
  simp only [parseAnswer, bounded, typed, timed, counted, Option.bind_eq_bind, Option.bind_some]
  dsimp only at data
  split at data
  next canonical =>
    obtain ⟨cname, target, last⟩ := bind_eq_returned.mp data
    obtain ⟨_, m, second, -⟩ := parseName_of_returned target
    cases last
    rw [if_pos canonical, second]
    rfl
  next notCanonical =>
    rw [if_neg notCanonical]
    split at data
    next address =>
      rw [if_pos address]
      split at data
      next four =>
        obtain ⟨netip, copied, printed⟩ := bind_eq_returned.mp data
        obtain ⟨ip, written, named⟩ := bind_eq_returned.mp printed
        obtain ⟨domain, heard, entered⟩ := bind_eq_returned.mp named
        obtain ⟨text, quad, last⟩ := bind_eq_returned.mp entered
        rw [ofRead_eq_returned] at copied written heard quad
        cases last
        simp only [if_pos four, copied, written, heard, quad, Option.bind_some]
      next other =>
        cases data
        rw [if_neg other]
    next notAddress =>
      cases data
      rw [if_neg notAddress]

theorem parseAnswers_of_returned {turns count : Nat} {list longer : List DnsItem}
    (parsed : parseAnswersTurns turns buffer count pos list = .returned longer) :
    parseAnswers buffer count pos list = some longer := by
  induction count generalizing pos list with
  | zero =>
    cases parsed
    rfl
  | succ count ih =>
    obtain ⟨⟨next, more⟩, first, rest⟩ := bind_eq_returned.mp parsed
    simp only [parseAnswers, parseAnswer_of_returned first, Option.bind_eq_bind, Option.bind_some]
    exact ih rest

theorem parseResponse_of_returned {turns : Nat} {result : Nat × List DnsItem}
    (parsed : dnsParseResponseTurns buffer turns = .returned result) : dnsParseResponse buffer = some result := by
  obtain ⟨querys, asked, counted⟩ := bind_eq_returned.mp parsed
  obtain ⟨answers, answered, skipped⟩ := bind_eq_returned.mp counted
  obtain ⟨ptr, questions, rest⟩ := bind_eq_returned.mp skipped
  obtain ⟨list, entered, last⟩ := bind_eq_returned.mp rest
  rw [ofRead_eq_returned] at asked answered questions
  cases last
  simp only [dnsParseResponse, asked, answered, questions, parseAnswers_of_returned entered, Option.bind_eq_bind,
    Option.bind_some]

/-- The array of `dns_client_commit` with a datagram in it. -/
def response (datagram : List UInt8) (received : datagram.length ≤ 1024) : Buffer UInt8 1024 :=
  (Buffer.fill 0).put datagram received

/-- Parsing that ends stays inside the arrays exactly when all that the header counts
lies in the response and no name is longer than 127 characters. -/
theorem parse_response_safe_iff (datagram : List UInt8) (received : datagram.length ≤ 1024)
    (ends : Terminates (dnsParseResponseTurns (response datagram received).cells)) :
    Safe (dnsParseResponseTurns (response datagram received).cells) ↔ Fits (response datagram received).cells := by
  rw [← returned_iff_fits]
  constructor
  · intro safe
    obtain ⟨turns, ended⟩ := ends
    exact ⟨turns, returned_of_ne ended (safe turns).1 (safe turns).2⟩
  · intro ⟨turns, result, parsed⟩
    exact (parseResponse_settled _).safe_of_returned parsed

/-- One answer, an alias for `b`. -/
def aliasAnswer : List UInt8 :=
  [0, 0, 0, 0, 0, 0, 0, 1, 0, 0, 0, 0, 192, 24, 0, 5, 0, 1, 0, 0, 0, 9, 0, 3, 1, 98, 0]

theorem aliasAnswer_received : aliasAnswer.length ≤ 1024 := by decide

theorem parse_response_safe_iff_alias : Safe (dnsParseResponseTurns (response aliasAnswer aliasAnswer_received).cells) ↔
    Fits (response aliasAnswer aliasAnswer_received).cells := by
  have returned : dnsParseResponseTurns (response aliasAnswer aliasAnswer_received).cells 3 = .returned (0, []) := by
    decide +kernel
  exact parse_response_safe_iff aliasAnswer aliasAnswer_received ⟨3, by rw [returned]; nofun⟩

/-- One answer, whose owner name is a pointer to offset 16383. -/
def farPointer : List UInt8 := [0, 0, 0, 0, 0, 0, 0, 1, 0, 0, 0, 0, 255, 255]

theorem farPointer_received : farPointer.length ≤ 1024 := by decide

theorem far_pointer_outside : Terminates (dnsParseResponseTurns (response farPointer farPointer_received).cells) ∧
    ¬ Safe (dnsParseResponseTurns (response farPointer farPointer_received).cells) := by
  have outside : dnsParseResponseTurns (response farPointer farPointer_received).cells 2 = .outside := by
    decide +kernel
  refine ⟨⟨2, by rw [outside]; nofun⟩, ?_⟩
  intro safe
  exact (safe 2).1 outside

end NetPrograms.Proofs.DnsBounds
