import NetPrograms.WebSocket.Handshake

/-! The lines that `readline` cuts a text into, and the 101 response. -/

namespace NetPrograms.Proofs.WebSocketHandshake
open WebSocket

/-- The first line of a text, and what follows its CRLF. -/
def firstLine : List UInt8 → Option (List UInt8 × List UInt8)
  | [] => none
  | byte :: rest =>
    if byte = 13 ∧ rest.head? = some 10 then some ([], rest.tail)
    else (firstLine rest).map fun (line, after) => (byte :: line, after)

def keyName : List UInt8 := ascii "Sec-WebSocket-Key"

/-- One of the first lines of a text is a complete header line for the key. The line
after which a blank one follows is the last one. -/
def keyLineFrom : Nat → List UInt8 → Bool
  | 0, _ => false
  | lines + 1, text =>
    match firstLine text with
    | none => false
    | some (line, rest) => (keyName ++ ascii ":").isPrefixOf line || (!([13, 10].isPrefixOf rest) && keyLineFrom lines rest)

def hasKeyLine (text : List UInt8) : Bool := keyLineFrom text.length text

def switching (accept : List UInt8) : List UInt8 :=
  ascii ("HTTP/1.1 101 Switching Protocols\r\n" ++ "Upgrade: websocket\r\n" ++ "Connection: Upgrade\r\n" ++
    "Sec-WebSocket-Accept: ") ++ accept ++ ascii "\r\n\r\n"

def Placed (c : Conn) : Prop :=
  ∃ accept, c.wlength = (switching accept).length ∧
    c.wbuffer.cells.take (switching accept).length = switching accept

theorem firstLine_cons {byte : UInt8} {text line rest : List UInt8} (found : firstLine (byte :: text) = some (line, rest)) :
    (byte = 13 ∧ text = 10 :: rest ∧ line = []) ∨
      (¬ (byte = 13 ∧ text.head? = some 10) ∧ ∃ more, firstLine text = some (more, rest) ∧ line = byte :: more) := by
  unfold firstLine at found
  split at found
  next ended =>
    obtain ⟨rfl, first⟩ := ended
    cases found
    cases text with
    | nil => cases first
    | cons next text =>
      obtain rfl := Option.some.inj first
      exact Or.inl ⟨rfl, rfl, rfl⟩
  next further =>
    obtain ⟨⟨more, after⟩, known, same⟩ := Option.map_eq_some_iff.mp found
    cases same
    exact Or.inr ⟨further, more, known, rfl⟩

theorem firstLine_eq {text line rest : List UInt8} (found : firstLine text = some (line, rest)) :
    text = line ++ 13 :: 10 :: rest := by
  induction text generalizing line with
  | nil => cases found
  | cons byte text ih =>
    rcases firstLine_cons found with ended | further
    · obtain ⟨rfl, rfl, rfl⟩ := ended
      rfl
    · obtain ⟨-, more, known, rfl⟩ := further
      exact congrArg (byte :: ·) (ih known)

private theorem drop_cons {block more : List UInt8} {level : Nat} {byte : UInt8} (here : block.drop level = byte :: more) :
    block[level]? = some byte ∧ block.drop (level + 1) = more := by
  constructor
  · rw [← List.head?_drop, here]
    rfl
  · rw [← List.tail_drop, here]
    rfl

/-- A byte that does not end the line is copied. -/
private theorem readlineFrom_copy {allbuf after : List UInt8} {level : Nat} {byte : UInt8}
    (left : allbuf.drop level = byte :: after) (more : after ≠ []) (further : ¬ (byte = 13 ∧ after.head? = some 10))
    {linebuf : Buffer UInt8 1024} {front free : List UInt8} (copied : linebuf.cells = front ++ free)
    (room : 0 < free.length) (rest : Nat) :
    ∃ wider : Buffer UInt8 1024, wider.cells = (front ++ [byte]) ++ free.drop 1 ∧
      readlineFrom allbuf level linebuf front.length (rest + 1) =
        readlineFrom allbuf (level + 1) wider (front ++ [byte]).length rest := by
  obtain ⟨here, next⟩ := drop_cons left
  have continues : (if byte = 13 then (allbuf[level + 1]?).map (· == 10) else some false) = some false := by
    split
    next isReturn =>
      cases after with
      | nil => exact absurd rfl more
      | cons other after =>
        rw [(drop_cons next).1]
        simpa [isReturn] using further
    next => rfl
  obtain ⟨wider, written, cells⟩ := Buffer.write_behind copied [byte] (by rw [List.length_singleton]; omega)
  refine ⟨wider, ?_, ?_⟩
  · rw [cells, List.append_assoc]
    rfl
  · simp only [readlineFrom, here, continues, written, Option.bind_eq_bind, Option.bind_some]
    rw [if_neg (by decide), List.length_append, List.length_singleton]

theorem readlineFrom_line {allbuf tail text line rest : List UInt8} {level : Nat} (left : allbuf.drop level = text ++ tail)
    (found : firstLine text = some (line, rest)) {linebuf : Buffer UInt8 1024} {front free : List UInt8}
    (copied : linebuf.cells = front ++ free) (room : line.length ≤ free.length) :
    ∃ after : Buffer UInt8 1024,
      readlineFrom allbuf level linebuf front.length text.length = some (((level + line.length + 2 : Nat) : Int), after) ∧
      after.cells = front ++ (line ++ free.drop line.length) := by
  induction text generalizing level line linebuf front free with
  | nil => cases found
  | cons byte text ih =>
    rcases firstLine_cons found with ended | further
    · obtain ⟨rfl, rfl, rfl⟩ := ended
      obtain ⟨here, next⟩ := drop_cons left
      obtain ⟨newline, -⟩ := drop_cons next
      refine ⟨linebuf, ?_, copied⟩
      simp only [readlineFrom, List.length_cons, here, newline, if_true, Option.bind_eq_bind, Option.bind_some,
        Option.map_some]
      rfl
    · obtain ⟨inside, more, known, rfl⟩ := further
      rw [List.length_cons] at room
      have goesOn : text ≠ [] := by
        rintro rfl
        cases known
      have further : ¬ (byte = 13 ∧ (text ++ tail).head? = some 10) := by
        rwa [List.head?_append_of_ne_nil text goesOn]
      obtain ⟨wider, copied, read⟩ := readlineFrom_copy left (List.append_ne_nil_of_left_ne_nil goesOn _) further copied
        (by omega) text.length
      obtain ⟨after, last, cells⟩ := ih (drop_cons left).2 known copied (by rw [List.length_drop]; omega)
      refine ⟨after, ?_, ?_⟩
      · rw [List.length_cons, List.length_cons, read, last]
        congr 2
        omega
      · rw [cells, List.drop_drop, List.append_assoc, List.length_cons, Nat.add_comm]
        rfl

theorem firstLine_none {byte : UInt8} {text : List UInt8} (whole : firstLine (byte :: text) = none) :
    ¬ (byte = 13 ∧ text.head? = some 10) ∧ firstLine text = none := by
  unfold firstLine at whole
  split at whole
  next => cases whole
  next further => exact ⟨further, Option.map_eq_none_iff.mp whole⟩

/-- Without a CRLF the loop copies all that is left of the string. -/
theorem readlineFrom_last {allbuf back text : List UInt8} {level : Nat} (left : allbuf.drop level = text ++ 0 :: back)
    (whole : firstLine text = none) {linebuf : Buffer UInt8 1024} {front free : List UInt8}
    (copied : linebuf.cells = front ++ free) (room : text.length ≤ free.length) :
    ∃ after : Buffer UInt8 1024, readlineFrom allbuf level linebuf front.length text.length = some (-1, after) ∧
      after.cells = front ++ (text ++ free.drop text.length) := by
  induction text generalizing level linebuf front free with
  | nil => exact ⟨linebuf, rfl, copied⟩
  | cons byte text ih =>
    obtain ⟨inside, whole⟩ := firstLine_none whole
    rw [List.length_cons] at room
    have further : ¬ (byte = 13 ∧ (text ++ 0 :: back).head? = some 10) := by
      cases text with
      | nil => simp
      | cons => exact inside
    obtain ⟨wider, copied, read⟩ := readlineFrom_copy left (List.append_ne_nil_of_right_ne_nil _ (List.cons_ne_nil _ _))
      further copied (by omega) text.length
    obtain ⟨after, last, cells⟩ := ih (drop_cons left).2 whole copied (by rw [List.length_drop]; omega)
    refine ⟨after, ?_, ?_⟩
    · rw [List.length_cons, read, last]
    · rw [cells, List.drop_drop, List.append_assoc, List.length_cons, Nat.add_comm]
      rfl

theorem acceptKey_places {ssl : OpenSsl} {c after : Conn} {linebuf : Buffer UInt8 1024}
    (accepted : acceptKey ssl c linebuf = some after) : Placed after := by
  unfold acceptKey at accepted
  obtain ⟨line, -, accepted⟩ := Option.bind_eq_some_iff.mp accepted
  obtain ⟨key, -, accepted⟩ := Option.bind_eq_some_iff.mp accepted
  obtain ⟨secData, -, accepted⟩ := Option.bind_eq_some_iff.mp accepted
  obtain ⟨digest, -, accepted⟩ := Option.bind_eq_some_iff.mp accepted
  obtain ⟨secAccept, -, accepted⟩ := Option.bind_eq_some_iff.mp accepted
  obtain ⟨accept, -, accepted⟩ := Option.bind_eq_some_iff.mp accepted
  obtain ⟨wbuffer, written, accepted⟩ := Option.bind_eq_some_iff.mp accepted
  obtain rfl := Option.some.inj accepted
  have cells := (Buffer.write_eq_some written).2
  refine ⟨accept, rfl, ?_⟩
  rw [cells, Block.overlay_zero, List.append_assoc]
  exact List.take_left

section
variable {ssl : OpenSsl} {c after : Conn} {text back : List UInt8}

private theorem drop_block (block : c.rbuffer.cells = text ++ 0 :: back) {idx : Nat} (inside : idx ≤ text.length) :
    c.rbuffer.cells.drop idx = text.drop idx ++ 0 :: back := by
  rw [block, List.drop_append_of_le_length inside]

theorem text_length (block : c.rbuffer.cells = text ++ 0 :: back) : text.length < 1024 := by
  have size : c.rbuffer.cells.length = 1024 := c.rbuffer.size
  rw [block, List.length_append, List.length_cons] at size
  omega

private theorem readline_eq (block : c.rbuffer.cells = text ++ 0 :: back) (free : 0 ∉ text) (idx : Nat)
    (linebuf : Buffer UInt8 1024) :
    readline c.rbuffer.cells idx linebuf = readlineFrom c.rbuffer.cells idx linebuf 0 (text.drop idx).length := by
  rw [readline, block, strlen_append free, List.length_drop]
  rfl

theorem readline_line (block : c.rbuffer.cells = text ++ 0 :: back) (free : 0 ∉ text) {idx : Nat}
    (inside : idx ≤ text.length) {line rest : List UInt8} (found : firstLine (text.drop idx) = some (line, rest)) :
    ∃ linebuf : Buffer UInt8 1024,
      readline c.rbuffer.cells idx (Buffer.fill 0) = some (((idx + line.length + 2 : Nat) : Int), linebuf) ∧
      linebuf.cells = line ++ List.replicate (1024 - line.length) 0 := by
  have size := text_length block
  have lengths := congrArg List.length (firstLine_eq found)
  rw [List.length_drop, List.length_append] at lengths
  obtain ⟨linebuf, read, cells⟩ := readlineFrom_line (drop_block block inside) found
    (show (Buffer.fill 0 : Buffer UInt8 1024).cells = [] ++ List.replicate 1024 0 from rfl)
    (by rw [List.length_replicate]; omega)
  refine ⟨linebuf, (readline_eq block free idx _).trans read, ?_⟩
  rw [cells, List.nil_append, List.drop_replicate]

theorem readline_last (block : c.rbuffer.cells = text ++ 0 :: back) (free : 0 ∉ text) {idx : Nat}
    (inside : idx ≤ text.length) (whole : firstLine (text.drop idx) = none) :
    ∃ linebuf : Buffer UInt8 1024, readline c.rbuffer.cells idx (Buffer.fill 0) = some (-1, linebuf) ∧
      linebuf.cells = text.drop idx ++ List.replicate (1024 - (text.drop idx).length) 0 := by
  have size := text_length block
  obtain ⟨linebuf, read, cells⟩ := readlineFrom_last (drop_block block inside) whole
    (show (Buffer.fill 0 : Buffer UInt8 1024).cells = [] ++ List.replicate 1024 0 from rfl)
    (by rw [List.length_replicate, List.length_drop]; omega)
  refine ⟨linebuf, (readline_eq block free idx _).trans read, ?_⟩
  rw [cells, List.nil_append, List.drop_replicate]

theorem line_free (free : 0 ∉ text) {idx : Nat} {line rest : List UInt8}
    (found : firstLine (text.drop idx) = some (line, rest)) : 0 ∉ line := by
  intro member
  have dropped : 0 ∈ text.drop idx := firstLine_eq found ▸ List.mem_append_left _ member
  exact free (List.mem_of_mem_drop dropped)

theorem cstring_line {line : List UInt8} (free : 0 ∉ line) (short : line.length < 1024) :
    cstring (line ++ List.replicate (1024 - line.length) 0) = some line := by
  obtain ⟨more, zeros⟩ : ∃ more, 1024 - line.length = more + 1 := ⟨1023 - line.length, by omega⟩
  rw [zeros, List.replicate_succ]
  exact cstring_append free _

theorem drop_next {idx : Nat} (inside : idx ≤ text.length) {line rest : List UInt8}
    (found : firstLine (text.drop idx) = some (line, rest)) :
    idx + line.length + 2 ≤ text.length ∧ text.drop (idx + line.length + 2) = rest := by
  have whole := firstLine_eq found
  have lengths := congrArg List.length whole
  rw [List.length_drop, List.length_append, List.length_cons, List.length_cons] at lengths
  constructor
  · omega
  · rw [Nat.add_assoc, ← List.drop_drop, whole, ← List.drop_drop, List.drop_left]
    rfl

/-- The test for the blank line, at an index of the string. -/
theorem blank_test (block : c.rbuffer.cells = text ++ 0 :: back) {idx : Nat} (inside : idx ≤ text.length) :
    ∃ first, c.rbuffer.cells[idx]? = some first ∧
      (if first = 13 then (c.rbuffer.cells[idx + 1]?).map (· == 10) else some false) =
        some ([13, 10].isPrefixOf (text.drop idx)) := by
  have left := drop_block block inside
  cases rest : text.drop idx with
  | nil =>
    rw [rest] at left
    exact ⟨0, (drop_cons left).1, rfl⟩
  | cons byte more =>
    rw [rest] at left
    obtain ⟨here, next⟩ := drop_cons left
    refine ⟨byte, here, ?_⟩
    split
    next isReturn =>
      subst isReturn
      cases more with
      | nil =>
        rw [(drop_cons next).1]
        rfl
      | cons other more =>
        rw [(drop_cons next).1]
        simp [List.isPrefixOf, eq_comm]
    next other =>
      have differs : (13 == byte) = false := beq_false_of_ne (Ne.symm other)
      rw [List.isPrefixOf, differs, Bool.false_and]

end

/-- The string in a buffer or in what `recv` returned. -/
def textOf (bytes : List UInt8) : List UInt8 := bytes.takeWhile (· ≠ 0)

theorem textOf_cstring {block text : List UInt8} (found : cstring block = some text) : textOf block = text := by
  obtain ⟨free, rest, rfl⟩ := cstring_eq_some found
  have nonzero : ∀ byte ∈ text, decide (byte ≠ 0) = true := by
    intro byte member
    apply decide_eq_true
    intro zero
    exact free (zero ▸ member)
  rw [textOf, List.takeWhile_append_of_pos nonzero, List.takeWhile_cons_of_neg (by decide), List.append_nil]

/-- The zeros behind what was received are not part of the string. -/
theorem textOf_zeros (bytes : List UInt8) (count : Nat) : textOf (bytes ++ List.replicate count 0) = textOf bytes := by
  unfold textOf
  rw [List.takeWhile_append]
  split
  next whole =>
    have all : bytes.takeWhile (· ≠ 0) = bytes := (List.takeWhile_prefix _).eq_of_length whole
    rw [all, List.takeWhile_replicate, if_neg (by decide), List.append_nil]
  next => rfl

theorem textOf_free {text : List UInt8} (free : 0 ∉ text) : textOf text = text := by
  rw [← textOf_zeros text 1]
  exact textOf_cstring (cstring_append free [])

end NetPrograms.Proofs.WebSocketHandshake
