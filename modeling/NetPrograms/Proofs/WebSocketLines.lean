import NetPrograms.Proofs.WebSocketHandshake
import NetPrograms.WebSocket.Turns

/-! The lines that `handshake` looks at, and that it gives its answer by the first of
them with the name of the key. -/

namespace NetPrograms.Proofs.WebSocketLines
open WebSocket WebSocketHandshake Course

section
variable {allbuf : List UInt8} {ssl : OpenSsl} {c : Conn}

theorem readlineFrom_result (level : Nat) (linebuf : Buffer UInt8 1024) (out left : Nat) :
    (Turns.readlineFrom allbuf level linebuf out left).result = readlineFrom allbuf level linebuf out left := by
  induction left generalizing level linebuf out with
  | zero => rfl
  | succ left ih =>
    simp only [Turns.readlineFrom, readlineFrom, bind_eq, pure_eq, result_bind, result_ofRead, Option.bind_eq_bind,
      apply_ite result, result_returned, result_ofWrite, ih]

theorem readline_result (level : Nat) (linebuf : Buffer UInt8 1024) :
    (Turns.readline allbuf level linebuf).result = readline allbuf level linebuf := by
  simp only [Turns.readline, readline, bind_eq, result_bind, result_ofRead, readlineFrom_result, Option.bind_eq_bind]

theorem strcat_result {n : Nat} (buffer : Buffer UInt8 n) (text : List UInt8) :
    (Turns.strcat buffer text).result = strcat buffer text := by
  simp only [Turns.strcat, strcat, bind_eq, result_bind, result_ofRead, result_ofWrite, Option.bind_eq_bind]

/-- `handshake` is its model by turns, with the faults not told apart. -/
theorem handshakeFrom_result (idx turns : Nat) :
    (Turns.handshakeFrom ssl c idx turns).result = handshakeFrom ssl c idx turns := by
  induction turns generalizing idx with
  | zero => rfl
  | succ turns ih =>
    have accepted (linebuf : Buffer UInt8 1024) :
        ((strcat linebuf guid).bind fun _ => acceptKey ssl c linebuf) = acceptKey ssl c linebuf := by
      unfold acceptKey
      cases strcat linebuf guid <;> rfl
    simp only [Turns.handshakeFrom, handshakeFrom, bind_eq, pure_eq, result_bind, result_ofRead, Option.bind_eq_bind,
      apply_ite result, result_returned, readline_result, strcat_result, accepted, ih]

end

theorem handshake_result (ssl : OpenSsl) (c : Conn) : handshake ssl c = (Turns.handshake ssl c 1024).result :=
  (handshakeFrom_result 0 1024).symm

/-- The lines of a text that `handshake` looks at, at most so many. The last line need
not be ended, and one that a blank line follows is the last. -/
def examinedFrom : Nat → List UInt8 → List (List UInt8)
  | 0, _ => []
  | lines + 1, text =>
    match firstLine text with
    | none => [text]
    | some (line, rest) => line :: if [13, 10].isPrefixOf rest then [] else examinedFrom lines rest

def examined (text : List UInt8) : List (List UInt8) := examinedFrom (text.length + 1) text

def namesKey (line : List UInt8) : Bool := strstr line keyName

/-- The first line that names the key decides what `handshake` does. -/
inductive Answer (ssl : OpenSsl) (c : Conn) : Option (List UInt8) → Course Conn → Prop where
  | unnamed : Answer ssl c none (.returned c)
  | named {line : List UInt8} {linebuf : Buffer UInt8 1024} (free : 0 ∉ line) (short : line.length < 1024)
      (cells : linebuf.cells = line ++ List.replicate (1024 - line.length) 0) :
      Answer ssl c (some line) ((Turns.strcat linebuf guid).bind fun _ => .ofRead (acceptKey ssl c linebuf))

section
variable {ssl : OpenSsl} {c : Conn} {text back line : List UInt8} {idx : Nat} {next : Int} {linebuf : Buffer UInt8 1024}

theorem turn_eq (read : readline c.rbuffer.cells idx (Buffer.fill 0) = some (next, linebuf)) (free : 0 ∉ line)
    (short : line.length < 1024) (cells : linebuf.cells = line ++ List.replicate (1024 - line.length) 0) (turns : Nat) :
    Turns.handshakeFrom ssl c idx (turns + 1) =
      if namesKey line then (Turns.strcat linebuf guid).bind fun _ => .ofRead (acceptKey ssl c linebuf)
      else if next = -1 then .returned c
      else (ofRead c.rbuffer.cells[next.toNat]?).bind fun first =>
        (ofRead (if first = 13 then (c.rbuffer.cells[next.toNat + 1]?).map (· == 10) else some false)).bind fun blank =>
          if blank then .returned c else Turns.handshakeFrom ssl c next.toNat turns := by
  have known : Turns.readline c.rbuffer.cells idx (Buffer.fill 0) = .returned (next, linebuf) := by
    apply result_eq_some.mp
    rw [readline_result, read]
  have held : cstring linebuf.cells = some line := by rw [cells, cstring_line free short]
  simp only [Turns.handshakeFrom, known, held, bind_eq, pure_eq, returned_bind, ofRead_some]
  rfl

theorem turn_named (read : readline c.rbuffer.cells idx (Buffer.fill 0) = some (next, linebuf)) (free : 0 ∉ line)
    (short : line.length < 1024) (cells : linebuf.cells = line ++ List.replicate (1024 - line.length) 0)
    (named : namesKey line = true) (further : List (List UInt8)) (turns : Nat) :
    Answer ssl c ((line :: further).find? namesKey) (Turns.handshakeFrom ssl c idx (turns + 1)) := by
  rw [turn_eq read free short cells, List.find?_cons_of_pos named, if_pos named]
  exact .named free short cells

/-- The loop of `handshake` with a turn for each line. -/
theorem handshakeFrom_answers (ssl : OpenSsl) (block : c.rbuffer.cells = text ++ 0 :: back) (free : 0 ∉ text)
    {lines turns : Nat} (inside : idx ≤ text.length) (enough : (text.drop idx).length < lines) (later : lines ≤ turns) :
    Answer ssl c ((examinedFrom lines (text.drop idx)).find? namesKey) (Turns.handshakeFrom ssl c idx turns) := by
  induction lines generalizing idx turns with
  | zero => omega
  | succ lines ih =>
    obtain ⟨turns, rfl⟩ : ∃ before, turns = before + 1 := ⟨turns - 1, by omega⟩
    have size := text_length block
    rw [List.length_drop] at enough
    cases found : firstLine (text.drop idx) with
    | none =>
      obtain ⟨linebuf, read, cells⟩ := readline_last block free inside found
      have free : 0 ∉ text.drop idx := fun member => free (List.mem_of_mem_drop member)
      have short : (text.drop idx).length < 1024 := by rw [List.length_drop]; omega
      rw [examinedFrom, found]
      by_cases named : namesKey (text.drop idx)
      · exact turn_named read free short cells named [] turns
      · rw [turn_eq read free short cells, List.find?_cons_of_neg named, if_neg named, if_pos rfl]
        exact .unnamed
    | some both =>
      obtain ⟨line, rest⟩ := both
      obtain ⟨linebuf, read, cells⟩ := readline_line block free inside found
      obtain ⟨within, reached⟩ := drop_next inside found
      have short : line.length < 1024 := by omega
      rw [examinedFrom, found]
      by_cases named : namesKey line
      · exact turn_named read (line_free free found) short cells named _ turns
      · have notLast : ((idx + line.length + 2 : Nat) : Int) ≠ -1 := by omega
        obtain ⟨first, here, blank⟩ := blank_test block within
        rw [reached] at blank
        rw [turn_eq read (line_free free found) short cells, List.find?_cons_of_neg named, if_neg named, if_neg notLast,
          Int.toNat_natCast, here, ofRead_some, returned_bind, blank, ofRead_some, returned_bind]
        cases ended : [13, 10].isPrefixOf rest with
        | true => exact .unnamed
        | false =>
          have fewer : (text.drop (idx + line.length + 2)).length < lines := by
            rw [List.length_drop]
            omega
          have further := ih within fewer (Nat.le_of_succ_le_succ later)
          rw [reached] at further
          exact further

theorem handshake_answers (ssl : OpenSsl) (block : c.rbuffer.cells = text ++ 0 :: back) (free : 0 ∉ text) {turns : Nat}
    (enough : text.length < turns) : Answer ssl c ((examined text).find? namesKey) (Turns.handshake ssl c turns) :=
  handshakeFrom_answers ssl block free (Nat.zero_le _) (Nat.lt_succ_self _) enough

/-- A complete header line for the key is among the lines that are looked at. -/
theorem find_of_keyLine {lines more : Nat} (keyed : keyLineFrom lines text = true) (later : lines ≤ more) :
    ∃ line, (examinedFrom more text).find? namesKey = some line := by
  induction lines generalizing more text with
  | zero => cases keyed
  | succ lines ih =>
    obtain ⟨more, rfl⟩ : ∃ fewer, more = fewer + 1 := ⟨more - 1, by omega⟩
    unfold keyLineFrom at keyed
    split at keyed
    next => cases keyed
    next line rest found =>
      rw [examinedFrom, found]
      dsimp only
      cases named : namesKey line with
      | true => exact ⟨line, List.find?_cons_of_pos named⟩
      | false =>
        have other : (keyName ++ ascii ":").isPrefixOf line = false := by
          rw [← Bool.not_eq_true, List.isPrefixOf_iff_prefix]
          intro begins
          have contained : namesKey line = true :=
            strstr_prefix (List.isPrefixOf_iff_prefix.mpr ((List.prefix_append _ _).trans begins))
          rw [named] at contained
          cases contained
        rw [other, Bool.false_or, Bool.and_eq_true, Bool.not_eq_true'] at keyed
        rw [List.find?_cons_of_neg (by rw [named]; nofun), keyed.1]
        exact ih keyed.2 (Nat.le_of_succ_le_succ later)

/-- A complete header line with the key makes the handshake place the 101 response. -/
theorem handshake_places {after : Conn} (keyed : hasKeyLine (textOf c.rbuffer.cells) = true)
    (shaken : handshake ssl c = some after) : Placed after := by
  obtain ⟨read, reading, -⟩ := Option.bind_eq_some_iff.mp shaken
  obtain ⟨length, ended, -⟩ := Option.bind_eq_some_iff.mp reading
  have found : cstring c.rbuffer.cells = some (c.rbuffer.cells.take length) := by
    rw [cstring, ended]
    rfl
  obtain ⟨free, back, block⟩ := cstring_eq_some found
  rw [textOf_cstring found] at keyed
  have answer := handshake_answers ssl block free (text_length block)
  obtain ⟨line, named⟩ := find_of_keyLine keyed (Nat.le_succ _)
  rw [examined, named] at answer
  rw [handshake_result ssl] at shaken
  generalize Turns.handshake ssl c 1024 = course at answer shaken
  cases answer with
  | named _ _ _ =>
    rw [result_bind, result_ofRead] at shaken
    obtain ⟨_, -, accepted⟩ := Option.bind_eq_some_iff.mp shaken
    exact acceptKey_places accepted

theorem strlen_line (free : 0 ∉ line) (short : line.length < 1024)
    (cells : linebuf.cells = line ++ List.replicate (1024 - line.length) 0) : strlen linebuf.cells = some line.length := by
  obtain ⟨more, zeros⟩ : ∃ more, 1024 - line.length = more + 1 := ⟨1023 - line.length, by omega⟩
  rw [cells, zeros, List.replicate_succ, strlen_append free]

/-- The GUID is appended to a line that leaves room for it. -/
theorem strcat_line (free : 0 ∉ line) (cells : linebuf.cells = line ++ List.replicate (1024 - line.length) 0)
    (room : line.length + guid.length < 1024) :
    ∃ wider rest, strcat linebuf guid = some wider ∧ wider.cells = (line ++ guid) ++ 0 :: rest := by
  have held := strlen_line free (by omega) cells
  obtain ⟨wider, written, after⟩ := Buffer.write_behind cells (guid ++ [0])
    (by rw [List.length_append, List.length_singleton, List.length_replicate]; omega)
  refine ⟨wider, (List.replicate (1024 - line.length) 0).drop (guid ++ [0]).length, ?_, ?_⟩
  · rw [strcat, held]
    exact written
  · rw [after, List.append_assoc, List.append_assoc]
    rfl

theorem strcat_long (free : 0 ∉ line) (short : line.length < 1024)
    (cells : linebuf.cells = line ++ List.replicate (1024 - line.length) 0) (long : 1024 ≤ line.length + guid.length) :
    Turns.strcat linebuf guid = .overflow := by
  have held := strlen_line free short cells
  have outside : linebuf.write line.length (guid ++ [0]) = none := by
    apply dif_neg
    rw [List.length_append, List.length_singleton]
    omega
  rw [Turns.strcat, held, ofRead_some, bind_eq, returned_bind, outside, ofWrite_none]

end

def acceptValue (ssl : OpenSsl) (key : List UInt8) : List UInt8 := textOf (ssl.base64 (ssl.sha1 key)).dropLast

/-- `base64_encode` of a digest leaves the filter's output without its newline. -/
theorem base64Encode_digest (ssl : OpenSsl) {digest : List UInt8} (size : digest.length = 20) :
    ∃ secAccept : Buffer UInt8 32, base64Encode ssl digest (Buffer.fill 0) = some secAccept ∧
      cstring secAccept.cells = some (textOf (ssl.base64 digest).dropLast) := by
  have length := ssl.base64_length digest size
  obtain ⟨first, stored, cells⟩ := Buffer.write_behind
    (show (Buffer.fill 0 : Buffer UInt8 32).cells = [] ++ List.replicate 32 0 from rfl) (ssl.base64 digest)
    (by rw [length, List.length_replicate]; omega)
  have whole : (ssl.base64 digest).dropLast ++ (ssl.base64 digest).drop 28 = ssl.base64 digest := by
    rw [List.dropLast_eq_take, length, List.take_append_drop]
  have front : (ssl.base64 digest).dropLast.length = 28 := by rw [List.length_dropLast, length]
  have tail : ((ssl.base64 digest).drop 28).length = 1 := by rw [List.length_drop, length]
  rw [List.nil_append, ← whole, List.append_assoc, whole, length, List.drop_replicate] at cells
  obtain ⟨secAccept, ended, last⟩ := Buffer.write_behind cells [0]
    (by rw [List.length_append, tail, List.length_singleton]; omega)
  have zeros : secAccept.cells = (ssl.base64 digest).dropLast ++ List.replicate 4 0 := by
    rw [last, List.length_singleton, List.drop_append, List.drop_eq_nil_of_le tail.le, tail]
    rfl
  refine ⟨secAccept, ?_, ?_⟩
  · rw [front] at ended
    have copied : (Buffer.fill 0 : Buffer UInt8 32).write 0 (ssl.base64 digest) = some first := stored
    simp only [base64Encode, copied, length, Option.bind_eq_bind, Option.bind_some]
    exact ended
  · have ended : 0 ∈ secAccept.cells := by simp [zeros]
    obtain ⟨text, found⟩ := cstring_isSome ended
    rw [found, ← textOf_cstring found, zeros, textOf_zeros]

theorem switching_fits (ssl : OpenSsl) (key : List UInt8) : (switching (acceptValue ssl key)).length < bufferLength := by
  have digest := ssl.base64_length _ (ssl.sha1_length key)
  have short : (acceptValue ssl key).length ≤ 28 := by
    apply (List.takeWhile_prefix _).length_le.trans
    rw [List.length_dropLast, digest]
  have head : (ascii ("HTTP/1.1 101 Switching Protocols\r\n" ++ "Upgrade: websocket\r\n" ++ "Connection: Upgrade\r\n" ++
    "Sec-WebSocket-Accept: ")).length = 97 := by decide
  have tail : (ascii "\r\n\r\n").length = 4 := rfl
  change _ < 1024
  rw [switching, List.length_append, List.length_append, head, tail]
  omega

def Responds (c : Conn) (accept : List UInt8) : Prop :=
  c.wlength = (switching accept).length ∧ c.wbuffer.cells.take (switching accept).length = switching accept

/-- A line that leaves room for the GUID gets the response for what follows its first
19 bytes. -/
theorem acceptKey_answers (ssl : OpenSsl) (c : Conn) {line : List UInt8} {linebuf : Buffer UInt8 1024} (free : 0 ∉ line)
    (cells : linebuf.cells = line ++ List.replicate (1024 - line.length) 0) (room : line.length + guid.length < 1024) :
    ∃ after, acceptKey ssl c linebuf = some after ∧
      Responds after (acceptValue ssl ((line ++ guid).drop websockKeyLength)) := by
  obtain ⟨wider, rest, appended, whole⟩ := strcat_line free cells room
  have key : cstring (wider.cells.drop websockKeyLength) = some ((line ++ guid).drop websockKeyLength) := by
    have long : websockKeyLength ≤ (line ++ guid).length := by
      rw [List.length_append]
      exact Nat.le_add_left_of_le (by decide)
    have free : 0 ∉ line ++ guid := List.not_mem_append free (by decide)
    rw [whole, List.drop_append_of_le_length long]
    exact cstring_append (fun member => free (List.mem_of_mem_drop member)) _
  generalize (line ++ guid).drop websockKeyLength = text at key ⊢
  obtain ⟨secData, copied, data⟩ := Buffer.write_behind
    (show (Buffer.fill 0 : Buffer UInt8 128).cells = [] ++ List.replicate 128 0 from rfl) (ssl.sha1 text)
    (by rw [ssl.sha1_length, List.length_replicate]; omega)
  have hashed : (Buffer.fill 0 : Buffer UInt8 128).write 0 (ssl.sha1 text) = some secData := copied
  have digest : secData.read 0 20 = some (ssl.sha1 text) := by
    rw [Buffer.read_of_le (by decide), Block.slice_zero, data, List.nil_append, List.take_left' (ssl.sha1_length _)]
  obtain ⟨secAccept, encoded, accept⟩ := base64Encode_digest ssl (ssl.sha1_length text)
  obtain ⟨wbuffer, written, cells⟩ := Buffer.write_of_le (Buffer.fill 0 : Buffer UInt8 bufferLength) 0
    (switching (acceptValue ssl text) ++ [0])
    (by
      have fits := switching_fits ssl text
      rw [List.length_append, List.length_singleton]
      omega)
  refine ⟨{ c with wbuffer, wlength := (switching (acceptValue ssl text)).length }, ?_, rfl, ?_⟩
  · rw [switching, acceptValue] at written
    simp only [acceptKey, appended, key, hashed, digest, encoded, accept, Option.bind_eq_bind, Option.bind_some, written]
    rfl
  · rw [cells, Block.overlay_zero, List.append_assoc]
    exact List.take_left

section
variable {ssl : OpenSsl} {c : Conn} {line : List UInt8} {course : Course Conn}

theorem Answer.unchanged (answer : Answer ssl c none course) : course = .returned c := by
  cases answer with
  | unnamed => rfl

theorem Answer.responds (answer : Answer ssl c (some line) course) (room : line.length + guid.length < 1024) :
    ∃ after, course = .returned after ∧ Responds after (acceptValue ssl ((line ++ guid).drop websockKeyLength)) := by
  cases answer with
  | named free short cells =>
    obtain ⟨wider, -, appended, -⟩ := strcat_line free cells room
    obtain ⟨after, accepted, responds⟩ := acceptKey_answers ssl c free cells room
    refine ⟨after, ?_, responds⟩
    rw [← strcat_result] at appended
    rw [result_eq_some.mp appended, returned_bind, accepted, ofRead_some]

theorem Answer.overflows (answer : Answer ssl c (some line) course) (long : 1024 ≤ line.length + guid.length) :
    course = .overflow := by
  cases answer with
  | named free short cells => rw [strcat_long free short cells long, overflow_bind]

theorem Answer.returns {found : Option (List UInt8)} (answer : Answer ssl c found course)
    (room : ∀ line, found = some line → line.length + guid.length < 1024) : ∃ after, course = .returned after := by
  cases found with
  | none => exact ⟨c, answer.unchanged⟩
  | some line =>
    obtain ⟨after, returned, -⟩ := answer.responds (room line rfl)
    exact ⟨after, returned⟩

theorem Answer.ended {found : Option (List UInt8)} (answer : Answer ssl c found course) : course ≠ .running := by
  cases found with
  | none =>
    obtain ⟨after, returned⟩ := answer.returns nofun
    rw [returned]
    exact nofun
  | some line =>
    by_cases room : line.length + guid.length < 1024
    · obtain ⟨after, returned, -⟩ := answer.responds room
      rw [returned]
      exact nofun
    · rw [answer.overflows (Nat.le_of_not_lt room)]
      exact nofun

theorem received_text {bytes : List UInt8} (short : bytes.length ≤ 1023)
    (received : c.rbuffer.cells = bytes ++ List.replicate (1024 - bytes.length) 0) :
    0 ∉ textOf bytes ∧ ∃ back, c.rbuffer.cells = textOf bytes ++ 0 :: back := by
  have ended : 0 ∈ c.rbuffer.cells := by
    rw [received]
    exact List.mem_append_right _ (List.mem_replicate.mpr ⟨by omega, rfl⟩)
  obtain ⟨text, found⟩ := cstring_isSome ended
  have same : textOf bytes = text := by rw [← textOf_cstring found, received, textOf_zeros]
  rw [same]
  exact cstring_eq_some found

/-- What the loop comes to for all that one `recv` can leave. -/
theorem received_answers (ssl : OpenSsl) {bytes : List UInt8} (short : bytes.length ≤ 1023)
    (received : c.rbuffer.cells = bytes ++ List.replicate (1024 - bytes.length) 0) :
    Answer ssl c ((examined (textOf bytes)).find? namesKey) (Turns.handshake ssl c 1024) := by
  obtain ⟨free, back, block⟩ := received_text short received
  have fits : (textOf bytes).length ≤ bytes.length := (List.takeWhile_prefix _).length_le
  exact handshake_answers ssl block free (by omega)

end

def holding (bytes : List UInt8) (short : bytes.length ≤ 1023) : Conn where
  rbuffer := (Buffer.fill 0).put bytes (Nat.le_succ_of_le short)
  rlength := bytes.length
  wbuffer := Buffer.fill 0
  wlength := 0
  status := 0

theorem holding_cells (bytes : List UInt8) (short : bytes.length ≤ 1023) :
    (holding bytes short).rbuffer.cells = bytes ++ List.replicate (1024 - bytes.length) 0 := by
  rw [holding, Buffer.put_cells, ← List.drop_replicate]
  rfl

end NetPrograms.Proofs.WebSocketLines
