import NetPrograms.AddressBook.Book
import NetPrograms.Proofs.BookEntries

/-! What `load_file` of contact.c does: its test of `paraser_token` has the wrong
sense, so that it skips each line that was parsed and adds a nameless node for each
read that was not, and the last read of a file is always one of these. -/

namespace NetPrograms.Proofs.ContactLoad
open AddressBook BookChains BookEntries

variable {P : Type}

structure SavedLine where
  name : List UInt8
  phone : List UInt8
  named : 1 ≤ name.length ∧ name.length ≤ 14
  phoned : 1 ≤ phone.length ∧ phone.length ≤ 18
  plainName : ∀ byte ∈ name, byte ≠ 0 ∧ byte ≠ space ∧ byte ≠ comma ∧ byte ≠ TextFile.newline
  plainPhone : ∀ byte ∈ phone, byte ≠ 0 ∧ byte ≠ TextFile.newline

structure ShortLine where
  text : List UInt8
  short : text.length + 1 < minLength
  plain : TextFile.newline ∉ text

/-- A file of such lines. What stands behind the last newline is short too. -/
structure LineFile where
  lines : List (SavedLine ⊕ ShortLine)
  last : List UInt8
  short : last.length < minLength
  plain : TextFile.newline ∉ last

def lineBody : SavedLine ⊕ ShortLine → List UInt8
  | .inl saved => lineText ⟨saved.name, saved.phone⟩
  | .inr short => short.text

namespace LineFile

def content (file : LineFile) : List UInt8 :=
  file.lines.flatMap (fun line => lineBody line ++ [TextFile.newline]) ++ file.last

def names (file : LineFile) : List (List UInt8) :=
  file.lines.filterMap fun
    | .inl saved => some saved.name
    | .inr _ => none

end LineFile

def LoadsLines [DecidableEq P] (malloc : Malloc P) (cts : Contact P) (items : List P) (file : LineFile) : Prop :=
  ∃ after code new, cts.loadFile malloc (some file.content) = some (after, code) ∧
    Linked after.heap.links after.nnode (new ++ items) ∧
    (new.map fun p => cstring (after.heap.data p).name.cells).Perm (file.names.map some) ∧
    (∀ p ∈ items, after.heap.data p = cts.heap.data p) ∧ after.count = cts.count + new.length

theorem lineBody_fits (line : SavedLine ⊕ ShortLine) :
    TextFile.newline ∉ lineBody line ∧ (lineBody line).length + 2 ≤ bufferLength := by
  rcases line with saved | short
  · have front : TextFile.newline ∉ ascii "name: " := by decide
    have middle : TextFile.newline ∉ ascii ",phone: " := by decide
    have name : TextFile.newline ∉ saved.name := fun member => (saved.plainName _ member).2.2.2 rfl
    have phone : TextFile.newline ∉ saved.phone := fun member => (saved.plainPhone _ member).2 rfl
    refine ⟨by simp [lineBody, lineText, front, name, middle, phone], ?_⟩
    exact lineText_short (Nat.lt_succ_of_le saved.named.2) (Nat.lt_succ_of_lt (Nat.lt_succ_of_le saved.phoned.2))
  · have less := short.short
    simp only [minLength] at less
    refine ⟨short.plain, ?_⟩
    simp only [lineBody, bufferLength]
    omega

theorem reads_last (file : LineFile) : file.last ∈ TextFile.reads bufferLength file.content := by
  have read : TextFile.reads bufferLength ((file.lines.map lineBody).flatMap (· ++ [TextFile.newline]) ++ file.last) =
      (file.lines.map lineBody).map (· ++ [TextFile.newline]) ++ TextFile.reads bufferLength file.last := by
    apply TextFile.reads_lines
    · intro body member
      obtain ⟨line, -, rfl⟩ := List.mem_map.mp member
      exact (lineBody_fits line).1
    · intro body member
      obtain ⟨line, -, rfl⟩ := List.mem_map.mp member
      exact (lineBody_fits line).2
  have less := file.short
  simp only [minLength] at less
  have tail : TextFile.reads bufferLength file.last = [file.last] := by
    apply TextFile.reads_tail file.plain
    simp only [bufferLength]
    omega
  rw [List.flatMap_map, tail] at read
  rw [LineFile.content, read]
  exact List.mem_append_right _ (List.mem_singleton_self _)

/-- The loop goes on to `malloc` only with the fields of a line that is too short. -/
theorem paraserToken_code {buffer : Buffer UInt8 bufferLength} {length : Nat} {code : Int} {person : Person}
    (parsed : Contact.paraserToken buffer length clearPerson.name clearPerson.phone = some (code, person)) :
    (code = 0 → minLength ≤ length) ∧ (code ≠ 0 → person = clearPerson) := by
  unfold Contact.paraserToken at parsed
  split at parsed
  next short =>
    cases parsed
    exact ⟨fun success => absurd success (by decide), fun _ => rfl⟩
  next long =>
    dsimp only at parsed
    split at parsed
    next => cases parsed
    next =>
      obtain ⟨name, -, parsed⟩ := Option.bind_eq_some_iff.mp parsed
      obtain ⟨phone, -, parsed⟩ := Option.bind_eq_some_iff.mp parsed
      obtain ⟨shown, -, same⟩ := Option.bind_eq_some_iff.mp parsed
      cases same
      exact ⟨fun _ => Nat.le_of_not_lt long, fun failure => absurd rfl failure⟩

/-- The nodes that a run of the loop has put in front of a list. -/
structure Added (before after : Contact P) (items new : List P) : Prop where
  chain : Chain after.heap after.nnode (new ++ items)
  kept : ∀ p ∈ items, after.heap.data p = before.heap.data p
  nameless : ∀ p ∈ new, (after.heap.data p) = clearPerson

/-- A node that is put in front before all the others stands behind them. -/
theorem Added.behind [DecidableEq P] {cts after : Contact P} {p : P} {person : Person} {items new : List P} {count : Int}
    (chain : Chain cts.heap cts.nnode items) (fresh : p ∉ cts.heap.live) (cleared : person = clearPerson)
    (added : Added ⟨((cts.heap.allocate p person).personInsert cts.nnode p).1,
      ((cts.heap.allocate p person).personInsert cts.nnode p).2, count⟩ after (p :: items) new) :
    Added cts after items (new ++ [p]) := by
  refine ⟨?_, ?_, ?_⟩
  · rw [List.append_assoc]
    exact added.chain
  · intro q member
    have other : q ≠ p := by
      rintro rfl
      exact fresh (chain.live q member)
    rw [added.kept q (List.mem_cons_of_mem p member)]
    exact insert_data _ _ other person
  · intro q member
    rcases List.mem_append.mp member with earlier | here
    · exact added.nameless q earlier
    · rw [List.mem_singleton.mp here, added.kept p List.mem_cons_self]
      exact (insert_data_self _ _ p person).trans cleared

theorem loadLines_added [DecidableEq P] {malloc : Malloc P} (succeeds : malloc.Succeeds) {lines : List (List UInt8)}
    {cts after : Contact P} {code : Int} {items : List P} (chain : Chain cts.heap cts.nnode items)
    (loaded : cts.loadLines malloc lines = some (after, code)) :
    ∃ new, Added cts after items new ∧ ((∃ line ∈ lines, line.length < minLength) → new ≠ []) := by
  induction lines generalizing cts items with
  | nil =>
    cases loaded
    exact ⟨[], ⟨chain, fun _ _ => rfl, by simp⟩, by simp⟩
  | cons line lines ih =>
    rw [Contact.loadLines] at loaded
    obtain ⟨buffer, read, loaded⟩ := Option.bind_eq_some_iff.mp loaded
    obtain ⟨length, long, loaded⟩ := Option.bind_eq_some_iff.mp loaded
    obtain ⟨⟨status, person⟩, parsed, loaded⟩ := Option.bind_eq_some_iff.mp loaded
    obtain ⟨parsedLine, cleared⟩ := paraserToken_code parsed
    dsimp only at loaded
    split at loaded
    next success =>
      obtain ⟨new, added, nonempty⟩ := ih chain loaded
      refine ⟨new, added, ?_⟩
      rintro ⟨other, member, short⟩
      rcases List.mem_cons.mp member with here | later
      · subst here
        have enough := Nat.le_trans (parsedLine success) (strlen_fgets read long)
        exact absurd short (Nat.not_lt.mpr enough)
      · exact nonempty ⟨other, later, short⟩
    next failure =>
      split at loaded
      next refused =>
        have given := succeeds.node cts.heap.time cts.heap.live
        simp [refused] at given
      next p allocated =>
        have fresh := malloc.fresh _ _ _ allocated
        rw [if_pos (succeeds.person _)] at loaded
        obtain ⟨new, added, -⟩ := ih (chain.insert fresh person) loaded
        exact ⟨new ++ [p], added.behind chain fresh (cleared failure), by simp⟩

/-- No file is loaded as it should be, whatever its lines and the list before. -/
theorem load_never [DecidableEq P] (malloc : Malloc P) (succeeds : malloc.Succeeds) (cts : Contact P) (items : List P)
    (chain : Chain cts.heap cts.nnode items) (file : LineFile) : ¬ LoadsLines malloc cts items file := by
  rintro ⟨after, code, new, loaded, linked, names, -⟩
  obtain ⟨made, added, nonempty⟩ := loadLines_added succeeds chain loaded
  obtain rfl : new = made := List.append_cancel_right (linked.unique added.chain.linked)
  obtain ⟨p, member⟩ := List.exists_mem_of_ne_nil new (nonempty ⟨file.last, reads_last file, file.short⟩)
  have shown : cstring (after.heap.data p).name.cells ∈ file.names.map some :=
    names.mem_iff.mp (List.mem_map.mpr ⟨p, member, rfl⟩)
  have nameless : cstring (after.heap.data p).name.cells = some [] := by
    rw [added.nameless p member]
    decide
  rw [nameless] at shown
  obtain ⟨name, listed, empty⟩ := List.mem_map.mp shown
  obtain ⟨line, -, taken⟩ := List.mem_filterMap.mp listed
  cases line with
  | inr short => cases taken
  | inl saved =>
    cases taken
    have named := saved.named.1
    rw [Option.some.inj empty] at named
    exact absurd named (by decide)

def bobFile : LineFile where
  lines := [.inl ⟨ascii "Bob", ascii "139", by decide, by decide, by simp [ascii, space, comma, TextFile.newline],
    by simp [ascii, TextFile.newline]⟩]
  last := []
  short := by decide
  plain := by decide

theorem empty_chain : Chain (Contact.empty countingHeap).heap (Contact.empty countingHeap).nnode [] := by
  refine ⟨Linked.empty _, ?_⟩
  intro p member
  cases member

theorem bobFile_never : ¬ LoadsLines counting (Contact.empty countingHeap) [] bobFile :=
  load_never counting counting_succeeds (Contact.empty countingHeap) [] empty_chain bobFile

/-- The one node that is added is nameless. -/
theorem bobFile_misread : ¬ ∀ (P : Type) [DecidableEq P] (malloc : Malloc P) (cts : Contact P) (items : List P)
    (file : LineFile), malloc.Succeeds → Chain cts.heap cts.nnode items → LoadsLines malloc cts items file := by
  intro always
  obtain ⟨after, code, new, loaded, linked, names, -, -⟩ :=
    always Nat counting (Contact.empty countingHeap) [] bobFile counting_succeeds empty_chain
  have run : ((Contact.empty countingHeap).loadFile counting (some bobFile.content)).map (fun result =>
      (result.1.nnode, result.1.heap.links.next 1, cstring (result.1.heap.data 1).name.cells)) =
        some (some 1, none, some []) := by
    decide +kernel
  rw [loaded, Option.map_some, Option.some.injEq, Prod.mk.injEq, Prod.mk.injEq] at run
  obtain ⟨head, next, nameless⟩ := run
  have path : Path after.heap.links after.nnode [1] := by
    rw [head]
    exact .step (next ▸ .done)
  obtain rfl : new = [1] := by
    have same := linked.path.unique path
    rwa [List.append_nil] at same
  have shown : cstring (after.heap.data 1).name.cells ∈ bobFile.names.map some :=
    names.mem_iff.mp List.mem_cons_self
  rw [nameless] at shown
  exact absurd shown (by decide)

end NetPrograms.Proofs.ContactLoad
