import Mathlib.Algebra.Order.Ring.Int
import Mathlib.Data.List.TakeDrop
import Mathlib.Data.List.TakeWhile
import NetPrograms.Lib.Tally

/-! The tokens of a string, which the library function `strtok` cuts off one by
one. What it keeps between two calls is the text behind the last token. -/

namespace NetPrograms

universe u
variable {α : Type u} [DecidableEq α]

/-- The next token of the text, if it has one, and the text behind the delimiter
that ends the token. -/
def strtok (delim : α) (text : List α) : Option (List α) × List α :=
  match text.dropWhile (· = delim) with
  | [] => (none, [])
  | first :: more => (some (first :: more.takeWhile (· ≠ delim)), (more.dropWhile (· ≠ delim)).tail)

def tokensFrom (delim : α) : Nat → List α → List (List α)
  | 0, _ => []
  | count + 1, text =>
    match strtok delim text with
    | (none, _) => []
    | (some token, rest) => token :: tokensFrom delim count rest

def tokens (delim : α) (text : List α) : List (List α) := tokensFrom delim text.length text

section
variable {delim : α} {text rest token : List α}

/-- A token costs its bytes, and one byte more where text is left behind it. -/
theorem strtok_some (found : strtok delim text = (some token, rest)) :
    token ≠ [] ∧ token.length + rest.length ≤ text.length ∧ (rest ≠ [] → token.length + rest.length < text.length) := by
  unfold strtok at found
  have shorter := List.length_dropWhile_le (· = delim) text
  split at found
  · cases found
  next first more same =>
    obtain ⟨rfl, rfl⟩ := found
    have whole : (more.takeWhile (· ≠ delim) ++ more.dropWhile (· ≠ delim)).length = more.length :=
      congrArg List.length List.takeWhile_append_dropWhile
    rw [same] at shorter
    simp only [List.length_append, List.length_cons, List.length_tail] at whole shorter ⊢
    refine ⟨List.cons_ne_nil _ _, by omega, ?_⟩
    intro left
    have behind := List.length_pos_iff.mpr left
    rw [List.length_tail] at behind
    omega

theorem strtok_subset (found : strtok delim text = (some token, rest)) : token ⊆ text ∧ rest ⊆ text := by
  unfold strtok at found
  split at found
  · cases found
  next first more same =>
    obtain ⟨rfl, rfl⟩ := found
    have inside : first :: more ⊆ text := same ▸ (List.dropWhile_sublist _).subset
    refine ⟨?_, ?_⟩
    · exact List.Subset.trans (List.cons_subset_cons _ (List.takeWhile_sublist _).subset) inside
    · have tail : (more.dropWhile (· ≠ delim)).tail ⊆ more :=
        ((List.tail_sublist _).trans (List.dropWhile_sublist _)).subset
      exact List.Subset.trans tail (List.Subset.trans (List.subset_cons_self _ _) inside)

theorem strtok_free (found : strtok delim text = (some token, rest)) : delim ∉ token := by
  unfold strtok at found
  split at found
  · cases found
  next first more same =>
    obtain ⟨rfl, rfl⟩ := found
    have kept : decide (first = delim) = false := by
      have stopped := List.head?_dropWhile_not (fun item => decide (item = delim)) text
      rw [same] at stopped
      exact stopped
    intro member
    rcases List.mem_cons.mp member with first | later
    · simp [first] at kept
    · have other := List.mem_takeWhile_imp later
      simp at other

theorem strtok_none (missing : (strtok delim text).1 = none) : strtok delim text = (none, []) := by
  unfold strtok at missing ⊢
  split
  · rfl
  next same =>
    rw [same] at missing
    cases missing

/-- A token at the start of the text, which a delimiter or the end of the text
follows. -/
theorem strtok_append {tail : List α} (nonempty : token ≠ []) (free : delim ∉ token)
    (ended : ∀ item ∈ tail.head?, item = delim) : strtok delim (token ++ tail) = (some token, tail.tail) := by
  obtain ⟨first, more, rfl⟩ := List.exists_cons_of_ne_nil nonempty
  obtain ⟨other, free⟩ := not_or.mp (List.mem_cons.not.mp free)
  have inside : ∀ item ∈ more, (decide (item ≠ delim)) = true := by
    intro item member
    simpa using fun same : item = delim => free (same ▸ member)
  have stops : tail.takeWhile (decide <| · ≠ delim) = [] ∧ tail.dropWhile (decide <| · ≠ delim) = tail := by
    cases tail with
    | nil => exact ⟨rfl, rfl⟩
    | cons item tail => simp [ended item rfl]
  have kept : (first :: more ++ tail).dropWhile (· = delim) = first :: (more ++ tail) := by
    simp [Ne.symm other]
  unfold strtok
  rw [kept]
  dsimp only
  rw [List.takeWhile_append_of_pos inside, List.dropWhile_append_of_pos inside, stops.1, stops.2, List.append_nil]

theorem tokensFrom_of_le {count : Nat} (enough : text.length ≤ count) : tokensFrom delim count text = tokens delim text := by
  unfold tokens
  generalize same : text.length = length at enough ⊢
  induction length using Nat.strong_induction_on generalizing text count with
  | _ length ih =>
    cases count with
    | zero => rw [Nat.le_zero.mp enough]
    | succ count =>
      cases length with
      | zero => rw [List.length_eq_zero_iff.mp same]; rfl
      | succ length =>
        unfold tokensFrom
        split
        · rfl
        next token rest found =>
          obtain ⟨nonempty, shorter, -⟩ := strtok_some found
          have positive := List.length_pos_iff.mpr nonempty
          have many := ih rest.length (by omega) rfl (show rest.length ≤ count by omega)
          have few := ih rest.length (by omega) rfl (show rest.length ≤ length by omega)
          exact congrArg (token :: ·) (many.trans few.symm)

theorem tokens_none (missing : (strtok delim text).1 = none) : tokens delim text = [] := by
  have next := strtok_none missing
  unfold tokens
  cases text.length with
  | zero => rfl
  | succ count => rw [tokensFrom, next]

theorem tokens_some (found : strtok delim text = (some token, rest)) : tokens delim text = token :: tokens delim rest := by
  obtain ⟨nonempty, shorter, -⟩ := strtok_some found
  have positive := List.length_pos_iff.mpr nonempty
  obtain ⟨count, same⟩ := Nat.exists_eq_succ_of_ne_zero (show text.length ≠ 0 by omega)
  rw [tokens, same, tokensFrom, found]
  exact congrArg (token :: ·) (tokensFrom_of_le (by omega))

private theorem runs_delimiters (text : List α) :
    Tally.runs (· ≠ delim) (text.dropWhile (· = delim)) = Tally.runs (· ≠ delim) text := by
  have skipped : (fun item => decide (item = delim)) = fun item => !decide (item ≠ delim) := by
    funext item
    simp
  rw [skipped]
  exact Tally.runs_dropWhile

theorem runs_none (missing : (strtok delim text).1 = none) : Tally.runs (· ≠ delim) text = [] := by
  unfold strtok at missing
  split at missing
  next blank => rw [← runs_delimiters, blank, Tally.runs_nil]
  next => cases missing

theorem runs_some (found : strtok delim text = (some token, rest)) :
    Tally.runs (· ≠ delim) text = token :: Tally.runs (· ≠ delim) rest := by
  have free := strtok_free found
  unfold strtok at found
  split at found
  · cases found
  next first more same =>
    obtain ⟨rfl, rfl⟩ := found
    have kept : ∀ item ∈ first :: more.takeWhile (· ≠ delim), decide (item ≠ delim) = true := by
      intro item member
      simpa using fun other : item = delim => free (other ▸ member)
    have ends : ∀ item ∈ (more.dropWhile (· ≠ delim)).head?, decide (item ≠ delim) = false := by
      intro item head
      have stopped := List.head?_dropWhile_not (fun item => decide (item ≠ delim)) more
      rwa [Option.mem_def.mp head] at stopped
    have front := Tally.runs_front (List.cons_ne_nil _ _) kept ends
    rw [List.cons_append, List.takeWhile_append_dropWhile, ← same, runs_delimiters] at front
    rw [front]
    cases behind : more.dropWhile (· ≠ delim) with
    | nil => rfl
    | cons item left =>
      rw [behind] at ends
      have skipped : Tally.runs (· ≠ delim) (item :: left) = Tally.runs (· ≠ delim) left := Tally.runs_skip (ends item rfl)
      rw [skipped, List.tail_cons]

/-- The tokens are the pieces between the delimiters that are not empty. -/
theorem tokens_eq_runs (delim : α) (text : List α) : tokens delim text = Tally.runs (· ≠ delim) text := by
  induction length : text.length using Nat.strong_induction_on generalizing text with
  | _ n ih =>
    subst length
    cases call : (strtok delim text).1 with
    | none => rw [tokens_none call, runs_none call]
    | some token =>
      have found : strtok delim text = (some token, (strtok delim text).2) := Prod.ext call rfl
      obtain ⟨nonempty, shorter, -⟩ := strtok_some found
      have positive := List.length_pos_iff.mpr nonempty
      rw [tokens_some found, runs_some found, ih _ (by omega) _ rfl]

/-- Where `strtok` cuts: delimiters, the token, and a text that starts with the
delimiter that ended the token. -/
theorem strtok_cut (found : strtok delim text = (some token, rest)) : ∃ dots tail, text = dots ++ (token ++ tail) ∧
    (∀ item ∈ dots, item = delim) ∧ (∀ item ∈ tail.head?, item = delim) ∧ rest = tail.tail := by
  have whole : text.takeWhile (· = delim) ++ text.dropWhile (· = delim) = text := List.takeWhile_append_dropWhile
  unfold strtok at found
  split at found
  · cases found
  next first more same =>
    obtain ⟨rfl, rfl⟩ := found
    refine ⟨text.takeWhile (· = delim), more.dropWhile (· ≠ delim), ?_, ?_, ?_, rfl⟩
    · rw [List.cons_append, List.takeWhile_append_dropWhile, ← same, whole]
    · intro item member
      simpa using List.mem_takeWhile_imp member
    · intro item head
      have stopped := List.head?_dropWhile_not (fun item => decide (item ≠ delim)) more
      rw [Option.mem_def.mp head] at stopped
      simpa using stopped

theorem strtok_blank (missing : (strtok delim text).1 = none) : ∀ item ∈ text, item = delim := by
  unfold strtok at missing
  split at missing
  next blank => simpa using List.dropWhile_eq_nil_iff.mp blank
  next => cases missing

end

/-- `strtok` on a string in a block of memory, from the place `offset` on, as glibc
has it: where the token starts, where the next call goes on, and the block with a
`nul` over the delimiter behind the token. A string whose end is not in the block has
no result. -/
def strtokAt (nul delim : α) (block : List α) (offset : Nat) : Option (Option Nat × Nat × List α) := do
  let start := offset + ((block.drop offset).takeWhile (· = delim)).length
  let first ← block[start]?
  if first = nul then some (none, start, block)
  else
    let stop := start + ((block.drop start).takeWhile fun item => item ≠ delim ∧ item ≠ nul).length
    let last ← block[stop]?
    if last = nul then some (some start, stop, block)
    else some (some start, stop + 1, block.set stop nul)

/-- A string and its `nul` from a place of the block on. -/
def Holds (nul : α) (block : List α) (offset : Nat) (text : List α) : Prop :=
  nul ∉ text ∧ ∃ front back, block = front ++ (text ++ nul :: back) ∧ front.length = offset

section
variable {nul delim : α} {text rest token block : List α} {offset : Nat}

theorem strtokAt_none (holds : Holds nul block offset text) (apart : delim ≠ nul)
    (missing : (strtok delim text).1 = none) :
    strtokAt nul delim block offset = some (none, offset + text.length, block) := by
  obtain ⟨-, front, back, rfl, rfl⟩ := holds
  have skipped : ((front ++ (text ++ nul :: back)).drop front.length).takeWhile (· = delim) = text := by
    rw [List.drop_left, List.takeWhile_append_of_pos (by simpa using strtok_blank missing)]
    simp [Ne.symm apart]
  have here : (front ++ (text ++ nul :: back))[front.length + text.length]? = some nul := by simp
  unfold strtokAt
  rw [skipped]
  simp only [here, Option.bind_eq_bind, Option.bind_some, if_pos]

/-- The token and the text behind it stand in the block as strings of their own. -/
theorem strtokAt_some (holds : Holds nul block offset text) (apart : delim ≠ nul)
    (found : strtok delim text = (some token, rest)) : ∃ start next after,
      strtokAt nul delim block offset = some (some start, next, after) ∧ Holds nul after start token ∧
        Holds nul after next rest := by
  obtain ⟨free, front, back, rfl, rfl⟩ := holds
  have dotless := strtok_free found
  have free' : nul ∉ token ∧ nul ∉ rest := (strtok_subset found).imp (fun inside member => free (inside member))
    fun inside member => free (inside member)
  obtain ⟨first, more, rfl⟩ := List.exists_cons_of_ne_nil (strtok_some found).1
  obtain ⟨dots, tail, rfl, all, stops, rfl⟩ := strtok_cut found
  have kept : first ≠ delim ∧ first ≠ nul := by
    refine ⟨?_, ?_⟩ <;> rintro rfl
    · exact dotless List.mem_cons_self
    · exact free'.1 List.mem_cons_self
  -- The block is `front`, the delimiters, the token and what follows it.
  have skipped : ((front ++ (dots ++ (first :: more ++ tail) ++ nul :: back)).drop front.length).takeWhile (· = delim) =
      dots := by
    rw [List.drop_left, List.append_assoc, List.takeWhile_append_of_pos (by simpa using all)]
    simp [kept.1]
  have whole : front ++ (dots ++ (first :: more ++ tail) ++ nul :: back) =
      (front ++ dots) ++ (first :: more ++ (tail ++ nul :: back)) := by simp
  have size : front.length + dots.length = (front ++ dots).length := List.length_append.symm
  have here : ((front ++ dots) ++ (first :: more ++ (tail ++ nul :: back)))[(front ++ dots).length]? = some first := by
    simp
  have inside : ∀ item ∈ first :: more, decide (item ≠ delim ∧ item ≠ nul) = true := by
    intro item member
    have plain : item ≠ delim ∧ item ≠ nul := ⟨fun same => dotless (same ▸ member), fun same => free'.1 (same ▸ member)⟩
    simpa using plain
  have cut : (((front ++ dots) ++ (first :: more ++ (tail ++ nul :: back))).drop (front ++ dots).length).takeWhile
      (fun item => item ≠ delim ∧ item ≠ nul) = first :: more := by
    rw [List.drop_left, List.takeWhile_append_of_pos inside]
    cases tail with
    | nil => simp
    | cons item tail => simp [stops item rfl]
  rw [whole] at skipped ⊢
  unfold strtokAt
  rw [skipped, size]
  simp only [here, cut, Option.bind_eq_bind, Option.bind_some, if_neg kept.2]
  have behind : ∀ items, ((front ++ dots) ++ (first :: more ++ items))[(front ++ dots).length + (first :: more).length]? =
      items.head? := by
    intro items
    rw [← List.append_assoc, ← List.length_append, List.getElem?_append_right (Nat.le_refl _), Nat.sub_self,
      List.head?_eq_getElem?]
  cases tail with
  | nil =>
    rw [behind]
    simp only [List.nil_append, List.head?_cons, Option.bind_some, if_pos]
    refine ⟨_, _, _, rfl, ⟨free'.1, front ++ dots, back, rfl, rfl⟩, free'.2, front ++ dots ++ first :: more, back, ?_, ?_⟩
    · simp
    · simp [Nat.add_assoc]
  | cons item tail =>
    obtain rfl := stops item rfl
    rw [behind]
    simp only [List.cons_append, List.head?_cons, Option.bind_some, if_neg apart]
    have stored : ((front ++ dots) ++ (first :: more ++ item :: (tail ++ nul :: back))).set
        ((front ++ dots).length + (first :: more).length) nul =
        (front ++ dots) ++ (first :: more ++ nul :: (tail ++ nul :: back)) := by
      rw [List.set_append_right _ _ (Nat.le_add_right _ _), Nat.add_sub_cancel_left,
        List.set_append_right _ _ (Nat.le_refl _), Nat.sub_self, List.set_cons_zero]
    refine ⟨_, _, _, rfl, ⟨free'.1, front ++ dots, tail ++ nul :: back, stored, rfl⟩, free'.2,
      front ++ dots ++ (first :: more) ++ [nul], back, ?_, ?_⟩
    · exact stored.trans (by simp)
    · simp only [List.length_append, List.length_singleton]

end
end NetPrograms
