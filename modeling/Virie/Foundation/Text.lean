import Mathlib.Data.List.DropRight

/-! # Words in texts

Trimming a text at both ends, collapsing runs of a separator, and the words between separators.
A text made of words without separators, each followed by one, gives back its words. -/

namespace Foundation

variable {α : Type}

/-- The text without what satisfies a predicate at its ends. -/
def trimBoth (p : α → Bool) (text : List α) : List α := (text.dropWhile p).rdropWhile p

/-- Of every run of separators, one. -/
def collapse [DecidableEq α] (separator : α) : List α → List α
  | [] => []
  | [a] => [a]
  | a :: b :: rest =>
    if a = b ∧ a = separator then collapse separator (b :: rest)
    else a :: collapse separator (b :: rest)

/-- Words, each followed by a separator. -/
def terminated (separator : α) (words : List (List α)) : List α :=
  words.flatMap fun word => word ++ [separator]

section Trim

variable {p : α → Bool} {text : List α}

theorem trimBoth_eq (first : ∀ nonempty : text ≠ [], p (text.head nonempty) = false)
    (last : ∀ nonempty : text ≠ [], p (text.getLast nonempty) = false) :
    trimBoth p text = text := by
  have front : text.dropWhile p = text := by
    rw [List.dropWhile_eq_self_iff]
    intro inside satisfied
    have apart := first (List.ne_nil_of_length_pos inside)
    rw [List.head_eq_getElem, satisfied] at apart
    cases apart
  rw [trimBoth, front, List.rdropWhile_eq_self_iff]
  intro nonempty satisfied
  rw [last nonempty] at satisfied
  cases satisfied

theorem trimBoth_concat {c : α} (satisfied : p c = true) (nonempty : text ≠ [])
    (first : p (text.head nonempty) = false) (last : p (text.getLast nonempty) = false) :
    trimBoth p (text ++ [c]) = text := by
  have front : (text ++ [c]).dropWhile p = text ++ [c] := by
    rw [List.dropWhile_eq_self_iff]
    intro inside holds
    rw [List.getElem_append_left (List.length_pos_of_ne_nil nonempty),
      ← List.head_eq_getElem nonempty, first] at holds
    cases holds
  rw [trimBoth, front, List.rdropWhile_concat_pos p text c satisfied, List.rdropWhile_eq_self_iff]
  intro _ holds
  rw [last] at holds
  cases holds

end Trim

section Words

variable {separator : α} {words : List (List α)}

theorem terminated_cons (separator : α) (word : List α) (words : List (List α)) :
    terminated separator (word :: words) =
      word ++ separator :: terminated separator words := by
  unfold terminated
  rw [List.flatMap_cons, List.append_assoc]
  rfl

theorem length_le_terminated (separator : α) (words : List (List α)) :
    words.length ≤ (terminated separator words).length := by
  induction words with
  | nil => exact Nat.le_refl 0
  | cons word words ih =>
    rw [terminated_cons, List.length_append, List.length_cons, List.length_cons]
    omega

theorem terminated_eq_intercalate (separator : α) (word : List α) (words : List (List α)) :
    terminated separator (word :: words) =
      [separator].intercalate (word :: words) ++ [separator] := by
  induction words generalizing word with
  | nil =>
    rw [terminated_cons, List.intercalate_singleton]
    rfl
  | cons next words ih =>
    rw [terminated_cons, ih, List.intercalate_cons_cons, List.append_assoc, List.append_assoc]
    rfl

/-- Separated words begin with the first of them. -/
theorem intercalate_front (separator : α) (word : List α) (words : List (List α)) :
    ∃ rest, [separator].intercalate (word :: words) = word ++ rest := by
  cases words with
  | nil => exact ⟨[], by rw [List.intercalate_singleton, List.append_nil]⟩
  | cons next words =>
    refine ⟨[separator] ++ [separator].intercalate (next :: words), ?_⟩
    rw [List.intercalate_cons_cons, List.append_assoc]

/-- Separated words end with one of them. -/
theorem intercalate_back (separator : α) (word : List α) (words : List (List α)) :
    ∃ front last, last ∈ word :: words ∧
      [separator].intercalate (word :: words) = front ++ last := by
  induction words generalizing word with
  | nil => exact ⟨[], word, List.mem_cons_self, by rw [List.intercalate_singleton]; rfl⟩
  | cons next words ih =>
    obtain ⟨front, last, listed, split⟩ := ih next
    refine ⟨word ++ [separator] ++ front, last, List.mem_cons_of_mem word listed, ?_⟩
    rw [List.intercalate_cons_cons, split, List.append_assoc _ front last]

theorem intercalate_ne_nil {word : List α} (some : word ≠ []) (separator : α)
    (words : List (List α)) : [separator].intercalate (word :: words) ≠ [] := by
  obtain ⟨rest, split⟩ := intercalate_front separator word words
  rw [split]
  exact List.append_ne_nil_of_left_ne_nil some rest

/-- Words of visible characters, each followed by a separator, are trimmed to the words with
separators between them. -/
theorem trimBoth_terminated {p : α → Bool} (blank : p separator = true) {word : List α}
    (some : ∀ other ∈ word :: words, other ≠ [])
    (visible : ∀ other ∈ word :: words, ∀ c ∈ other, p c = false) :
    trimBoth p (terminated separator (word :: words)) =
      [separator].intercalate (word :: words) := by
  have first := some word List.mem_cons_self
  rw [terminated_eq_intercalate]
  apply trimBoth_concat blank (intercalate_ne_nil first separator words)
  · obtain ⟨rest, split⟩ := intercalate_front separator word words
    simp only [split]
    rw [List.head_append_of_ne_nil first]
    exact visible word List.mem_cons_self _ (List.head_mem first)
  · obtain ⟨front, last, listed, split⟩ := intercalate_back separator word words
    simp only [split]
    rw [List.getLast_append_of_ne_nil _ (some last listed)]
    exact visible last listed _ (List.getLast_mem (some last listed))

/-- Terminated words and a last word without its separator are split into all of them. -/
theorem splitOnP_terminated_append {p : α → Bool} (blank : p separator = true)
    (visible : ∀ word ∈ words, ∀ c ∈ word, p c = false) {tail : List α}
    (visibleTail : ∀ c ∈ tail, p c = false) :
    (terminated separator words ++ tail).splitOnP p = words ++ [tail] := by
  induction words with
  | nil => exact List.splitOnP_eq_singleton visibleTail
  | cons word words ih =>
    rw [terminated_cons, List.append_assoc, List.cons_append,
      List.splitOnP_append_cons_of_forall_mem (visible word List.mem_cons_self) separator blank,
      ih fun other listed => visible other (List.mem_cons_of_mem word listed)]
    rfl

variable [DecidableEq α]

theorem collapse_cons_of_ne {a : α} (apart : a ≠ separator) (rest : List α) :
    collapse separator (a :: rest) = a :: collapse separator rest := by
  cases rest with
  | nil => rfl
  | cons b rest => rw [collapse, if_neg fun run => apart run.2]

theorem collapse_append {word : List α} (free : separator ∉ word) (rest : List α) :
    collapse separator (word ++ rest) = word ++ collapse separator rest := by
  induction word with
  | nil => rfl
  | cons a word ih =>
    have apart : a ≠ separator := fun same => free (same ▸ List.mem_cons_self)
    rw [List.cons_append, collapse_cons_of_ne apart,
      ih fun listed => free (List.mem_cons_of_mem a listed), List.cons_append]

/-- Single separators between nonempty words stay. -/
theorem collapse_intercalate (some : ∀ word ∈ words, word ≠ [])
    (free : ∀ word ∈ words, separator ∉ word) :
    collapse separator ([separator].intercalate words) = [separator].intercalate words := by
  induction words with
  | nil => rfl
  | cons word words ih =>
    have settled := ih (fun other listed => some other (List.mem_cons_of_mem word listed))
      fun other listed => free other (List.mem_cons_of_mem word listed)
    cases words with
    | nil =>
      rw [List.intercalate_singleton]
      have plain := collapse_append (free word List.mem_cons_self) []
      rw [List.append_nil] at plain
      rw [plain]
      exact List.append_nil word
    | cons next words =>
      rw [List.intercalate_cons_cons, List.append_assoc,
        collapse_append (free word List.mem_cons_self)]
      have listed : next ∈ word :: next :: words := List.mem_cons_of_mem word List.mem_cons_self
      obtain ⟨rest, split⟩ := intercalate_front separator next words
      obtain ⟨c, tail, rfl⟩ := List.exists_cons_of_ne_nil (some next listed)
      have apart : separator ≠ c := fun same => free _ listed (same ▸ List.mem_cons_self)
      rw [split] at settled ⊢
      change word ++ collapse separator (separator :: c :: (tail ++ rest)) = _
      rw [collapse, if_neg fun run => apart run.1]
      exact congrArg (fun text => word ++ separator :: text) settled

end Words
end Foundation
