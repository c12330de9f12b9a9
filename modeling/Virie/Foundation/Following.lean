import Mathlib

/-! # Following a chain that may split

A follower processes the blocks of a chain one after the other. When a delivered block
differs from the known one at its height, it cuts its state back to that height and goes
on with the delivered block. If cutting back a replayed state gives the state replayed to
that height, and if processing respects a likeness of states, then a follower is always
like a fresh one that replayed only the blocks it has now. -/

namespace Foundation

/-- How a follower names blocks, where it starts, how it processes a block at a height and how
it is cut back to one. -/
structure Follower (β ι σ : Type) where
  id : β → ι
  start : σ
  push : Nat → β → σ → σ → Prop
  cut : Nat → σ → σ → Prop

namespace Follower

variable {β ι σ : Type} {F : Follower β ι σ} {chain other : List β} {s s' t u : σ} {i n first : Nat}
  {b old : β}

/-- The state after processing a chain from its first block. -/
inductive Replayed (F : Follower β ι σ) : List β → σ → Prop
  | nil : Replayed F [] F.start
  | snoc {chain : List β} {b : β} {s s' : σ} (before : Replayed F chain s)
      (pushed : F.push chain.length b s s') : Replayed F (chain ++ [b]) s'

/-- A replayed chain was replayed to each of its heights on the way. -/
theorem Replayed.take (replayed : Replayed F chain t) (n : Nat) :
    ∃ u, Replayed F (chain.take n) u := by
  induction replayed with
  | nil => exact ⟨F.start, by rw [List.take_nil]; exact .nil⟩
  | @snoc chain b s s' before pushed ih =>
    by_cases inside : n ≤ chain.length
    · rw [List.take_append_of_le_length inside]
      exact ih
    · refine ⟨s', ?_⟩
      rw [List.take_of_length_le (by rw [List.length_append, List.length_singleton]; omega)]
      exact .snoc before pushed

/-- Where processing is a function, a chain is replayed to one state only. -/
theorem Replayed.unique (functional : ∀ i b s s' u, F.push i b s s' → F.push i b s u → s' = u)
    (first : Replayed F chain t) (second : Replayed F chain u) : t = u := by
  induction first generalizing u with
  | nil =>
    generalize none : ([] : List β) = other at second
    cases second with
    | nil => rfl
    | snoc before pushed => exact absurd none (List.append_ne_nil_of_right_ne_nil _ (by simp)).symm
  | @snoc chain b s s' before pushed ih =>
    generalize whole : chain ++ [b] = other at second
    cases second with
    | nil => exact absurd whole (List.append_ne_nil_of_right_ne_nil _ (by simp))
    | snoc beforeToo pushedToo =>
      obtain ⟨rfl, last⟩ := List.append_inj' whole rfl
      obtain rfl := List.singleton_inj.mp last
      obtain rfl := ih beforeToo
      exact functional _ _ _ _ _ pushed pushedToo

/-- Blocks of two chains with one name at one height have the same blocks below them. -/
def IdsCommit (F : Follower β ι σ) (chain other : List β) : Prop :=
  ∀ i b b', chain[i]? = some b → other[i]? = some b' → F.id b = F.id b' →
    chain.take (i + 1) = other.take (i + 1)

theorem IdsCommit.prefix (commits : IdsCommit F chain other) {front : List β}
    (below : front <+: chain) : IdsCommit F front other := by
  intro i b b' found foundOther same
  obtain ⟨inside, _⟩ := List.getElem?_eq_some_iff.mp found
  obtain ⟨rest, rfl⟩ := below
  rw [← commits i b b' (by rw [List.getElem?_append_left inside, found]) foundOther same,
    List.take_append_of_le_length inside]

theorem idsCommit_below (below : chain <+: other) : IdsCommit F chain other := by
  obtain ⟨rest, rfl⟩ := below
  intro i b b' found _ _
  obtain ⟨inside, _⟩ := List.getElem?_eq_some_iff.mp found
  rw [List.take_append_of_le_length inside]

section Delivery

variable [DecidableEq ι]

/-- The chain after a block was delivered at a height. -/
def splice (F : Follower β ι σ) (chain : List β) (i : Nat) (b : β) : List β :=
  match chain[i]? with
  | none => chain ++ [b]
  | some old => if F.id b = F.id old then chain else chain.take i ++ [b]

/-- The chain after blocks were delivered from a height on. -/
def spliceAll (F : Follower β ι σ) : List β → Nat → List β → List β
  | chain, _, [] => chain
  | chain, i, b :: rest => spliceAll F (F.splice chain i b) (i + 1) rest

/-- A block delivered at a height: it extends the chain, or is known, or splits it above the
first delivered height. Processing it needs a condition. -/
inductive Handles (F : Follower β ι σ) (meets : List β → β → σ → Prop) (first : Nat) :
    List β → Nat → β → σ → σ → Prop
  | extend {chain : List β} {b : β} {s s' : σ} (met : meets chain b s)
      (pushed : F.push chain.length b s s') :
      Handles F meets first chain chain.length b s s'
  | known {chain : List β} {i : Nat} {b old : β} {s : σ} (found : chain[i]? = some old)
      (same : F.id b = F.id old) :
      Handles F meets first chain i b s s
  | split {chain : List β} {i : Nat} {b old : β} {s u s' : σ} (found : chain[i]? = some old) 
      (apart : F.id b ≠ F.id old) (later : i ≠ first) (trimmed : F.cut i s u)
      (met : meets (chain.take i) b u) (pushed : F.push i b u s') :
      Handles F meets first chain i b s s'

/-- Blocks delivered and handled one after the other from a height on. -/
inductive Delivers (F : Follower β ι σ) (handle : List β → Nat → β → σ → σ → Prop) :
    List β → Nat → List β → σ → σ → Prop
  | nil {chain : List β} {i : Nat} {s : σ} : Delivers F handle chain i [] s s
  | cons {chain rest : List β} {i : Nat} {b : β} {s u s' : σ} (one : handle chain i b s u)
      (others : Delivers F handle (F.splice chain i b) (i + 1) rest u s') :
      Delivers F handle chain i (b :: rest) s s'

/-- A block of another chain, delivered where both chains agree below it, makes them agree up
to it. -/
theorem splice_eq (commits : IdsCommit F chain other) (agree : chain.take i = other.take i)
    (found : other[i]? = some b) :
    F.splice chain i b = chain ∧ chain.take (i + 1) = other.take (i + 1) ∨
      F.splice chain i b = other.take (i + 1) := by
  have next : other.take (i + 1) = other.take i ++ [b] := by
    rw [List.take_add_one, found]
    rfl
  unfold splice
  cases atHeight : chain[i]? with
  | none =>
    right
    have ends : chain.length ≤ i := List.getElem?_eq_none_iff.mp atHeight
    dsimp only
    rw [next, ← agree, List.take_of_length_le ends]
  | some old =>
    dsimp only
    split
    · next same => exact .inl ⟨rfl, commits i old b atHeight found same.symm⟩
    · right
      rw [next, agree]

/-- Delivering a stretch of another chain leaves the chain as it is or makes it a part of the
other one. -/
theorem spliceAll_eq (commits : IdsCommit F chain other) (agree : chain.take i = other.take i)
    (inside : i ≤ chain.length) (n : Nat) :
    F.spliceAll chain i ((other.drop i).take n) = chain ∧
        chain.take (i + ((other.drop i).take n).length) =
          other.take (i + ((other.drop i).take n).length) ∨
      F.spliceAll chain i ((other.drop i).take n) =
        other.take (i + ((other.drop i).take n).length) := by
  induction n generalizing chain i with
  | zero =>
    left
    rw [List.take_zero, List.length_nil, Nat.add_zero]
    exact ⟨rfl, agree⟩
  | succ n ih =>
    cases found : other[i]? with
    | none =>
      left
      rw [List.drop_of_length_le (List.getElem?_eq_none_iff.mp found), List.take_nil,
        List.length_nil, Nat.add_zero]
      exact ⟨rfl, agree⟩
    | some b =>
      obtain ⟨short, rfl⟩ := List.getElem?_eq_some_iff.mp found
      rw [List.drop_eq_getElem_cons short, List.take_succ_cons, spliceAll, List.length_cons,
        show i + (((other.drop (i + 1)).take n).length + 1) =
          i + 1 + ((other.drop (i + 1)).take n).length by omega]
      rcases splice_eq commits agree found with ⟨kept, agreeNext⟩ | taken
      · rw [kept]
        refine ih commits agreeNext ?_
        have lengths := congrArg List.length agreeNext
        rw [List.length_take, List.length_take] at lengths
        omega
      · rw [taken]
        have below : other.take (i + 1) <+: other := List.take_prefix _ _
        right
        rcases ih (idsCommit_below (F := F) below) (by rw [List.take_take, Nat.min_self])
          (by rw [List.length_take]; omega) with ⟨kept, further⟩ | further
        · refine kept.trans (Eq.trans (List.take_of_length_le ?_).symm further)
          rw [List.length_take]
          omega
        · exact further

/-- A likeness of states under which replayed chains can be followed. -/
structure Respects (F : Follower β ι σ) (meets : List β → β → σ → Prop) (valid : List β → Prop)
    (same : σ → σ → Prop) : Prop where
  start : same F.start F.start
  push : ∀ {chain b s s' t}, valid (chain ++ [b]) → Replayed F chain t → same s t →
    meets chain b s → F.push chain.length b s s' → ∃ t', F.push chain.length b t t' ∧ same s' t'
  cut : ∀ {chain h s s' t u}, valid chain → Replayed F chain t → same s t → 0 < h →
    h ≤ chain.length → F.cut h s s' → Replayed F (chain.take h) u → same s' u

variable {meets : List β → β → σ → Prop} {valid : List β → Prop} {same : σ → σ → Prop}
  {handle : List β → Nat → β → σ → σ → Prop}

theorem Handles.like (respects : Respects F meets valid same)
    (handled : Handles F meets first chain i b s s') (above : first ≤ i) (now : valid chain)
    (next : valid (F.splice chain i b)) (like : ∃ t, Replayed F chain t ∧ same s t) :
    ∃ t, Replayed F (F.splice chain i b) t ∧ same s' t := by
  obtain ⟨t, replayed, alike⟩ := like
  cases handled with
  | extend met pushed =>
    have spliced : F.splice chain chain.length b = chain ++ [b] := by
      rw [splice, List.getElem?_eq_none (Nat.le_refl _)]
    rw [spliced] at next ⊢
    obtain ⟨t', pushedToo, alikeToo⟩ := respects.push next replayed alike met pushed
    exact ⟨t', .snoc replayed pushedToo, alikeToo⟩
  | known found same =>
    have spliced : F.splice chain i b = chain := by
      rw [splice, found]
      exact if_pos same
    rw [spliced]
    exact ⟨t, replayed, alike⟩
  | split found apart later trimmed met pushed =>
    have spliced : F.splice chain i b = chain.take i ++ [b] := by
      rw [splice, found]
      exact if_neg apart
    rw [spliced] at next ⊢
    have inside : i < chain.length := (List.getElem?_eq_some_iff.mp found).1
    have length : (chain.take i).length = i := by
      rw [List.length_take]
      omega
    obtain ⟨u, replayedTo⟩ := replayed.take i
    have trimmedAlike := respects.cut now replayed alike (by omega) (Nat.le_of_lt inside) trimmed
      replayedTo
    obtain ⟨t', pushedToo, alikeToo⟩ := respects.push next replayedTo trimmedAlike met
      (by rw [length]; exact pushed)
    exact ⟨t', .snoc replayedTo pushedToo, alikeToo⟩

/-- Blocks of a valid chain delivered one after the other leave the follower like a fresh one. -/
theorem Delivers.like (respects : Respects F meets valid same)
    (handles : ∀ {chain i b s s'}, valid chain → i ≤ chain.length →
      (∃ t, Replayed F chain t ∧ same s t) → handle chain i b s s' →
        Handles F meets first chain i b s s')
    (closed : ∀ chain n, valid chain → valid (chain.take n)) (validOther : valid other)
    (commits : IdsCommit F chain other) (agree : chain.take i = other.take i)
    (inside : i ≤ chain.length) (above : first ≤ i) (now : valid chain)
    (delivered : Delivers F handle chain i ((other.drop i).take n) s s')
    (like : ∃ t, Replayed F chain t ∧ same s t) :
    valid (F.spliceAll chain i ((other.drop i).take n)) ∧
      ∃ t, Replayed F (F.spliceAll chain i ((other.drop i).take n)) t ∧ same s' t := by
  induction n generalizing chain i s with
  | zero =>
    cases delivered with
    | nil => exact ⟨now, like⟩
  | succ n ih =>
    cases found : other[i]? with
    | none =>
      rw [List.drop_of_length_le (List.getElem?_eq_none_iff.mp found), List.take_nil] at delivered ⊢
      cases delivered with
      | nil => exact ⟨now, like⟩
    | some b =>
      obtain ⟨short, rfl⟩ := List.getElem?_eq_some_iff.mp found
      rw [List.drop_eq_getElem_cons short, List.take_succ_cons] at delivered ⊢
      rw [spliceAll]
      cases delivered with
      | cons one others =>
        have spliced := splice_eq commits agree found
        have next : valid (F.splice chain i other[i]) := by
          rcases spliced with ⟨kept, _⟩ | taken
          · rw [kept]
            exact now
          · rw [taken]
            exact closed other (i + 1) validOther
        have likeNext := (handles now inside like one).like respects above now next like
        have lengthNext : (other.take (i + 1)).length = i + 1 := by
          rw [List.length_take]
          omega
        rcases spliced with ⟨kept, agreeNext⟩ | taken
        · rw [kept] at others likeNext ⊢
          refine ih commits agreeNext ?_ (by omega) now others likeNext
          have lengths := congrArg List.length agreeNext
          rw [lengthNext, List.length_take] at lengths
          omega
        · rw [taken] at others likeNext next ⊢
          exact ih (idsCommit_below (List.take_prefix _ _))
            (by rw [List.take_take, Nat.min_self]) (by rw [lengthNext]) (by omega) next others
            likeNext

end Delivery

end Follower
end Foundation
