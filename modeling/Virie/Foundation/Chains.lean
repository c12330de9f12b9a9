import Mathlib

/-! # Chains of links

Every member may have one successor. When no two members share a successor and every walk along
the links comes to an end, the members fall into disjoint chains, each with one last member. A
new member may be put behind the last one of a chain, and members may be dropped chain by
chain. -/

namespace Foundation

variable {K : Type} {next other : K → Option K} {present kept : K → Prop} {k l m : K}

/-- The last member of the chain of a member, found link by link. -/
inductive Ends (next : K → Option K) : K → K → Prop
  | last {k : K} (done : next k = none) : Ends next k k
  | step {k m l : K} (link : next k = some m) (rest : Ends next m l) : Ends next k l

namespace Ends

theorem done (ends : Ends next k l) : next l = none := by
  induction ends with
  | last done => exact done
  | step link rest ih => exact ih

/-- A member with a successor has the last member of its successor. -/
theorem of_link (ends : Ends next k l) (link : next k = some m) : Ends next m l := by
  cases ends with
  | last done =>
    rw [done] at link
    cases link
  | step first rest =>
    rw [first] at link
    cases link
    exact rest

theorem eq_of_done (ends : Ends next k l) (done : next k = none) : l = k := by
  cases ends with
  | last _ => rfl
  | step link rest =>
    rw [done] at link
    cases link

theorem unique (ends : Ends next k l) (also : Ends next k m) : l = m := by
  induction ends with
  | last done => exact (also.eq_of_done done).symm
  | step link rest ih => exact ih (also.of_link link)

/-- A walk only sees the links of the members that it meets. -/
theorem congr (ends : Ends next k l) (first : kept k)
    (closed : ∀ k l, kept k → next k = some l → kept l)
    (same : ∀ k, kept k → other k = next k) : Ends other k l := by
  induction ends with
  | last done => exact .last ((same _ first).trans done)
  | step link rest ih => exact .step ((same _ first).trans link) (ih (closed _ _ first link))

end Ends

/-- The members fall into disjoint chains. -/
structure Chained (present : K → Prop) (next : K → Option K) : Prop where
  /-- Links lead from members to members. -/
  linked : ∀ {k l}, next k = some l → present k ∧ present l
  /-- No two members have the same successor. -/
  disjoint : ∀ {k l m}, next k = some m → next l = some m → k = l
  /-- Every chain has a last member. -/
  ends : ∀ k, ∃ l, Ends next k l

namespace Chained

theorem next_of_absent (chained : Chained present next) (absent : ¬present k) :
    next k = none := by
  cases link : next k with
  | none => rfl
  | some l => exact absurd (chained.linked link).1 absent

/-- The last member of the chain of a member is a member. -/
theorem last_present (chained : Chained present next) (ends : Ends next k l)
    (member : present k) : present l := by
  induction ends with
  | last done => exact member
  | step link rest ih => exact ih (chained.linked link).2

/-- More members without links. -/
theorem mono {more : K → Prop} (chained : Chained present next)
    (grows : ∀ k, present k → more k) : Chained more next where
  linked link := (chained.linked link).imp (grows _) (grows _)
  disjoint := chained.disjoint
  ends := chained.ends

/-- A new member behind the last one of a chain. -/
theorem extend [DecidableEq K] {more : K → Prop} (chained : Chained present next)
    (member : present k) (free : next k = none) (fresh : ¬present l)
    (grows : ∀ m, present m ∨ m = l → more m) :
    Chained more (Function.update next k (some l)) where
  linked := by
    intro a b link
    rw [Function.update_apply] at link
    split at link
    · next same =>
      cases link
      exact ⟨grows a (.inl (same ▸ member)), grows l (.inr rfl)⟩
    · exact (chained.linked link).imp (fun old => grows a (.inl old)) fun old => grows b (.inl old)
  disjoint := by
    intro a b c left right
    rw [Function.update_apply] at left right
    split at left
    · next first =>
      split at right
      · next second => rw [first, second]
      · cases left
        exact absurd (chained.linked right).2 fresh
    · split at right
      · cases right
        exact absurd (chained.linked left).2 fresh
      · exact chained.disjoint left right
  ends := by
    intro a
    have apart : l ≠ k := by
      intro same
      exact fresh (same ▸ member)
    have stays : Ends (Function.update next k (some l)) l l := by
      apply Ends.last
      rw [Function.update_of_ne apart]
      exact chained.next_of_absent fresh
    obtain ⟨b, ends⟩ := chained.ends a
    induction ends with
    | @last a done =>
      by_cases same : a = k
      · exact ⟨l, .step (by rw [same, Function.update_self]) stays⟩
      · exact ⟨a, .last (by rw [Function.update_of_ne same, done])⟩
    | @step a c b link rest ih =>
      obtain ⟨last, walk⟩ := ih
      have passed : a ≠ k := by
        intro same
        rw [same, free] at link
        cases link
      exact ⟨last, .step (by rw [Function.update_of_ne passed, link]) walk⟩

/-- Whole chains may be dropped. -/
theorem restrict {fewer : K → Prop} (chained : Chained present next)
    (closed : ∀ k l, next k = some l → (kept k ↔ kept l))
    (same : ∀ k, kept k → other k = next k) (dropped : ∀ k, ¬kept k → other k = none)
    (members : ∀ k, kept k → present k → fewer k) : Chained fewer other := by
  have only : ∀ {k l}, other k = some l → kept k ∧ next k = some l := by
    intro k l link
    by_cases stays : kept k
    · exact ⟨stays, (same k stays).symm.trans link⟩
    · rw [dropped k stays] at link
      cases link
  constructor
  · intro k l link
    obtain ⟨stays, old⟩ := only link
    obtain ⟨first, second⟩ := chained.linked old
    exact ⟨members k stays first, members l ((closed k l old).mp stays) second⟩
  · intro k l m left right
    exact chained.disjoint (only left).2 (only right).2
  · intro k
    by_cases stays : kept k
    · obtain ⟨l, ends⟩ := chained.ends k
      exact ⟨l, ends.congr stays (fun k l old link => (closed k l link).mp old) same⟩
    · exact ⟨k, .last (dropped k stays)⟩

end Chained
end Foundation
