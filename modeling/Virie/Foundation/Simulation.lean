import Virie.Foundation.Procedure

/-! # One run after another

A run of a procedure from one state may tell that another run, from another state, returns
as well, and how the values and the states at the end are related. The rules follow the
structure of procedures. -/

namespace Foundation
namespace Procedure

variable {σ τ α β γ δ : Type}

/-- Whenever the first procedure returns from `s`, the second one returns from `t`, with results
and final states in a relation. -/
def Mimics (body : Procedure σ α) (other : Procedure τ β) (s : σ) (t : τ)
    (Q : α → β → σ → τ → Prop) : Prop :=
  ∀ value s', body s = .ok value s' → ∃ answer t', other t = .ok answer t' ∧ Q value answer s' t'

variable {s : σ} {t : τ} {Q : α → β → σ → τ → Prop} {Q' : γ → δ → σ → τ → Prop}

theorem mimics_pure {value : α} {answer : β} (related : Q value answer s t) :
    Mimics (pure value) (pure answer) s t Q := by
  intro result s' ran
  obtain ⟨rfl, rfl⟩ := pure_ok.mp ran
  exact ⟨answer, t, rfl, related⟩

theorem mimics_modify {f : σ → σ} {g : τ → τ} {Q : PUnit → PUnit → σ → τ → Prop}
    (related : Q ⟨⟩ ⟨⟩ (f s) (g t)) : Mimics (modify f) (modify g) s t Q := by
  intro result s' ran
  obtain rfl := modify_ok.mp ran
  exact ⟨⟨⟩, g t, rfl, related⟩

theorem mimics_set {after : σ} {other : τ} {Q : PUnit → PUnit → σ → τ → Prop}
    (related : Q ⟨⟩ ⟨⟩ after other) : Mimics (set after) (set other) s t Q := by
  intro result s' ran
  obtain rfl := set_ok.mp ran
  exact ⟨⟨⟩, other, rfl, related⟩

theorem mimics_bind {body : Procedure σ α} {other : Procedure τ β} {next : α → Procedure σ γ}
    {otherNext : β → Procedure τ δ} (first : Mimics body other s t Q)
    (rest : ∀ value answer s' t', Q value answer s' t' →
      Mimics (next value) (otherNext answer) s' t' Q') :
    Mimics (body >>= next) (other >>= otherNext) s t Q' := by
  intro result s' ran
  obtain ⟨value, middle, ranFirst, ranNext⟩ := bind_ok.mp ran
  obtain ⟨answer, t', otherFirst, related⟩ := first value middle ranFirst
  obtain ⟨final, t'', otherRan, relatedToo⟩ := rest value answer middle t' related result s' ranNext
  exact ⟨final, t'', by rw [bind_of_ok otherFirst, otherRan], relatedToo⟩

theorem mimics_get_bind {next : σ → Procedure σ γ} {otherNext : τ → Procedure τ δ}
    (rest : Mimics (next s) (otherNext t) s t Q') :
    Mimics (get >>= next) (get >>= otherNext) s t Q' := rest

/-- The run that is followed may be remembered. -/
theorem Mimics.and_ran {body : Procedure σ α} {other : Procedure τ β}
    (first : Mimics body other s t Q) :
    Mimics body other s t fun value answer s' t' =>
      Q value answer s' t' ∧ body s = .ok value s' := by
  intro value s' ran
  obtain ⟨answer, t', otherRan, related⟩ := first value s' ran
  exact ⟨answer, t', otherRan, related, ran⟩

/-- What both procedures keep may be added to the relation. -/
theorem Mimics.and_preserves {body : Procedure σ α} {other : Procedure τ β} {I : σ → Prop}
    {J : τ → Prop} (first : Mimics body other s t Q) (keeps : Preserves I body) (holds : I s)
    (keepsOther : Preserves J other) (holdsOther : J t) :
    Mimics body other s t fun value answer s' t' => Q value answer s' t' ∧ I s' ∧ J t' := by
  intro value s' ran
  obtain ⟨answer, t', otherRan, related⟩ := first value s' ran
  exact ⟨answer, t', otherRan, related, keeps.of_ok ran holds, keepsOther.of_ok otherRan holdsOther⟩

/-! ## Values and runs -/

/-- Every value the procedure returns satisfies a condition. -/
def Returns (P : α → Prop) (body : Procedure σ α) : Prop :=
  ∀ before value after, body before = .ok value after → P value

variable {P : α → Prop} {P' : γ → Prop}

theorem Mimics.and_returns {body : Procedure σ α} {other : Procedure τ β} {R : β → Prop}
    (first : Mimics body other s t Q) (returns : Returns P body) (returnsOther : Returns R other) :
    Mimics body other s t fun value answer s' t' => Q value answer s' t' ∧ P value ∧ R answer := by
  intro value s' ran
  obtain ⟨answer, t', otherRan, related⟩ := first value s' ran
  exact ⟨answer, t', otherRan, related, returns _ _ _ ran, returnsOther _ _ _ otherRan⟩

theorem returns_pure {value : α} (holds : P value) : Returns P (pure value : Procedure σ α) := by
  intro before result after ran
  obtain ⟨rfl, _⟩ := pure_ok.mp ran
  exact holds

theorem returns_bind {body : Procedure σ α} {next : α → Procedure σ γ}
    (rest : ∀ value, Returns P' (next value)) : Returns P' (body >>= next) := by
  intro before result after ran
  obtain ⟨value, middle, _, ranNext⟩ := bind_ok.mp ran
  exact rest value middle result after ranNext

theorem returns_ite {condition : Prop} [Decidable condition] {yes no : Procedure σ α}
    (whenTrue : Returns P yes) (whenFalse : Returns P no) :
    Returns P (if condition then yes else no) := by
  split
  · exact whenTrue
  · exact whenFalse

/-- The procedure returns from every state. -/
def Total (body : Procedure σ α) : Prop := ∀ before, ∃ value after, body before = .ok value after

theorem total_pure (value : α) : Total (pure value : Procedure σ α) :=
  fun before => ⟨value, before, rfl⟩

theorem total_set_bind {after : σ} {next : PUnit → Procedure σ γ} (rest : Total (next ⟨⟩)) :
    Total ((set after : Procedure σ PUnit) >>= next) := fun _ => rest after

theorem total_get_bind {next : σ → Procedure σ γ} (rest : ∀ state, Total (next state)) :
    Total (get >>= next) := fun before => rest before before

theorem total_ite {condition : Prop} [Decidable condition] {yes no : Procedure σ α}
    (whenTrue : Total yes) (whenFalse : Total no) : Total (if condition then yes else no) := by
  split
  · exact whenTrue
  · exact whenFalse

/-- A procedure that always returns follows any other. -/
theorem Total.mimics {body : Procedure σ α} {other : Procedure τ β} (total : Total other) :
    Mimics body other s t fun _ _ _ _ => True := by
  intro value s' _
  obtain ⟨answer, t', ran⟩ := total t
  exact ⟨answer, t', ran, trivial⟩

end Procedure
end Foundation
