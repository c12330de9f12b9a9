import Mathlib.Data.List.Nodup

/-! # Tickets

Tickets are drawn in the order of their numbers, and each holder gives back the ticket drawn last
among those it still holds. Every ticket that was drawn is either held once or was given back
once. -/

namespace Foundation

/-- How many tickets were drawn, what each holder holds, the newest first, and what was given
back. -/
structure Tickets (T : Type) where
  drawn : Nat
  held : T → List Nat
  returned : List Nat

namespace Tickets

variable {T : Type} {tickets : Tickets T} {t : T} {number : Nat} {rest : List Nat}

/-- A ticket is held once or was given back once. -/
structure Accounted (tickets : Tickets T) : Prop where
  heldOnce : ∀ t, (tickets.held t).Nodup
  apart : ∀ t u number, number ∈ tickets.held t → number ∈ tickets.held u → t = u
  heldDrawn : ∀ t, ∀ number ∈ tickets.held t, number < tickets.drawn
  returnedOnce : tickets.returned.Nodup
  returnedIff : ∀ number, number ∈ tickets.returned ↔
    number < tickets.drawn ∧ ∀ t, number ∉ tickets.held t

theorem accounted_start : Accounted (⟨0, fun _ => [], []⟩ : Tickets T) where
  heldOnce _ := List.nodup_nil
  apart _ _ _ held := absurd held List.not_mem_nil
  heldDrawn _ _ held := absurd held List.not_mem_nil
  returnedOnce := List.nodup_nil
  returnedIff number := by simp

variable [DecidableEq T]

/-- Draw the next ticket. -/
def draw (t : T) (tickets : Tickets T) : Tickets T where
  drawn := tickets.drawn + 1
  held := Function.update tickets.held t (tickets.drawn :: tickets.held t)
  returned := tickets.returned

/-- Give back the ticket that was drawn last. -/
def giveBack (t : T) (number : Nat) (rest : List Nat) (tickets : Tickets T) : Tickets T where
  drawn := tickets.drawn
  held := Function.update tickets.held t rest
  returned := number :: tickets.returned

@[simp] theorem giveBack_held_self (t : T) (number : Nat) (rest : List Nat)
    (tickets : Tickets T) : (tickets.giveBack t number rest).held t = rest :=
  Function.update_self ..

theorem giveBack_held_of_ne {u : T} (other : u ≠ t) :
    (tickets.giveBack t number rest).held u = tickets.held u :=
  Function.update_of_ne other ..

theorem mem_draw {u : T} :
    number ∈ (tickets.draw t).held u ↔
      (u = t ∧ number = tickets.drawn) ∨ number ∈ tickets.held u := by
  by_cases same : u = t
  · subst same
    simp [draw]
  · simp [draw, same]

theorem Accounted.draw (accounted : tickets.Accounted) : (tickets.draw t).Accounted where
  heldOnce u := by
    by_cases same : u = t
    · subst same
      have unheld : tickets.drawn ∉ tickets.held u := fun held =>
        absurd (accounted.heldDrawn u _ held) (Nat.lt_irrefl _)
      simpa [Tickets.draw] using ⟨unheld, accounted.heldOnce u⟩
    · simpa [Tickets.draw, same] using accounted.heldOnce u
  apart u v number first second := by
    have notNew : ∀ w, number ∈ tickets.held w → number ≠ tickets.drawn := fun w held =>
      Nat.ne_of_lt (accounted.heldDrawn w number held)
    rw [mem_draw] at first second
    rcases first with ⟨atT, new⟩ | first
    · rcases second with ⟨atT', -⟩ | second
      · exact atT.trans atT'.symm
      · exact absurd new (notNew v second)
    · rcases second with ⟨-, new⟩ | second
      · exact absurd new (notNew u first)
      · exact accounted.apart u v number first second
  heldDrawn u number held := by
    rw [mem_draw] at held
    rcases held with ⟨-, new⟩ | held
    · exact new ▸ Nat.lt_succ_self _
    · exact Nat.lt_succ_of_lt (accounted.heldDrawn u number held)
  returnedOnce := accounted.returnedOnce
  returnedIff number := by
    change number ∈ tickets.returned ↔ number < tickets.drawn + 1 ∧ _
    rw [accounted.returnedIff]
    constructor
    · rintro ⟨below, unheld⟩
      refine ⟨Nat.lt_succ_of_lt below, fun u held => ?_⟩
      rcases mem_draw.1 held with ⟨-, new⟩ | held
      · exact absurd new (Nat.ne_of_lt below)
      · exact unheld u held
    · rintro ⟨below, unheld⟩
      have notNew : number ≠ tickets.drawn := fun new =>
        unheld t (mem_draw.2 (.inl ⟨rfl, new⟩))
      exact ⟨by omega, fun u held => unheld u (mem_draw.2 (.inr held))⟩

theorem Accounted.giveBack (accounted : tickets.Accounted)
    (held : tickets.held t = number :: rest) : (tickets.giveBack t number rest).Accounted := by
  have once := accounted.heldOnce t
  rw [held, List.nodup_cons] at once
  have atTop : number ∈ tickets.held t := held ▸ List.mem_cons_self
  have before : ∀ u other, other ∈ (tickets.giveBack t number rest).held u →
      other ∈ tickets.held u := by
    intro u other member
    by_cases same : u = t
    · subst same
      rw [giveBack_held_self] at member
      exact held ▸ List.mem_cons_of_mem number member
    · rwa [giveBack_held_of_ne same] at member
  have keeps : ∀ u other, other ∈ tickets.held u → other ≠ number →
      other ∈ (tickets.giveBack t number rest).held u := by
    intro u other member apart
    by_cases same : u = t
    · subst same
      rw [held] at member
      rw [giveBack_held_self]
      exact (List.mem_cons.1 member).resolve_left apart
    · rwa [giveBack_held_of_ne same]
  have gone : ∀ u, number ∉ (tickets.giveBack t number rest).held u := by
    intro u member
    have same : u = t := accounted.apart u t number (before u number member) atTop
    subst same
    rw [giveBack_held_self] at member
    exact once.1 member
  refine {
    heldOnce := fun u => ?_
    apart := fun u v other first second =>
      accounted.apart u v other (before u other first) (before v other second)
    heldDrawn := fun u other member => accounted.heldDrawn u other (before u other member)
    returnedOnce := List.nodup_cons.2
      ⟨fun returned => ((accounted.returnedIff number).1 returned).2 t atTop,
        accounted.returnedOnce⟩
    returnedIff := fun other => ?_ }
  · by_cases same : u = t
    · subst same
      rw [giveBack_held_self]
      exact once.2
    · rw [giveBack_held_of_ne same]
      exact accounted.heldOnce u
  · change other ∈ number :: tickets.returned ↔ other < tickets.drawn ∧ _
    rw [List.mem_cons, accounted.returnedIff]
    constructor
    · rintro (same | ⟨below, unheld⟩)
      · subst same
        exact ⟨accounted.heldDrawn t other atTop, gone⟩
      · exact ⟨below, fun u member => unheld u (before u other member)⟩
    · rintro ⟨below, unheld⟩
      by_cases same : other = number
      · exact .inl same
      · exact .inr ⟨below, fun u member => unheld u (keeps u other member same)⟩

end Tickets
end Foundation
