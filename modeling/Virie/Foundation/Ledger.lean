import Mathlib

/-! # Ledgers

A ledger records in turn how much is issued, spent and created. If its postings balance in the
arithmetic of machine words, and what is spent is covered by what was created so far, then they
balance exactly as long as no more is issued than a word holds. What is spent is covered when
each amount that is spent is one that was created and no amount is spent twice. -/

namespace Foundation

/-! ## Balances -/

/-- What one entry of a ledger issues, spends and creates. -/
structure Posting where
  issued : Nat
  spent : Nat
  created : Nat

namespace Posting

/-- An entry creates what it issues and what it spends. -/
def Balances (posting : Posting) : Prop := posting.created = posting.issued + posting.spent

/-- An entry creates no more than it issues and spends, and the difference is lost to a modulus. -/
structure BalancesModulo (modulus : Nat) (posting : Posting) : Prop where
  bounded : posting.created ≤ posting.issued + posting.spent
  congruent : posting.created ≡ posting.issued + posting.spent [MOD modulus]

/-- Less than a modulus cannot be lost to it. -/
theorem BalancesModulo.balances {modulus : Nat} {posting : Posting}
    (modular : posting.BalancesModulo modulus)
    (near : posting.issued + posting.spent < posting.created + modulus) : posting.Balances := by
  have lost : modulus ∣ posting.issued + posting.spent - posting.created :=
    (Nat.modEq_iff_dvd' modular.bounded).mp modular.congruent
  have bounded := modular.bounded
  have none := Nat.eq_zero_of_dvd_of_lt lost (by omega)
  unfold Balances
  omega

end Posting

namespace Ledger

def totalIssued (ledger : List Posting) : Nat := (ledger.map Posting.issued).sum

def totalSpent (ledger : List Posting) : Nat := (ledger.map Posting.spent).sum

def totalCreated (ledger : List Posting) : Nat := (ledger.map Posting.created).sum

/-- At every point no more is spent than was created. -/
def Covered (ledger : List Posting) : Prop :=
  ∀ n, totalSpent (ledger.take n) ≤ totalCreated (ledger.take n)

variable {ledger rest : List Posting} {modulus : Nat}

theorem totalIssued_append :
    totalIssued (ledger ++ rest) = totalIssued ledger + totalIssued rest := by
  rw [totalIssued, List.map_append, List.sum_append]
  rfl

theorem totalSpent_append : totalSpent (ledger ++ rest) = totalSpent ledger + totalSpent rest := by
  rw [totalSpent, List.map_append, List.sum_append]
  rfl

theorem totalCreated_append :
    totalCreated (ledger ++ rest) = totalCreated ledger + totalCreated rest := by
  rw [totalCreated, List.map_append, List.sum_append]
  rfl

/-- A ledger whose entries balance creates what it issues and what it spends. -/
theorem totalCreated_eq (balances : ∀ posting ∈ ledger, posting.Balances) :
    totalCreated ledger = totalIssued ledger + totalSpent ledger := by
  induction ledger with
  | nil => rfl
  | cons posting rest ih =>
    have first : posting.created = posting.issued + posting.spent := balances posting (.head _)
    have others := ih fun other member => balances other (.tail _ member)
    simp only [totalCreated, totalIssued, totalSpent, List.map_cons, List.sum_cons] at others ⊢
    omega

theorem Covered.of_append (covered : Covered (ledger ++ rest)) : Covered ledger := by
  intro n
  rcases Nat.le_total n ledger.length with inside | outside
  · have part := covered n
    rwa [List.take_append_of_le_length inside] at part
  · have whole := covered ledger.length
    rwa [List.take_left, ← List.take_of_length_le outside] at whole

/-- A covered ledger whose entries balance modulo a number balances exactly, as long as less than
the number is issued. -/
theorem balances_of_modulo (covered : Covered ledger) (below : totalIssued ledger < modulus)
    (modular : ∀ posting ∈ ledger, posting.BalancesModulo modulus) :
    ∀ posting ∈ ledger, posting.Balances := by
  induction ledger using List.reverseRecOn with
  | nil =>
    intro posting member
    cases member
  | append_singleton older posting ih =>
    rw [totalIssued_append] at below
    have balances := ih covered.of_append (Nat.lt_of_le_of_lt (Nat.le_add_right _ _) below)
      fun other member => modular other (List.mem_append_left _ member)
    have newest : posting.Balances := by
      refine (modular posting (List.mem_append_right _ (.head _))).balances ?_
      have total := totalCreated_eq balances
      have whole := covered (older ++ [posting]).length
      rw [List.take_length, totalSpent_append, totalCreated_append] at whole
      simp only [totalIssued, totalSpent, totalCreated, List.map_cons, List.map_nil,
        List.sum_cons, List.sum_nil, Nat.add_zero] at below total whole
      omega
    intro other member
    rcases List.mem_append.mp member with old | new
    · exact balances other old
    · rw [List.mem_singleton.mp new]
      exact newest

end Ledger

/-! ## Coverage -/

/-- Amounts that are assigned to different ones of other amounts, and equal to them, add up to no
more than these. -/
theorem sum_le_of_assignment {ι κ : Type} {spent : List (ι × Nat)} {created : List (κ × Nat)}
    {assign : ι → κ} (distinct : (spent.map Prod.fst).Nodup)
    (declared : ∀ place amount, (place, amount) ∈ spent → (assign place, amount) ∈ created)
    (once : ∀ place ∈ spent.map Prod.fst, ∀ other ∈ spent.map Prod.fst,
      assign place = assign other → place = other) :
    (spent.map Prod.snd).sum ≤ (created.map Prod.snd).sum := by
  have apart : ((spent.map Prod.fst).map assign).Nodup :=
    distinct.map_on fun place member other otherMember same =>
      once place member other otherMember same
  have places : (spent.map fun entry => (assign entry.1, entry.2)).map Prod.fst =
      (spent.map Prod.fst).map assign := by
    rw [List.map_map, List.map_map]
    rfl
  have contained : (spent.map fun entry => (assign entry.1, entry.2)).Subperm created := by
    apply List.subperm_of_subset
    · exact List.Nodup.of_map Prod.fst (places ▸ apart)
    · intro entry member
      obtain ⟨⟨place, amount⟩, inside, rfl⟩ := List.mem_map.mp member
      exact declared place amount inside
  obtain ⟨part, same, within⟩ := contained
  calc (spent.map Prod.snd).sum
      = ((spent.map fun entry => (assign entry.1, entry.2)).map Prod.snd).sum := by
        rw [List.map_map]
        rfl
    _ = (part.map Prod.snd).sum := (same.map Prod.snd).sum_eq.symm
    _ ≤ (created.map Prod.snd).sum := (within.map Prod.snd).sum_le_sum fun _ _ => Nat.zero_le _

/-! ## Numbering -/

section Numbering

variable {α β ι : Type} {parts : α → List (ι × β)} {entries : List α}

/-- The parts of the entries of a list, each placed by the number of its entry and its place
there. -/
def numbered (parts : α → List (ι × β)) (entries : List α) : List ((Nat × ι) × β) :=
  entries.zipIdx.flatMap fun entry => (parts entry.1).map fun part => ((entry.2, part.1), part.2)

theorem mem_numbered {i : Nat} {place : ι} {part : β} :
    ((i, place), part) ∈ numbered parts entries ↔
      ∃ entry, entries[i]? = some entry ∧ (place, part) ∈ parts entry := by
  simp only [numbered, List.mem_flatMap, List.mem_map, Prod.mk.injEq, Prod.exists]
  constructor
  · rintro ⟨entry, j, member, other, otherPart, inside, ⟨rfl, rfl⟩, rfl⟩
    exact ⟨entry, List.mem_zipIdx_iff_getElem?.mp member, inside⟩
  · rintro ⟨entry, found, inside⟩
    exact ⟨entry, i, List.mem_zipIdx_iff_getElem?.mpr found, place, part, inside, ⟨rfl, rfl⟩, rfl⟩

/-- The parts of the first entries are those placed there. -/
theorem mem_numbered_take {n i : Nat} {place : ι} {part : β} :
    ((i, place), part) ∈ numbered parts (entries.take n) ↔
      i < n ∧ ((i, place), part) ∈ numbered parts entries := by
  rw [mem_numbered, mem_numbered, List.getElem?_take]
  by_cases inside : i < n
  · rw [if_pos inside, and_iff_right inside]
  · rw [if_neg inside]
    simp [inside]

/-- Different parts have different places. -/
theorem nodup_numbered (distinct : ∀ entry ∈ entries, ((parts entry).map Prod.fst).Nodup) :
    ((numbered parts entries).map Prod.fst).Nodup := by
  rw [numbered, List.map_flatMap, List.nodup_flatMap]
  constructor
  · rintro ⟨entry, i⟩ member
    rw [List.map_map]
    have places : (Prod.fst ∘ fun part : ι × β => ((i, part.1), part.2)) =
        (fun place => (i, place)) ∘ Prod.fst := rfl
    rw [places, ← List.map_map]
    exact (distinct entry (List.fst_mem_of_mem_zipIdx member)).map fun _ _ same =>
      (Prod.mk.inj same).2
  · refine List.Pairwise.imp ?_ (List.pairwise_map.mp (List.nodup_zipIdx_map_snd entries))
    rintro ⟨entry, i⟩ ⟨other, j⟩ apart place left right
    simp only [List.map_map, List.mem_map, Function.comp_apply] at left right
    obtain ⟨_, _, rfl⟩ := left
    obtain ⟨_, _, same⟩ := right
    exact apart (Prod.mk.inj same).1.symm

/-- The amounts of all parts add up entry by entry. -/
theorem sum_numbered {amounts : α → List (ι × Nat)} :
    ((numbered amounts entries).map Prod.snd).sum =
      (entries.map fun entry => ((amounts entry).map Prod.snd).sum).sum := by
  have unplaced : ∀ entry : α × Nat,
      ((amounts entry.1).map fun part => ((entry.2, part.1), part.2)).map Prod.snd =
        (amounts entry.1).map Prod.snd := by
    intro entry
    rw [List.map_map]
    rfl
  rw [numbered, List.map_flatMap, List.flatMap_def, List.sum_flatten, List.map_map]
  conv_rhs => rw [← List.zipIdx_map_fst 0 entries, List.map_map]
  exact congrArg List.sum (List.map_congr_left fun entry _ => congrArg List.sum (unplaced entry))

end Numbering
end Foundation
