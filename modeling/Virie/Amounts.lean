import Virie.Format

/-! # Sums of amounts

The source adds amounts in 64-bit words. Its sums are the exact ones, reduced; the overflow checks
say when nothing is lost. -/

namespace Virie

namespace TransactionPrefix

variable (tx : TransactionPrefix)

/-- The sum of the amounts that the inputs declare. -/
def inputTotal : Nat := (tx.vin.map Txin.amount).sum

/-- The sum of the amounts of the outputs. -/
def outputTotal : Nat := (tx.vout.map TxOut.amount).sum

/-- All amounts are 64-bit words. -/
structure WordAmounts : Prop where
  inputs : ∀ input ∈ tx.vin, input.amount < 2 ^ 64
  outputs : ∀ out ∈ tx.vout, out.amount < 2 ^ 64

instance WordAmounts.decidable : Decidable tx.WordAmounts :=
  decidable_of_iff ((∀ input ∈ tx.vin, input.amount < 2 ^ 64) ∧ ∀ out ∈ tx.vout, out.amount < 2 ^ 64)
    ⟨fun both => ⟨both.1, both.2⟩, fun words => ⟨words.inputs, words.outputs⟩⟩

end TransactionPrefix

theorem foldl_addU64 (total : Nat) (amounts : List Nat) :
    amounts.foldl addU64 total % 2 ^ 64 = (total + amounts.sum) % 2 ^ 64 := by
  induction amounts generalizing total with
  | nil => rfl
  | cons amount rest ih =>
    rw [List.foldl_cons, ih, List.sum_cons, addU64, Nat.mod_add_mod, Nat.add_assoc]

theorem foldl_addU64_lt {total : Nat} (word : total < 2 ^ 64) (amounts : List Nat) :
    amounts.foldl addU64 total < 2 ^ 64 := by
  induction amounts generalizing total with
  | nil => exact word
  | cons amount rest ih => exact ih (Nat.mod_lt _ (by decide))

/-- The 64-bit sum of amounts is the exact one, reduced. -/
theorem sumU64 (amounts : List Nat) : amounts.foldl addU64 0 = amounts.sum % 2 ^ 64 := by
  rw [← Nat.mod_eq_of_lt (foldl_addU64_lt (by decide) amounts), foldl_addU64, Nat.zero_add]

/-- The overflow check of amounts: when it passes, the exact sum of words is a word. -/
theorem sum_lt_of_sumsWithoutOverflow {total : Nat} {amounts : List Nat} (word : total < 2 ^ 64)
    (words : ∀ amount ∈ amounts, amount < 2 ^ 64)
    (passed : TransactionPrefix.sumsWithoutOverflow total amounts = true) :
    total + amounts.sum < 2 ^ 64 := by
  induction amounts generalizing total with
  | nil => exact word
  | cons amount rest ih =>
    simp only [TransactionPrefix.sumsWithoutOverflow, Bool.and_eq_true, decide_eq_true_eq] at passed
    have small := words amount (.head _)
    have kept : (total + amount) % 2 ^ 64 = total + amount := by
      have first := passed.1
      unfold addU64 at first
      omega
    have bound := ih (Nat.mod_lt _ (by decide)) (fun other member => words other (.tail _ member))
      passed.2
    rw [kept, Nat.add_assoc] at bound
    rwa [List.sum_cons]

/-- An exact sum that is a word passes the overflow check. -/
theorem sumsWithoutOverflow_of_lt {total : Nat} {amounts : List Nat}
    (bound : total + amounts.sum < 2 ^ 64) :
    TransactionPrefix.sumsWithoutOverflow total amounts = true := by
  induction amounts generalizing total with
  | nil => rfl
  | cons amount rest ih =>
    rw [List.sum_cons] at bound
    have kept : addU64 total amount = total + amount := Nat.mod_eq_of_lt (by omega)
    have commuted : addU64 amount total = total + amount := by
      rw [← kept, addU64, addU64, Nat.add_comm]
    simp only [TransactionPrefix.sumsWithoutOverflow, Bool.and_eq_true, decide_eq_true_eq, kept,
      commuted]
    exact ⟨by omega, ih (by omega)⟩

section Totals

variable {E : Env} {tx : TransactionPrefix}

theorem getOutsMoneyAmount_eq : tx.getOutsMoneyAmount = tx.outputTotal % 2 ^ 64 := by
  rw [TransactionPrefix.getOutsMoneyAmount, TransactionPrefix.outputTotal, ← sumU64,
    List.foldl_map]

theorem getInputsMoneyAmount_some {amount : Nat} (sum : tx.getInputsMoneyAmount = some amount) :
    amount = tx.inputTotal % 2 ^ 64 ∧ ∀ input ∈ tx.vin, input.amount ≠ 0 := by
  have folded : ∀ (inputs : List Txin) (total : Nat),
      inputs.foldlM (fun money input =>
        if input.amount = 0 then none else some (addU64 money input.amount)) total = some amount →
      amount = (inputs.map Txin.amount).foldl addU64 total ∧
        ∀ input ∈ inputs, input.amount ≠ 0 := by
    intro inputs
    induction inputs with
    | nil =>
      intro total run
      cases run
      exact ⟨rfl, fun input member => by cases member⟩
    | cons first rest ih =>
      intro total run
      rw [List.foldlM_cons] at run
      by_cases zero : first.amount = 0
      · rw [if_pos zero] at run
        cases run
      · rw [if_neg zero] at run
        obtain ⟨sum, others⟩ := ih _ run
        refine ⟨sum, fun input member => ?_⟩
        rcases List.mem_cons.mp member with rfl | member
        · exact zero
        · exact others input member
  obtain ⟨sum, positive⟩ := folded tx.vin 0 sum
  rw [TransactionPrefix.inputTotal, ← sumU64]
  exact ⟨sum, positive⟩

theorem outputTotal_lt (words : tx.WordAmounts) (passed : tx.checkOutsOverflow = true) :
    tx.outputTotal < 2 ^ 64 := by
  have bound := sum_lt_of_sumsWithoutOverflow (by decide) (fun amount member => by
    obtain ⟨out, inside, rfl⟩ := List.mem_map.mp member
    exact words.outputs out inside) passed
  rwa [Nat.zero_add] at bound

theorem inputTotal_lt (words : tx.WordAmounts) (passed : tx.checkInputsOverflow = true) :
    tx.inputTotal < 2 ^ 64 := by
  rw [TransactionPrefix.checkInputsOverflow, Bool.and_eq_true] at passed
  have bound := sum_lt_of_sumsWithoutOverflow (by decide) (fun amount member => by
    obtain ⟨input, inside, rfl⟩ := List.mem_map.mp member
    exact words.inputs input inside) passed.2
  rwa [Nat.zero_add] at bound

/-- The sums of the amounts of an admitted transaction are words. -/
theorem totals_lt (words : tx.WordAmounts) (semantic : checkTxSemantic E tx = true) :
    tx.inputTotal < 2 ^ 64 ∧ tx.outputTotal < 2 ^ 64 := by
  simp only [checkTxSemantic, TransactionPrefix.checkMoneyOverflow, Bool.and_eq_true] at semantic
  exact ⟨inputTotal_lt words semantic.1.1.1.2.1, outputTotal_lt words semantic.1.1.1.2.2⟩

end Totals

end Virie
