import Virie.Wallet.Growth

/-! # Cutting a wallet back to a height

Detaching a chain removes the outputs after the first one at or above a height, undoes the
spends from that height on, and drops payments, history entries and block ids. Cutting a
wallet that grew by a block at or above the height gives what cutting it before the block
gives, and a wallet whose blocks all lie below the height is left as it is. -/

open Foundation

namespace Virie.Wallet

/-- The outputs below a height, with the spends from it on undone. -/
def cutOutputs (h : Nat) (outputs : List TransferDetails) : List TransferDetails :=
  (outputs.takeWhile (TransferDetails.isBelow h)).map (unspendFrom h)

/-- The second state is the first one cut back to a height. -/
structure CutTo (h : Nat) (c d : ChainDerived) : Prop where
  blockchain : d.blockchain = c.blockchain.take h
  outputs : d.outputs = cutOutputs h c.outputs
  payments : d.payments = c.payments.filter fun payment => decide (payment.2.blockHeight < h)
  history : d.history = c.history.rdropWhile fun part => decide (h ≤ part.2.1)
  indexed : d.Indexed

/-- Everything in the state is below a height, and spent outputs are spent by some images. -/
structure Bounded (n : Nat) (images : List KeyImage) (c : ChainDerived) : Prop where
  blockchain : c.blockchain.length = n
  outputs : ∀ td ∈ c.outputs, td.ptxWalletInfo.blockHeight < n
  spent : ∀ td ∈ c.outputs, td.flags.spent = true → td.keyImage ∈ images ∧ td.spentHeight < n
  unspent : ∀ td ∈ c.outputs, td.flags.spent = false → td.spentHeight = 0
  payments : ∀ payment ∈ c.payments, payment.2.blockHeight < n
  history : ∀ part ∈ c.history, part.2.1 < n

theorem takeWhile_append_of_none {α : Type} {p : α → Bool} {first second : List α}
    (none : ∀ x ∈ second, p x = false) : (first ++ second).takeWhile p = first.takeWhile p := by
  induction first with
  | nil =>
    cases second with
    | nil => rfl
    | cons x rest =>
      rw [List.nil_append, List.takeWhile_nil,
        List.takeWhile_cons_of_neg (by rw [none x (.head _)]; exact Bool.false_ne_true)]
  | cons x rest ih =>
    rw [List.cons_append, List.takeWhile_cons, List.takeWhile_cons, ih]

theorem rdropWhile_append_of_all {α : Type} {p : α → Bool} {first second : List α}
    (all : ∀ x ∈ second, p x = true) : (first ++ second).rdropWhile p = first.rdropWhile p := by
  unfold List.rdropWhile
  rw [List.reverse_append,
    List.dropWhile_append_of_pos fun x member => all x (List.mem_reverse.mp member)]

theorem rdropWhile_map {α β : Type} (f : α → β) (p : β → Bool) (l : List α) :
    (l.map f).rdropWhile p = (l.rdropWhile (p ∘ f)).map f := by
  simp only [List.rdropWhile, ← List.map_reverse, List.dropWhile_map]

variable {h height n : Nat} {images : List KeyImage} {c d e : ChainDerived}

theorem CutTo.unique (first : CutTo h c d) (second : CutTo h c e) : d = e := by
  have outputs : d.outputs = e.outputs := first.outputs.trans second.outputs.symm
  exact ChainDerived.ext (first.blockchain.trans second.blockchain.symm) outputs
    (first.indexed.table_eq second.indexed outputs)
    (first.payments.trans second.payments.symm) (first.history.trans second.history.symm)

/-! ## Growing and cutting -/

theorem unspendFrom_spendImage {td : TransferDetails} (above : h ≤ height) (positive : 0 < h)
    (spent : td.flags.spent = true → td.keyImage ∉ images)
    (unspent : td.flags.spent = false → td.spentHeight = 0) :
    unspendFrom h (spendImage height images td) = unspendFrom h td := by
  by_cases spends : td.keyImage ∈ images
  · have fresh : td.flags.spent = false := by
      cases marked : td.flags.spent with
      | false => rfl
      | true => exact absurd spends (spent marked)
    have zero := unspent fresh
    have below : ¬ h ≤ td.spentHeight := by omega
    rw [spendImage_of_mem spends]
    unfold unspendFrom
    rw [if_pos (show h ≤ (spendAt height td).spentHeight from above), if_neg below]
    obtain ⟨⟨info, index, spentHeight, flags⟩, global, image⟩ := td
    obtain ⟨marked, blocked, reserved, mined, cold⟩ := flags
    change marked = false at fresh
    change spentHeight = 0 at zero
    subst fresh zero
    simp [spendAt, TransferFlags.add, TransferFlags.remove, TransferFlags.flagSpent]
  · rw [spendImage_of_not_mem spends]

theorem cutOutputs_grown {outputs new : List TransferDetails} (above : h ≤ height)
    (positive : 0 < h) (spent : ∀ td ∈ outputs, td.flags.spent = true → td.keyImage ∉ images)
    (unspent : ∀ td ∈ outputs, td.flags.spent = false → td.spentHeight = 0)
    (born : ∀ td ∈ new, BornAt height images td) :
    cutOutputs h (outputs.map (spendImage height images) ++ new) = cutOutputs h outputs := by
  have late : ∀ td ∈ new, TransferDetails.isBelow h td = false := fun td member => by
    rw [TransferDetails.isBelow, (born td member).isAt]
    exact decide_eq_false (Nat.not_lt.mpr above)
  have same : TransferDetails.isBelow h ∘ spendImage height images =
      TransferDetails.isBelow h := by
    funext td
    rw [Function.comp_apply, spendImage]
    split <;> rfl
  unfold cutOutputs
  rw [takeWhile_append_of_none late, List.takeWhile_map, same, List.map_map]
  refine List.map_congr_left fun td member => ?_
  have present := List.takeWhile_subset _ member
  exact unspendFrom_spendImage above positive (spent td present) (unspent td present)

/-- Cutting after a block at or above the height is cutting before it. -/
theorem CutTo.of_grown {id : Hash} (cut : CutTo h { d with blockchain := c.blockchain ++ [id] } e)
    (grown : Grown height images c d) (above : h ≤ height) (positive : 0 < h)
    (next : c.blockchain.length = height)
    (spent : ∀ td ∈ c.outputs, td.flags.spent = true → td.keyImage ∉ images)
    (unspent : ∀ td ∈ c.outputs, td.flags.spent = false → td.spentHeight = 0) : CutTo h c e := by
  obtain ⟨new, outputs, born⟩ := grown.outputs
  obtain ⟨paid, payments, paidAt⟩ := grown.payments
  obtain ⟨parts, history, partsAt⟩ := grown.history
  refine ⟨?_, ?_, ?_, ?_, cut.indexed⟩
  · refine cut.blockchain.trans ?_
    exact List.take_append_of_le_length (by omega)
  · refine cut.outputs.trans ?_
    rw [show ({ d with blockchain := c.blockchain ++ [id] } : ChainDerived).outputs = _ from outputs]
    exact cutOutputs_grown above positive spent unspent born
  · refine cut.payments.trans ?_
    rw [show ({ d with blockchain := c.blockchain ++ [id] } : ChainDerived).payments = _
      from payments, List.filter_append, List.append_right_eq_self, List.filter_eq_nil_iff]
    intro payment member
    rw [paidAt payment member, decide_eq_true_iff]
    omega
  · refine cut.history.trans ?_
    rw [show ({ d with blockchain := c.blockchain ++ [id] } : ChainDerived).history = _
      from history]
    refine rdropWhile_append_of_all fun part member => ?_
    rw [partsAt part member]
    exact decide_eq_true above

/-! ## States below a height -/

theorem Bounded.cut_self (bounded : Bounded n images c) (indexed : c.Indexed) (above : n ≤ h)
    (positive : 0 < h) : CutTo h c c := by
  refine ⟨?_, ?_, ?_, ?_, indexed⟩
  · rw [List.take_of_length_le (by rw [bounded.blockchain]; exact above)]
  · unfold cutOutputs
    have all : ∀ td ∈ c.outputs, TransferDetails.isBelow h td = true := fun td member =>
      decide_eq_true (Nat.lt_of_lt_of_le (bounded.outputs td member) above)
    rw [List.takeWhile_eq_self_iff.mpr all]
    symm
    refine (List.map_congr_left fun td member => ?_).trans (List.map_id _)
    unfold unspendFrom
    refine if_neg ?_
    cases marked : td.flags.spent with
    | true =>
      have below := (bounded.spent td member marked).2
      omega
    | false =>
      have zero := bounded.unspent td member marked
      omega
  · symm
    refine List.filter_eq_self.mpr fun payment member => ?_
    exact decide_eq_true (Nat.lt_of_lt_of_le (bounded.payments payment member) above)
  · symm
    refine List.rdropWhile_eq_self_iff.mpr fun some late => ?_
    have below := bounded.history _ (List.getLast_mem some)
    rw [decide_eq_true_iff] at late
    omega

theorem Bounded.grow {all : List KeyImage} {id : Hash} {more : List KeyImage}
    (bounded : Bounded n images c) (grown : Grown n more c d) (inside : more ⊆ all) :
    Bounded (n + 1) (images ++ all) { d with blockchain := c.blockchain ++ [id] } := by
  obtain ⟨new, outputs, born⟩ := grown.outputs
  obtain ⟨paid, payments, paidAt⟩ := grown.payments
  obtain ⟨parts, history, partsAt⟩ := grown.history
  have each : ∀ td ∈ d.outputs, td.ptxWalletInfo.blockHeight < n + 1 ∧
      (td.flags.spent = true → td.keyImage ∈ images ++ all ∧ td.spentHeight < n + 1) ∧
      (td.flags.spent = false → td.spentHeight = 0) := by
    intro td member
    rw [outputs] at member
    rcases List.mem_append.mp member with old | fresh
    · obtain ⟨before, present, rfl⟩ := List.mem_map.mp old
      have below := bounded.outputs before present
      by_cases spends : before.keyImage ∈ more
      · rw [spendImage_of_mem spends]
        refine ⟨Nat.lt_succ_of_lt below,
          fun _ => ⟨List.mem_append.mpr (.inr (inside spends)), Nat.lt_succ_self n⟩, ?_⟩
        intro unspent
        simp [spendAt, TransferFlags.add, TransferFlags.flagSpent] at unspent
      · rw [spendImage_of_not_mem spends]
        refine ⟨Nat.lt_succ_of_lt below, fun marked => ?_, bounded.unspent before present⟩
        obtain ⟨named, low⟩ := bounded.spent before present marked
        exact ⟨List.mem_append.mpr (.inl named), Nat.lt_succ_of_lt low⟩
    · have isBorn := born td fresh
      refine ⟨by rw [isBorn.isAt]; exact Nat.lt_succ_self n, fun marked => ?_, fun marked => ?_⟩
      · refine ⟨List.mem_append.mpr (.inr (inside (isBorn.spent marked))), ?_⟩
        rw [isBorn.spentHeight, marked]
        exact Nat.lt_succ_self n
      · rw [isBorn.spentHeight, marked]
        rfl
  refine ⟨?_, fun td member => (each td member).1, fun td member => (each td member).2.1,
    fun td member => (each td member).2.2, ?_, ?_⟩
  · rw [List.length_append, bounded.blockchain]
    rfl
  · intro payment member
    change payment ∈ d.payments at member
    rw [payments] at member
    rcases List.mem_append.mp member with old | fresh
    · exact Nat.lt_succ_of_lt (bounded.payments payment old)
    · rw [paidAt payment fresh]
      exact Nat.lt_succ_self n
  · intro part member
    change part ∈ d.history at member
    rw [history] at member
    rcases List.mem_append.mp member with old | fresh
    · exact Nat.lt_succ_of_lt (bounded.history part old)
    · rw [partsAt part fresh]
      exact Nat.lt_succ_self n

/-! ## Detaching -/

/-- Removing the last outputs with their key images leaves the table in step. -/
theorem ChainDerived.Indexed.cut {kept dropped : List TransferDetails} (indexed : c.Indexed)
    (split : c.outputs = kept ++ dropped) :
    ({ c with
        outputs := kept
        keyImages := (dropped.map TransferDetails.keyImage).foldl Container.erase c.keyImages } :
      ChainDerived).Indexed := by
  intro ki stored
  rw [Container.get_eraseAll]
  constructor
  · intro found
    by_cases gone : ki ∈ dropped.map TransferDetails.keyImage
    · rw [if_pos gone] at found
      cases found
    · rw [if_neg gone] at found
      obtain ⟨td, present, named, stands⟩ := (indexed ki stored).mp found
      refine ⟨td, ?_, named, stands⟩
      by_cases inside : stored.index < kept.length
      · rw [split, List.getElem?_append_left inside] at present
        exact present
      · rw [split, List.getElem?_append_right (Nat.le_of_not_lt inside)] at present
        exact absurd (List.mem_map.mpr ⟨td, List.mem_of_getElem? present, named⟩) gone
  · rintro ⟨td, present, named, stands⟩
    change kept[stored.index]? = some td at present
    have inside := (List.getElem?_eq_some_iff.mp present).1
    have whole : c.outputs[stored.index]? = some td := by
      rw [split, List.getElem?_append_left inside, present]
    have apart : ki ∉ dropped.map TransferDetails.keyImage := by
      intro gone
      obtain ⟨other, member, also⟩ := List.mem_map.mp gone
      obtain ⟨j, found⟩ := List.mem_iff_getElem?.mp member
      have later : c.outputs[kept.length + j]? = some other := by
        rw [split, List.getElem?_append_right (Nat.le_add_right _ _), Nat.add_sub_cancel_left,
          found]
      have same := indexed.unique whole later (named.trans also.symm)
      omega
    rw [if_neg apart]
    exact (indexed ki stored).mpr ⟨td, whole, named, stands⟩

section Detaching

open Procedure

variable {w w' : Wallet} {result : Unit}

/-- Forgetting key images erases them, and each of them was there. -/
theorem forgetKeyImages_ok {items : List TransferDetails}
    (ran : Procedure.forEach forgetKeyImage items w = .ok result w') :
    w' = { w with
      keyImages := (items.map TransferDetails.keyImage).foldl Container.erase w.keyImages } := by
  induction items generalizing w with
  | nil =>
    obtain ⟨_, rfl⟩ := pure_ok.mp ran
    rfl
  | cons td rest ih =>
    obtain ⟨_, middle, one, others⟩ := bind_ok.mp ran
    obtain ⟨_, _, passed, stored⟩ := bind_ok.mp ((get_bind _ _).symm.trans one)
    obtain ⟨_, rfl⟩ := throwIf_ok.mp passed
    obtain rfl := set_ok.mp stored
    exact ih others

@[simp] theorem chainPart_unspendFrom (td : TransferDetails) :
    (unspendFrom h td).chainPart = unspendFrom h td.chainPart := by
  unfold unspendFrom
  by_cases late : h ≤ td.spentHeight
  · rw [if_pos late, if_pos (show h ≤ td.chainPart.spentHeight from late)]
    simp [TransferDetails.chainPart, TransferFlags.remove, TransferFlags.flagSpent]
  · rw [if_neg late, if_neg (show ¬ h ≤ td.chainPart.spentHeight from late)]

/-- Detaching cuts the chain-derived state and leaves the multisig outputs. -/
theorem detachBlockchain_ok (indexed : w.chainDerived.Indexed)
    (ran : detachBlockchain h w = .ok result w') :
    CutTo h w.chainDerived w'.chainDerived ∧ w'.multisigTransfers = w.multisigTransfers := by
  unfold detachBlockchain at ran
  rw [get_bind] at ran
  obtain ⟨_, middle, forgetting, cutting⟩ := bind_ok.mp ran
  obtain rfl := modify_ok.mp cutting
  rw [forgetKeyImages_ok forgetting]
  have outputs : ((w.transfers.takeWhile (TransferDetails.isBelow h)).map (unspendFrom h)).map
      TransferDetails.chainPart = cutOutputs h (w.transfers.map TransferDetails.chainPart) := by
    unfold cutOutputs
    rw [List.takeWhile_map, List.map_map, List.map_map,
      show TransferDetails.isBelow h ∘ TransferDetails.chainPart = TransferDetails.isBelow h
        from rfl]
    exact List.map_congr_left fun td _ => chainPart_unspendFrom td
  refine ⟨⟨rfl, outputs, rfl, ?_, ?_⟩, rfl⟩
  · rw [show w.chainDerived.history = w.transferHistory.map WalletTransferInfo.chainPart from rfl,
      rdropWhile_map]
    rfl
  · have split : w.chainDerived.outputs =
        (w.transfers.map TransferDetails.chainPart).takeWhile (TransferDetails.isBelow h) ++
          (w.transfers.map TransferDetails.chainPart).dropWhile (TransferDetails.isBelow h) :=
      List.takeWhile_append_dropWhile.symm
    have images : ∀ td : TransferDetails, (unspendFrom h td).keyImage = td.keyImage := by
      intro td
      unfold unspendFrom
      split <;> rfl
    have refs : ∀ td : TransferDetails, (unspendFrom h td).ref = td.ref := by
      intro td
      unfold unspendFrom
      split <;> rfl
    refine ((indexed.cut split).map images refs).congr outputs ?_
    rw [List.dropWhile_map, List.map_map]
    rfl

end Detaching

end Virie.Wallet
