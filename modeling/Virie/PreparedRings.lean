import Virie.Foundation.Positions
import Virie.Storage.Inputs
import Virie.Wallet.Mixins

/-! # Prepared rings

Whatever numbers a node draws, the outputs it offers are different ones that it would take as ring
members, and it offers fewer than asked for only where there are no more. The ring that a wallet
makes of them has one member more than it takes, rises, and holds the real output at the number
that is signed for. The node reads the ring back from the offsets of the input, and finds its
keys. -/

open Foundation

namespace Virie

/-! ## What a node offers -/

/-- Outputs that were offered, of those below a limit. -/
structure Offered (add : Nat → Option OutEntry) (limit outsCount : Nat) (outs : List OutEntry) :
    Prop where
  offered : ∀ o ∈ outs, o.globalAmountIndex < limit ∧ add o.globalAmountIndex = some o
  distinct : (outs.map OutEntry.globalAmountIndex).Nodup
  enough : outs.length ≤ outsCount
  complete : outs.length < outsCount → ∀ i < limit, ∀ o, add i = some o → o ∈ outs

section Draws

variable {add : Nat → Option OutEntry} {limit outsCount : Nat}

/-- What the loop has tried and found. -/
structure Drawn (add : Nat → Option OutEntry) (limit outsCount : Nat) (used : List Nat)
    (outs : List OutEntry) : Prop where
  usedDistinct : used.Nodup
  usedBelow : ∀ i ∈ used, i < limit
  found : ∀ o ∈ outs, o.globalAmountIndex ∈ used ∧ add o.globalAmountIndex = some o
  distinct : (outs.map OutEntry.globalAmountIndex).Nodup
  enough : outs.length ≤ outsCount
  all : ∀ i ∈ used, ∀ o, add i = some o → o ∈ outs

theorem Drawn.try {used : List Nat} {outs : List OutEntry}
    (drawn : Drawn add limit outsCount used outs)
    (own : ∀ i o, add i = some o → o.globalAmountIndex = i)
    {i : Nat} (below : i < limit) (unused : i ∉ used) (few : outs.length < outsCount) :
    Drawn add limit outsCount (i :: used) (outs ++ (add i).toList) := by
  have usedDistinct : (i :: used).Nodup := List.nodup_cons.mpr ⟨unused, drawn.usedDistinct⟩
  have usedBelow : ∀ j ∈ i :: used, j < limit := by
    intro j member
    rcases List.mem_cons.mp member with rfl | member
    · exact below
    · exact drawn.usedBelow j member
  have foundBefore : ∀ o ∈ outs, o.globalAmountIndex ∈ i :: used ∧
      add o.globalAmountIndex = some o := fun o member =>
    ⟨.tail _ (drawn.found o member).1, (drawn.found o member).2⟩
  cases result : add i with
  | none =>
    rw [Option.toList_none, List.append_nil]
    refine ⟨usedDistinct, usedBelow, foundBefore, drawn.distinct, drawn.enough, ?_⟩
    intro j member o isOut
    rcases List.mem_cons.mp member with rfl | member
    · rw [result] at isOut
      cases isOut
    · exact drawn.all j member o isOut
  | some found =>
    have index := own i found result
    rw [Option.toList_some]
    refine ⟨usedDistinct, usedBelow, ?_, ?_, ?_, ?_⟩
    · intro o member
      rcases List.mem_append.mp member with before | last
      · exact foundBefore o before
      · rw [List.mem_singleton.mp last, index]
        exact ⟨.head _, result⟩
    · rw [List.map_append, List.map_singleton, index]
      refine List.nodup_append.mpr ⟨drawn.distinct, List.nodup_singleton i, ?_⟩
      intro j member k last same
      obtain ⟨o, isOut, rfl⟩ := List.mem_map.mp member
      rw [List.mem_singleton.mp last] at same
      exact unused (same ▸ (drawn.found o isOut).1)
    · rw [List.length_append, List.length_singleton]
      exact few
    · intro j member o isOut
      rcases List.mem_cons.mp member with rfl | member
      · rw [result] at isOut
        cases isOut
        exact List.mem_append_right _ (.head _)
      · exact List.mem_append_left _ (drawn.all j member o isOut)

theorem Drawn.offered {used : List Nat} {outs : List OutEntry}
    (drawn : Drawn add limit outsCount used outs)
    (ended : outs.length = outsCount ∨ limit ≤ used.length) : Offered add limit outsCount outs := by
  refine ⟨fun o member => ?_, drawn.distinct, drawn.enough, fun few i below o isOut => ?_⟩
  · exact ⟨drawn.usedBelow _ (drawn.found o member).1, (drawn.found o member).2⟩
  · -- all numbers below the limit have been tried
    have full : limit ≤ used.length := ended.resolve_left few.ne
    have subset : used ⊆ List.range limit := fun j member =>
      List.mem_range.mpr (drawn.usedBelow j member)
    have perm := (drawn.usedDistinct.subperm subset).perm_of_length_le
      (by rwa [List.length_range])
    exact drawn.all i (perm.mem_iff.mpr (List.mem_range.mpr below)) o isOut

theorem drawOuts_offered (own : ∀ i o, add i = some o → o.globalAmountIndex = i)
    {draws rest : List Nat} {used : List Nat} {outs result : List OutEntry}
    (drawn : Drawn add limit outsCount used outs)
    (ended : Chain.drawOuts add limit outsCount draws used outs = some (result, rest)) :
    Offered add limit outsCount result := by
  induction draws generalizing used outs with
  | nil =>
    unfold Chain.drawOuts at ended
    split at ended
    · next done =>
      cases ended
      exact drawn.offered done
    · cases ended
  | cons draw draws ih =>
    unfold Chain.drawOuts at ended
    split at ended
    · next done =>
      cases ended
      exact drawn.offered done
    · next goesOn =>
      dsimp only at ended
      split at ended
      · exact ih drawn ended
      · next unused =>
        have positive : 0 < limit := by omega
        have few : outs.length < outsCount :=
          lt_of_le_of_ne drawn.enough fun same => goesOn (.inl same)
        exact ih (drawn.try own (Nat.mod_lt draw positive) unused few) ended

/-- The loop ends if each number below the limit is drawn. -/
theorem drawOuts_ends (own : ∀ i o, add i = some o → o.globalAmountIndex = i)
    {draws used : List Nat} {outs : List OutEntry} (drawn : Drawn add limit outsCount used outs)
    (covered : ∀ i < limit, i ∈ used ∨ ∃ draw ∈ draws, draw % limit = i) :
    (Chain.drawOuts add limit outsCount draws used outs).isSome := by
  induction draws generalizing used outs with
  | nil =>
    have subset : List.range limit ⊆ used := fun i member =>
      (covered i (List.mem_range.mp member)).resolve_right fun ⟨_, drawn, _⟩ =>
        absurd drawn List.not_mem_nil
    have length := (List.nodup_range.subperm subset).length_le
    rw [List.length_range] at length
    unfold Chain.drawOuts
    rw [if_pos (.inr length)]
    rfl
  | cons draw draws ih =>
    unfold Chain.drawOuts
    split
    · rfl
    · next goesOn =>
      dsimp only
      split
      · next again =>
        refine ih drawn fun i below => ?_
        rcases covered i below with tried | ⟨other, member, rfl⟩
        · exact .inl tried
        · rcases List.mem_cons.mp member with rfl | member
          · exact .inl again
          · exact .inr ⟨other, member, rfl⟩
      · next unused =>
        have positive : 0 < limit := by omega
        have few : outs.length < outsCount :=
          lt_of_le_of_ne drawn.enough fun same => goesOn (.inl same)
        refine ih (drawn.try own (Nat.mod_lt draw positive) unused few) fun i below => ?_
        rcases covered i below with tried | ⟨other, member, rfl⟩
        · exact .inl (.tail _ tried)
        · rcases List.mem_cons.mp member with rfl | member
          · exact .inl (.head _)
          · exact .inr ⟨other, member, rfl⟩

theorem Drawn.none : Drawn add limit outsCount [] [] :=
  ⟨List.nodup_nil, fun _ member => absurd member List.not_mem_nil,
    fun _ member => absurd member List.not_mem_nil, List.nodup_nil, Nat.zero_le _,
    fun _ member => absurd member List.not_mem_nil⟩

end Draws

section Rings

variable {chain : Chain} {amount : Nat}

/-- An output that the node takes as a member of a ring with some others. -/
def Acceptable (chain : Chain) (amount fakeOutputsCount : Nat) (o : OutEntry) : Prop :=
  ∃ out entry txOut outtk, chain.db.outputs.getSubitem amount o.globalAmountIndex = some out ∧
    chain.db.transactions.get out.txId = some entry ∧ entry.tx.vout[out.outNo]? = some txOut ∧
    txOut.target = .toKey outtk ∧ outtk.key = o.outKey ∧
    chain.isTxSpendtimeUnlocked entry.tx.getTxUnlockTime = true ∧
    isMixattrApplicableForFakeOutsCounter outtk.mixAttr fakeOutputsCount = true

theorem mixattr_applicable {mixAttr fakeOutputsCount : Nat}
    (mixes : mixAttr ≠ currencyToKeyOutForcedNoMix)
    (enough : ¬ (mixAttr ≠ currencyToKeyOutRelaxed ∧ fakeOutputsCount + 1 < mixAttr)) :
    isMixattrApplicableForFakeOutsCounter mixAttr fakeOutputsCount = true := by
  unfold isMixattrApplicableForFakeOutsCounter
  split
  · next large =>
    have notRelaxed : mixAttr ≠ currencyToKeyOutRelaxed := by
      unfold currencyToKeyOutForcedMixLowerBound at large
      unfold currencyToKeyOutRelaxed
      omega
    exact decide_eq_true (Nat.not_lt.mp fun less => enough ⟨notRelaxed, less⟩)
  · rfl

/-- What is offered would be accepted. -/
theorem acceptable_of_added {fakeOutputsCount : Nat} {forced : Bool} {i : Nat} {o : OutEntry}
    (added : chain.addOutToGetRandomOuts amount (fakeOutputsCount + 1) forced i = some o) :
    o.globalAmountIndex = i ∧ Acceptable chain amount fakeOutputsCount o := by
  obtain ⟨out, isOut, added⟩ := Option.bind_eq_some_iff.mp added
  obtain ⟨entry, isEntry, added⟩ := Option.bind_eq_some_iff.mp added
  obtain ⟨txOut, isTxOut, added⟩ := Option.bind_eq_some_iff.mp added
  split at added
  · cases added
  · next outtk isKey =>
    split at added
    · cases added
    split at added
    · cases added
    split at added
    · cases added
    next unlocked =>
    split at added
    · cases added
    next mixes =>
    split at added
    · cases added
    split at added
    · cases added
    next enough =>
    cases added
    refine ⟨rfl, out, entry, txOut, outtk, isOut, isEntry, isTxOut, isKey, rfl, ?_,
      mixattr_applicable mixes enough⟩
    rwa [Bool.not_eq_true, Bool.not_eq_false'] at unlocked

theorem addOut_index {mixCount : Nat} {forced : Bool} {i : Nat} {o : OutEntry}
    (added : chain.addOutToGetRandomOuts amount mixCount forced i = some o) :
    o.globalAmountIndex = i := by
  obtain ⟨out, _, added⟩ := Option.bind_eq_some_iff.mp added
  obtain ⟨entry, _, added⟩ := Option.bind_eq_some_iff.mp added
  obtain ⟨txOut, _, added⟩ := Option.bind_eq_some_iff.mp added
  split at added
  · cases added
  · simp only [ite_eq_iff, reduceCtorEq, and_false, false_or, Option.some.injEq] at added
    obtain ⟨_, _, _, _, _, _, rfl⟩ := added
    rfl

theorem endOfAllowed_le (size : Nat) : chain.endOfAllowed amount size ≤ size := by
  induction size with
  | zero => exact Nat.le_refl 0
  | succ i ih =>
    unfold Chain.endOfAllowed
    split
    · exact Nat.zero_le _
    · split
      · exact Nat.le_refl _
      · exact ih.trans (Nat.le_succ i)

theorem offered_of_getRandomOuts {draws rest : List Nat} {outsCount : Nat} {forced : Bool}
    {outs : List OutEntry} (offers : chain.getRandomOutsForAmount draws amount outsCount forced =
      some (outs, rest)) :
    Offered (chain.addOutToGetRandomOuts amount outsCount forced)
      (chain.findEndOfAllowedIndex amount) outsCount outs := by
  unfold Chain.getRandomOutsForAmount at offers
  split at offers
  · next none =>
    cases offers
    have limit : chain.findEndOfAllowedIndex amount = 0 := by
      unfold Chain.findEndOfAllowedIndex
      rw [none]
      rfl
    rw [limit]
    exact ⟨fun _ member => absurd member List.not_mem_nil, List.nodup_nil, Nat.zero_le _,
      fun _ i below => absurd below (Nat.not_lt_zero i)⟩
  · dsimp only at offers
    split at offers
    · exact drawOuts_offered (fun i o => addOut_index) .none offers
    · next few =>
      cases offers
      refine ⟨fun o member => ?_, ?_, ?_, fun _ i below o isOut => ?_⟩
      · obtain ⟨i, inRange, isOut⟩ := List.mem_filterMap.mp member
        rw [addOut_index isOut]
        exact ⟨List.mem_range.mp inRange, isOut⟩
      · rw [List.map_filterMap]
        refine List.Nodup.filterMap ?_ List.nodup_range
        intro i j index isIndex isIndexToo
        obtain ⟨o, isOut, rfl⟩ := Option.map_eq_some_iff.mp isIndex
        obtain ⟨other, isOther, same⟩ := Option.map_eq_some_iff.mp isIndexToo
        rw [← addOut_index isOut, ← addOut_index isOther, same]
      · have short := List.length_filterMap_le
          (chain.addOutToGetRandomOuts amount outsCount forced)
          (List.range (chain.findEndOfAllowedIndex amount))
        rw [List.length_range] at short
        omega
      · exact List.mem_filterMap.mpr ⟨i, List.mem_range.mpr below, isOut⟩

/-- The node checks this once more, and the check never fails. -/
theorem findEndOfAllowedIndex_le :
    chain.findEndOfAllowedIndex amount ≤ chain.db.outputs.getItemSize amount :=
  endOfAllowed_le _

/-- Whatever numbers are drawn: the outputs that a node offers are different ones, below the limit
of age, that it accepts in a ring of the size they are asked for, and if there are fewer than asked
for they are all that can be mixed with. If each number is drawn there is an offer. -/
theorem getRandomOutsForAmount_offers (draws : List Nat) (fakeOutputsCount : Nat) (forced : Bool) :
    (∀ outs rest, chain.getRandomOutsForAmount draws amount (fakeOutputsCount + 1) forced =
        some (outs, rest) →
      Offered (chain.addOutToGetRandomOuts amount (fakeOutputsCount + 1) forced)
        (chain.findEndOfAllowedIndex amount) (fakeOutputsCount + 1) outs ∧
      ∀ o ∈ outs, Acceptable chain amount fakeOutputsCount o) ∧
    ((∀ i < chain.findEndOfAllowedIndex amount, ∃ draw ∈ draws,
        draw % chain.findEndOfAllowedIndex amount = i) →
      (chain.getRandomOutsForAmount draws amount (fakeOutputsCount + 1) forced).isSome) := by
  refine ⟨fun outs rest offers => ?_, fun covered => ?_⟩
  · have offered := offered_of_getRandomOuts offers
    exact ⟨offered, fun o member => (acceptable_of_added (offered.offered o member).2).2⟩
  · unfold Chain.getRandomOutsForAmount
    split
    · rfl
    · dsimp only
      split
      · exact drawOuts_ends (fun i o => addOut_index) .none fun i below => .inr (covered i below)
      · rfl

/-! ## The ring -/

/-- An offered output as a ring member. -/
def OutEntry.member (o : OutEntry) : TxoutRef × PublicKey := (.index o.globalAmountIndex, o.outKey)

section Ring

variable {fakeOutputsCount real : Nat}

/-- The loop takes the first outputs that are not the real one. -/
theorem pasteMixins_eq {sorted : List OutEntry} {outputs : List (TxoutRef × PublicKey)}
    (few : outputs.length < fakeOutputsCount) :
    pasteMixins fakeOutputsCount real sorted outputs = outputs ++
      ((sorted.filter fun o => decide (o.globalAmountIndex ≠ real)).take
        (fakeOutputsCount - outputs.length)).map OutEntry.member := by
  induction sorted generalizing outputs with
  | nil => rw [pasteMixins, List.filter_nil, List.take_nil, List.map_nil, List.append_nil]
  | cons o sorted ih =>
    rw [pasteMixins]
    by_cases same : real = o.globalAmountIndex
    · rw [if_pos same, ih few, List.filter_cons_of_neg (by simp [same])]
    · rw [if_neg same, List.filter_cons_of_pos (by simp [Ne.symm same])]
      dsimp only
      obtain ⟨more, isMore⟩ : ∃ more, fakeOutputsCount - outputs.length = more + 1 :=
        ⟨fakeOutputsCount - outputs.length - 1, by omega⟩
      rw [isMore, List.take_succ_cons, List.map_cons]
      split
      · next enough =>
        rw [List.length_append, List.length_singleton] at enough
        have none : more = 0 := by omega
        rw [none, List.take_zero, List.map_nil]
        rfl
      · next goesOn =>
        rw [List.length_append, List.length_singleton] at goesOn
        rw [ih (by rw [List.length_append, List.length_singleton]; omega), List.append_assoc]
        have left : fakeOutputsCount - (outputs ++ [(TxoutRef.index o.globalAmountIndex,
            o.outKey)]).length = more := by
          rw [List.length_append, List.length_singleton]
          omega
        rw [left]
        rfl

/-- Among different outputs at most one is the real one. -/
theorem length_filter_ne {outs : List OutEntry}
    (distinct : (outs.map OutEntry.globalAmountIndex).Nodup) :
    outs.length ≤ (outs.filter fun o => decide (o.globalAmountIndex ≠ real)).length + 1 := by
  induction outs with
  | nil => exact Nat.zero_le _
  | cons o outs ih =>
    obtain ⟨others, distinct⟩ := List.nodup_cons.mp distinct
    by_cases same : o.globalAmountIndex = real
    · have all : (outs.filter fun o => decide (o.globalAmountIndex ≠ real)) = outs := by
        refine List.filter_eq_self.mpr fun other member => decide_eq_true fun isReal => ?_
        exact others (List.mem_map.mpr ⟨other, member, isReal.trans same.symm⟩)
      rw [List.filter_cons_of_neg (by simp [same]), all]
      exact Nat.le_refl _
    · rw [List.filter_cons_of_pos (by simp [same]), List.length_cons, List.length_cons]
      exact Nat.succ_le_succ (ih distinct)

/-- The real output put in its place among rising ones. -/
theorem place_rising {entries : List OutEntry} (key : PublicKey)
    (rising : (entries.map OutEntry.globalAmountIndex).Pairwise (· < ·))
    (others : ∀ o ∈ entries, o.globalAmountIndex ≠ real) :
    let before := fun o : OutEntry => decide (o.globalAmountIndex < real)
    ((entries.takeWhile before ++ ⟨real, key⟩ :: entries.dropWhile before).map
      OutEntry.globalAmountIndex).Pairwise (· < ·) := by
  intro before
  induction entries with
  | nil => exact List.pairwise_singleton _ _
  | cons o entries ih =>
    obtain ⟨least, rising⟩ := List.pairwise_cons.mp rising
    have rest := ih rising fun other member => others other (.tail _ member)
    by_cases less : o.globalAmountIndex < real
    · have passes : before o = true := decide_eq_true less
      rw [List.takeWhile_cons_of_pos passes, List.dropWhile_cons_of_pos passes, List.cons_append,
        List.map_cons]
      refine List.pairwise_cons.mpr ⟨fun index member => ?_, rest⟩
      obtain ⟨other, isOther, rfl⟩ := List.mem_map.mp member
      rcases List.mem_append.mp isOther with front | back
      · exact least _ (List.mem_map.mpr ⟨other, (List.takeWhile_prefix before).subset front, rfl⟩)
      · rcases List.mem_cons.mp back with rfl | back
        · exact less
        · exact least _ (List.mem_map.mpr ⟨other, (List.dropWhile_suffix before).subset back, rfl⟩)
    · have more : real < o.globalAmountIndex :=
        lt_of_le_of_ne (not_lt.mp less) (others o (.head _)).symm
      have stops : ¬ before o = true := fun passes => less (of_decide_eq_true passes)
      rw [List.takeWhile_cons_of_neg stops, List.dropWhile_cons_of_neg stops, List.nil_append,
        List.map_cons]
      refine List.pairwise_cons.mpr ⟨fun index member => ?_, List.pairwise_cons.mpr ⟨least, rising⟩⟩
      rcases List.mem_cons.mp member with rfl | member
      · exact more
      · exact more.trans (least index member)

end Ring

/-- The ring of a source: one member more than the wallet mixes with, rising, each offered or the
real one, which stands where it is signed for. -/
structure RingOf (fakeOutputsCount : Nat) (td : Wallet.TransferDetails) (outs : List OutEntry)
    (source : TxSourceEntry) (entries : List OutEntry) (key : PublicKey) : Prop where
  outputs : source.outputs = entries.map OutEntry.member
  amount : source.amount = td.amount
  single : source.msSigsCount = 0
  length : entries.length = fakeOutputsCount + 1
  rising : (entries.map OutEntry.globalAmountIndex).Pairwise (· < ·)
  real : entries[source.realOutput]? = some ⟨td.globalOutputIndex, key⟩
  isKey : ∃ out outtk, td.output? = some out ∧ out.target = .toKey outtk ∧ outtk.key = key
  members : ∀ o ∈ entries, o = ⟨td.globalOutputIndex, key⟩ ∨ o ∈ outs

theorem prepareTxSource_ring {fakeOutputsCount : Nat} {td : Wallet.TransferDetails}
    {outs : List OutEntry} {source : TxSourceEntry}
    (distinct : (outs.map OutEntry.globalAmountIndex).Nodup)
    (enough : fakeOutputsCount = 0 ∧ outs = [] ∨ 0 < fakeOutputsCount ∧
      fakeOutputsCount + 1 ≤ outs.length)
    (prepared : prepareTxSource fakeOutputsCount td outs = some source) :
    ∃ entries key, RingOf fakeOutputsCount td outs source entries key := by
  obtain ⟨out, isOut, prepared⟩ := Option.bind_eq_some_iff.mp prepared
  split at prepared
  · cases prepared
  next outtk isKey =>
  cases prepared
  let sorted := outs.mergeSort fun a b => decide (a.globalAmountIndex ≤ b.globalAmountIndex)
  have perm : sorted.Perm outs := List.mergeSort_perm _ _
  have sortedLe : (sorted.map OutEntry.globalAmountIndex).Pairwise (· ≤ ·) := by
    refine List.pairwise_map.mpr ((List.pairwise_mergeSort ?_ ?_ outs).imp of_decide_eq_true)
    · intro a b c first second
      exact decide_eq_true ((of_decide_eq_true first).trans (of_decide_eq_true second))
    · intro a b
      rcases Nat.le_total a.globalAmountIndex b.globalAmountIndex with le | le
      · rw [decide_eq_true le, Bool.true_or]
      · rw [decide_eq_true le, Bool.or_true]
  have sortedDistinct : (sorted.map OutEntry.globalAmountIndex).Nodup :=
    (perm.map _).nodup_iff.mpr distinct
  have sortedLt : (sorted.map OutEntry.globalAmountIndex).Pairwise (· < ·) :=
    (sortedLe.and sortedDistinct).imp fun both => lt_of_le_of_ne both.1 both.2
  let others := (sorted.filter fun o => decide (o.globalAmountIndex ≠ td.globalOutputIndex)).take
    fakeOutputsCount
  have isSublist : others.Sublist sorted :=
    (List.take_sublist _ _).trans List.filter_sublist
  have rising : (others.map OutEntry.globalAmountIndex).Pairwise (· < ·) :=
    sortedLt.sublist (isSublist.map _)
  have apart : ∀ o ∈ others, o.globalAmountIndex ≠ td.globalOutputIndex := by
    intro o member
    exact of_decide_eq_true (List.mem_filter.mp (List.mem_of_mem_take member)).2
  have count : others.length = fakeOutputsCount := by
    rcases enough with ⟨zero, _⟩ | ⟨_, many⟩
    · rw [List.length_take, zero, Nat.zero_min]
    · have kept := @length_filter_ne td.globalOutputIndex sorted sortedDistinct
      rw [perm.length_eq] at kept
      rw [List.length_take]
      omega
  have pasted : pasteMixins fakeOutputsCount td.globalOutputIndex sorted [] =
      others.map OutEntry.member := by
    rcases enough with ⟨zero, none⟩ | ⟨positive, _⟩
    · have empty : sorted = [] := by
        rw [none] at perm
        exact perm.eq_nil
      have noOthers : others = [] := List.eq_nil_of_length_eq_zero (count.trans zero)
      rw [empty, noOthers]
      rfl
    · exact pasteMixins_eq positive
  let before := fun o : OutEntry => decide (o.globalAmountIndex < td.globalOutputIndex)
  have split : others.takeWhile before ++ others.dropWhile before = others :=
    List.takeWhile_append_dropWhile
  refine ⟨others.takeWhile before ++ ⟨td.globalOutputIndex, outtk.key⟩ :: others.dropWhile before,
    outtk.key, ?_, rfl, rfl, ?_, place_rising outtk.key rising apart, ?_,
    ⟨out, outtk, isOut, isKey, rfl⟩, ?_⟩
  · dsimp only
    rw [pasted, List.takeWhile_map, List.dropWhile_map, List.map_append, List.map_cons]
    rfl
  · have total := congrArg List.length split
    rw [List.length_append, count] at total
    rw [List.length_append, List.length_cons]
    omega
  · dsimp only
    rw [pasted, List.takeWhile_map, List.length_map]
    change (others.takeWhile before ++ ⟨td.globalOutputIndex, outtk.key⟩ ::
      others.dropWhile before)[(others.takeWhile before).length]? = _
    rw [List.getElem?_append_right (Nat.le_refl _), Nat.sub_self]
    rfl
  · intro o member
    have inOthers : o ∈ others → o ∈ outs := fun inside =>
      perm.mem_iff.mp (isSublist.subset inside)
    rcases List.mem_append.mp member with front | back
    · exact .inr (inOthers ((List.takeWhile_prefix before).subset front))
    · rcases List.mem_cons.mp back with rfl | back
      · exact .inl rfl
      · exact .inr (inOthers ((List.dropWhile_suffix before).subset back))

/-! ## Reading the ring -/

/-- The node takes a member it finds acceptable. -/
theorem scanOutputkey_acceptable {txin : TxinToKey} {o : OutEntry}
    (acceptable : Acceptable chain txin.amount (txin.keyOffsets.length - 1) o) (height : Nat) :
    ∃ after, scanOutputkey chain txin (.index o.globalAmountIndex) height = .ok o.outKey after := by
  obtain ⟨out, entry, txOut, outtk, isOut, isEntry, isTxOut, isKey, key, unlocked, mixes⟩ :=
    acceptable
  refine ⟨max height entry.keeperBlockHeight, ?_⟩
  have resolved : chain.db.resolveOutput txin.amount (.index o.globalAmountIndex) =
      .ok (out.txId, out.outNo) := by
    rw [Db.resolveOutput, isOut]
    rfl
  unfold scanOutputkey
  refine Procedure.bind_ok.mpr ⟨_, height, Procedure.reading_ok.mpr ⟨resolved, rfl⟩, ?_⟩
  refine Procedure.bind_ok.mpr ⟨_, height, Procedure.demand_ok.mpr ⟨isEntry, rfl⟩, ?_⟩
  refine Procedure.bind_ok.mpr ⟨_, height, Procedure.demand_ok.mpr ⟨isTxOut, rfl⟩, ?_⟩
  rw [isKey]
  dsimp only
  rw [mixes, unlocked, key]
  rfl

theorem scanOutputkeys_acceptable {txin : TxinToKey} {entries : List OutEntry}
    (acceptable : ∀ o ∈ entries, Acceptable chain txin.amount (txin.keyOffsets.length - 1) o)
    (height : Nat) :
    ∃ after, scanOutputkeys chain txin
      (entries.map fun o => .index o.globalAmountIndex) height =
        .ok (entries.map OutEntry.outKey) after := by
  induction entries generalizing height with
  | nil => exact ⟨height, rfl⟩
  | cons o entries ih =>
    obtain ⟨middle, first⟩ := scanOutputkey_acceptable (acceptable o (.head _)) height
    obtain ⟨after, rest⟩ := ih (fun other member => acceptable other (.tail _ member)) middle
    refine ⟨after, ?_⟩
    rw [List.map_cons, scanOutputkeys]
    exact Procedure.bind_ok.mpr ⟨_, middle, first, Procedure.bind_ok.mpr ⟨_, after, rest, rfl⟩⟩

theorem length_relativeIndexes (previous : Nat) (off : List TxoutRef) :
    (relativeIndexes previous off).length = off.length := by
  induction off generalizing previous with
  | nil => rfl
  | cons reference off ih =>
    cases reference with
    | index i => exact congrArg (· + 1) (ih i)
    | byId _ => rfl

theorem length_absoluteOutputOffsetsToRelative (off : List TxoutRef) :
    (absoluteOutputOffsetsToRelative off).length = off.length := by
  unfold absoluteOutputOffsetsToRelative
  split
  · rfl
  · rw [length_relativeIndexes, List.length_append, List.length_mergeSort, ← List.length_append]
    exact (List.filter_append_perm TxoutRef.isIndex off).length_eq

/-- The outputs of the wallet that are to be spent: where the node has them it would take them. -/
def Owned (chain : Chain) (fakeOutputsCount : Nat) (td : Wallet.TransferDetails) : Prop :=
  ∀ out outtk, td.output? = some out → out.target = .toKey outtk →
    Acceptable chain td.amount fakeOutputsCount ⟨td.globalOutputIndex, outtk.key⟩

theorem RingOf.accepted {fakeOutputsCount : Nat} {td : Wallet.TransferDetails}
    {outs : List OutEntry} {source : TxSourceEntry} {entries : List OutEntry} {key : PublicKey}
    (ring : RingOf fakeOutputsCount td outs source entries key)
    (members : ∀ o ∈ entries, Acceptable chain td.amount fakeOutputsCount o)
    (bounded : ∀ o ∈ entries, o.globalAmountIndex < 2 ^ 64) {txin : TxinToKey}
    (amount : txin.amount = source.amount)
    (offsets : txin.keyOffsets = absoluteOutputOffsetsToRelative (source.outputs.map Prod.fst))
    (height : Nat) :
    ∃ after, getOutputKeysForInputWithChecks chain txin height =
      .ok (source.outputs.map Prod.snd) after := by
  let indexes := entries.map OutEntry.globalAmountIndex
  have references : source.outputs.map Prod.fst = offsetsOf indexes [] := by
    rw [ring.outputs, offsetsOf, List.map_map, List.map_map, List.map_nil, List.append_nil]
    rfl
  have keys : source.outputs.map Prod.snd = entries.map OutEntry.outKey := by
    rw [ring.outputs, List.map_map]
    rfl
  have boundedIndexes : ∀ i ∈ indexes, i < 2 ^ 64 := by
    intro i member
    obtain ⟨o, isOut, rfl⟩ := List.mem_map.mp member
    exact bounded o isOut
  have decodes : relativeOutputOffsetsToAbsolute txin.keyOffsets = .ok (offsetsOf indexes []) := by
    rw [offsets, references, absoluteOutputOffsetsToRelative_eq]
    exact roundTrips_of_equal ring.rising boundedIndexes
      (fun _ member => absurd member List.not_mem_nil)
      (sortsBy_sortOffsets fun list => List.Perm.refl list)
  have length : txin.keyOffsets.length = fakeOutputsCount + 1 := by
    rw [offsets, length_absoluteOutputOffsetsToRelative, List.length_map, ring.outputs,
      List.length_map, ring.length]
  have amounts : txin.amount = td.amount := amount.trans ring.amount
  have acceptable : ∀ o ∈ entries,
      Acceptable chain txin.amount (txin.keyOffsets.length - 1) o := by
    intro o member
    rw [amounts, length, Nat.add_sub_cancel]
    exact members o member
  obtain ⟨after, read⟩ := scanOutputkeys_acceptable acceptable height
  have any : (chain.db.outputs.getItemSize txin.amount != 0) = true := by
    obtain ⟨_, _, _, _, isOut, _⟩ := acceptable _ (List.mem_of_getElem? ring.real)
    obtain ⟨below, _⟩ := List.getElem?_eq_some_iff.mp isOut
    exact bne_iff_ne.mpr (Nat.pos_of_ne_zero fun zero => by
      rw [ArrayContainer.getItemSize] at zero
      omega).ne'
  refine ⟨after, Procedure.bind_ok.mpr ⟨(), height, Procedure.require_ok.mpr ⟨any, rfl⟩, ?_⟩⟩
  refine Procedure.bind_ok.mpr ⟨offsetsOf indexes [], height,
    Procedure.reading_ok.mpr ⟨decodes, rfl⟩, ?_⟩
  rw [keys, offsetsOf, List.map_map, List.map_nil, List.append_nil]
  exact read

/-! ## The sources -/

theorem offersForAmounts {fakeOutputsCount : Nat} {forced : Bool} {draws : List Nat}
    {amounts : List Nat} {outs : List (List OutEntry)}
    (offers : chain.getRandomOutsForAmounts (fakeOutputsCount + 1) forced draws amounts =
      some outs) :
    List.Forall₂ (fun amount outs =>
      Offered (chain.addOutToGetRandomOuts amount (fakeOutputsCount + 1) forced)
        (chain.findEndOfAllowedIndex amount) (fakeOutputsCount + 1) outs) amounts outs := by
  induction amounts generalizing draws outs with
  | nil =>
    cases offers
    exact .nil
  | cons amount amounts ih =>
    obtain ⟨⟨first, left⟩, isFirst, offers⟩ := Option.bind_eq_some_iff.mp offers
    obtain ⟨rest, isRest, offers⟩ := Option.bind_eq_some_iff.mp offers
    cases offers
    exact .cons (offered_of_getRandomOuts isFirst) (ih isRest)

/-- A key of an output that the node has. -/
def OnChain (chain : Chain) (key : PublicKey) : Prop :=
  ∃ id entry out outtk, chain.db.transactions.get id = some entry ∧ out ∈ entry.tx.vout ∧
    out.target = .toKey outtk ∧ outtk.key = key

/-- A source with a ring of outputs that the node has: from any input made of the source it finds
the keys of the ring. -/
structure Spendable (chain : Chain) (source : TxSourceEntry) : Prop where
  single : source.msSigsCount = 0
  nonempty : source.outputs ≠ []
  onChain : ∀ key ∈ source.outputs.map Prod.snd, OnChain chain key
  accepted : ∀ txin : TxinToKey, txin.amount = source.amount →
    txin.keyOffsets = absoluteOutputOffsetsToRelative (source.outputs.map Prod.fst) →
    ∀ height, ∃ after, getOutputKeysForInputWithChecks chain txin height =
      .ok (source.outputs.map Prod.snd) after

/-- A source whose ring has one member more than the wallet mixes with and rises, with the real
output where it is signed for; the node finds the keys of the ring from any input made of it. -/
structure GoodSource (chain : Chain) (fakeOutputsCount : Nat) (td : Wallet.TransferDetails)
    (source : TxSourceEntry) : Prop where
  ring : ∃ outs entries key, RingOf fakeOutputsCount td outs source entries key
  spendable : Spendable chain source

theorem prepareTxSource_good {fakeOutputsCount : Nat} {td : Wallet.TransferDetails}
    {outs : List OutEntry} {source : TxSourceEntry}
    (bounded : chain.db.outputs.getItemSize td.amount ≤ 2 ^ 64)
    (owned : Owned chain fakeOutputsCount td)
    (distinct : (outs.map OutEntry.globalAmountIndex).Nodup)
    (offered : ∀ o ∈ outs, Acceptable chain td.amount fakeOutputsCount o)
    (enough : fakeOutputsCount = 0 ∧ outs = [] ∨ 0 < fakeOutputsCount ∧
      fakeOutputsCount + 1 ≤ outs.length)
    (prepared : prepareTxSource fakeOutputsCount td outs = some source) :
    GoodSource chain fakeOutputsCount td source := by
  obtain ⟨entries, key, ring⟩ := prepareTxSource_ring distinct enough prepared
  have acceptable : ∀ o ∈ entries, Acceptable chain td.amount fakeOutputsCount o := by
    intro o member
    rcases ring.members o member with rfl | isOffered
    · obtain ⟨out, outtk, isOut, isKey, rfl⟩ := ring.isKey
      exact owned out outtk isOut isKey
    · exact offered o isOffered
  refine ⟨⟨outs, entries, key, ring⟩, ring.single, ?_, ?_, fun txin isAmount offsets height =>
    ring.accepted acceptable (fun o member => ?_) isAmount offsets height⟩
  · intro none
    have length := congrArg List.length (ring.outputs.symm.trans none)
    rw [List.length_map, ring.length, List.length_nil] at length
    cases length
  · rw [ring.outputs, List.map_map]
    intro outKey member
    obtain ⟨o, isOut, rfl⟩ := List.mem_map.mp member
    obtain ⟨out, entry, txOut, outtk, _, isEntry, isTxOut, isKey, same, _⟩ := acceptable o isOut
    exact ⟨out.txId, entry, txOut, outtk, isEntry, List.mem_of_getElem? isTxOut, isKey, same⟩
  · obtain ⟨_, _, _, _, isOut, _⟩ := acceptable o member
    obtain ⟨below, _⟩ := List.getElem?_eq_some_iff.mp isOut
    exact below.trans_le bounded

theorem goodSources {fakeOutputsCount : Nat} {selected : List Wallet.TransferDetails}
    {outs : List (List OutEntry)} {sources : List TxSourceEntry}
    (bounded : ∀ amount, chain.db.outputs.getItemSize amount ≤ 2 ^ 64)
    (owned : ∀ td ∈ selected, Owned chain fakeOutputsCount td)
    (positive : 0 < fakeOutputsCount)
    (many : ∀ amountOuts ∈ outs, fakeOutputsCount + 1 ≤ amountOuts.length)
    (offered : List.Forall₂ (fun (td : Wallet.TransferDetails) outs =>
      Offered (chain.addOutToGetRandomOuts td.amount (fakeOutputsCount + 1) false)
        (chain.findEndOfAllowedIndex td.amount) (fakeOutputsCount + 1) outs) selected outs)
    (prepared : (selected.zip outs).mapM (fun entry =>
      prepareTxSource fakeOutputsCount entry.1 entry.2) = some sources) :
    List.Forall₂ (GoodSource chain fakeOutputsCount) selected sources := by
  induction offered generalizing sources with
  | nil =>
    cases prepared
    exact .nil
  | cons first _ ih =>
    simp only [List.zip_cons_cons, List.mapM_cons, Option.bind_eq_bind, Option.bind_eq_some_iff,
      Option.pure_def, Option.some.injEq] at prepared
    obtain ⟨source, isSource, rest, isRest, rfl⟩ := prepared
    refine .cons ?_ (ih (fun td member => owned td (.tail _ member))
      (fun amountOuts member => many amountOuts (.tail _ member)) isRest)
    exact prepareTxSource_good (bounded _) (owned _ (.head _)) first.distinct
      (fun o member => (acceptable_of_added (first.offered o member).2).2)
      (.inr ⟨positive, many _ (.head _)⟩) isSource

theorem preparedSources_good {fakeOutputsCount : Nat} {selected : List Wallet.TransferDetails}
    {draws : List Nat} {sources : List TxSourceEntry}
    (bounded : ∀ amount, chain.db.outputs.getItemSize amount ≤ 2 ^ 64)
    (owned : ∀ td ∈ selected, Owned chain fakeOutputsCount td)
    (prepared : prepareTxSources fakeOutputsCount selected (fun amounts count =>
      chain.getRandomOutsForAmounts count false draws amounts) = some sources) :
    List.Forall₂ (GoodSource chain fakeOutputsCount) selected sources := by
  unfold prepareTxSources at prepared
  split at prepared
  · next zero =>
    have each := forall₂_of_mapM prepared
    clear prepared
    induction each with
    | nil => exact .nil
    | cons first _ ih =>
      refine .cons ?_ (ih fun td member => owned td (.tail _ member))
      refine prepareTxSource_good (bounded _) (owned _ (.head _)) ?_ ?_ (.inl ⟨zero, rfl⟩) first
      · exact List.nodup_nil
      · exact fun _ member => absurd member List.not_mem_nil
  · next positive =>
    obtain ⟨outs, offers, prepared⟩ := Option.bind_eq_some_iff.mp prepared
    split at prepared
    · cases prepared
    split at prepared
    · cases prepared
    next plenty =>
    have many : ∀ amountOuts ∈ outs, fakeOutputsCount + 1 ≤ amountOuts.length := by
      intro amountOuts member
      by_contra few
      exact plenty (List.any_eq_true.mpr ⟨amountOuts, member, decide_eq_true (not_le.mp few)⟩)
    exact goodSources bounded owned (Nat.pos_of_ne_zero positive) many
      (List.forall₂_map_left_iff.mp (offersForAmounts offers)) prepared

/-- The sources that a wallet makes of what a node offers, whatever the node draws, are good, one
for each transfer, if the node would take the outputs of the wallet themselves. -/
theorem prepareTxSources_good {fakeOutputsCount : Nat} {selected : List Wallet.TransferDetails}
    {draws : List Nat} {sources : List TxSourceEntry}
    (bounded : ∀ amount, chain.db.outputs.getItemSize amount ≤ 2 ^ 64)
    (owned : ∀ td ∈ selected, Owned chain fakeOutputsCount td)
    (prepared : prepareTxSources fakeOutputsCount selected (fun amounts count =>
      chain.getRandomOutsForAmounts count false draws amounts) = some sources) :
    sources.length = selected.length ∧ ∀ (i : Nat) td source, selected[i]? = some td →
      sources[i]? = some source → GoodSource chain fakeOutputsCount td source := by
  have each := preparedSources_good bounded owned prepared
  exact ⟨each.length_eq.symm, fun i td source isTd isSource =>
    forall₂_getElem? each isTd isSource⟩

end Rings

namespace ThreeOutputs

def tx : Transaction :=
  { (default : Transaction) with
    vout := [⟨5, .toKey ⟨⟨21⟩, 0⟩⟩, ⟨5, .toKey ⟨⟨22⟩, 0⟩⟩, ⟨5, .toKey ⟨⟨23⟩, 0⟩⟩] }

/-- Three outputs of one amount, old enough to be mixed with. -/
def chain : Chain :=
  { db :=
    { blocks := List.replicate 10 default
      transactions := (∅ : Container Hash TransactionChainEntry).set ⟨7⟩
        ⟨tx, 0, [0, 1, 2], [false, false, false]⟩
      outputs := (((∅ : ArrayContainer Nat GlobalOutputEntry).pushBackItem 5 ⟨⟨7⟩, 0⟩).pushBackItem
        5 ⟨⟨7⟩, 1⟩).pushBackItem 5 ⟨⟨7⟩, 2⟩ } }

def transfer : Wallet.TransferDetails :=
  { (default : Wallet.TransferDetails) with
    ptxWalletInfo := ⟨0, 0, tx⟩
    internalOutputIndex := 1
    globalOutputIndex := 1 }

theorem chain_bounded (amount : Nat) : chain.db.outputs.getItemSize amount ≤ 2 ^ 64 := by
  unfold ArrayContainer.getItemSize
  change (ArrayContainer.items (ArrayContainer.pushBackItem _ _ _) amount).length ≤ _
  simp only [ArrayContainer.items_pushBackItem]
  split <;> simp

theorem transfer_owned : Owned chain 1 transfer := by
  intro out outtk isOut isKey
  cases isOut
  cases isKey
  exact ⟨⟨⟨7⟩, 1⟩, ⟨tx, 0, [0, 1, 2], [false, false, false]⟩, ⟨5, .toKey ⟨⟨22⟩, 0⟩⟩, ⟨⟨22⟩, 0⟩,
    by decide +kernel, by decide +kernel, rfl, rfl, rfl, by decide +kernel, by decide +kernel⟩

/-- The node draws the outputs 2 and 1, and the wallet makes a ring of two. -/
theorem prepareTxSources_good_three : ∃ sources,
    prepareTxSources 1 [transfer] (fun amounts count =>
      chain.getRandomOutsForAmounts count false [2, 1, 0] amounts) = some sources ∧
    sources.length = 1 ∧ ∀ (i : Nat) td source, [transfer][i]? = some td →
      sources[i]? = some source → GoodSource chain 1 td source := by
  have prepared : (prepareTxSources 1 [transfer] (fun amounts count =>
      chain.getRandomOutsForAmounts count false [2, 1, 0] amounts)).isSome := by decide +kernel
  obtain ⟨sources, isSources⟩ := Option.isSome_iff_exists.mp prepared
  refine ⟨sources, isSources, prepareTxSources_good chain_bounded ?_ isSources⟩
  intro td member
  rw [List.mem_singleton.mp member]
  exact transfer_owned

end ThreeOutputs
end Virie
