import Virie.Chainstate.Switching

/-! # The books about alternative blocks

Beside the stored alternative blocks the storage keeps two tables: the blocks that spend a
key image and the number of blocks that list a transaction. Storing a block enters the key
images that its validation collected. Erasing a block collects them again from the
transactions that the node still finds, so that the tables stay exact when it finds them
all. -/

open Foundation

namespace Virie

/-! ## Exact books -/

section Exact

/-- The key images a block spends, given what the ids of its transactions stand for. -/
def spentBy (images : Hash → List KeyImage) (b : Block) : List KeyImage :=
  (if isPosBlock b then ((coinstakeInput b).map TxinToKey.kImage).toList else []) ++
    b.txHashes.flatMap images

/-- The recorded blocks under a key image. -/
def spenders (heap : Container KeyImage (List Hash)) (ki : KeyImage) : List Hash :=
  (heap.get ki).getD []

/-- The number of stored blocks that list a transaction. -/
def listings (stored : Container Hash AltBlockExtendedInfo) (txId : Hash) : Nat :=
  stored.count fun _ entry => entry.bl.txHashes.contains txId

/-- The table of key images names every stored block that spends an image once, and nothing
else. -/
structure KeyimagesExact (images : Hash → List KeyImage)
    (stored : Container Hash AltBlockExtendedInfo) (heap : Container KeyImage (List Hash)) :
    Prop where
  once : ∀ ki, (spenders heap ki).Nodup
  spends : ∀ ki id, id ∈ spenders heap ki ↔
    ∃ entry, stored.get id = some entry ∧ ki ∈ spentBy images entry.bl
  nonempty : ∀ ki, heap.get ki ≠ some []

/-- The table of transactions counts the stored blocks that list each of them. -/
structure ListingsExact (stored : Container Hash AltBlockExtendedInfo)
    (counts : Container Hash Nat) : Prop where
  counted : ∀ txId, (counts.get txId).getD 0 = listings stored txId
  positive : ∀ txId, counts.get txId ≠ some 0

/-- Both tables are exact. -/
structure BooksExact (images : Hash → List KeyImage) (chain : Chain) : Prop where
  keyimages : KeyimagesExact images chain.alternativeChains chain.altblocksKeyimages
  counts : ListingsExact chain.alternativeChains chain.alternativeChainsTxs

end Exact

open Procedure

section Books

variable {E : Env} {images : Hash → List KeyImage} {node node' : Node}

/-! ## The table of key images -/

theorem appendAltblockKeyimages_get {id : Hash} {keyimages : List KeyImage}
    (distinct : keyimages.Nodup) (heap : Container KeyImage (List Hash)) (ki : KeyImage) :
    (appendAltblockKeyimagesToBigHeap id keyimages heap).get ki =
      if ki ∈ keyimages then some (spenders heap ki ++ [id]) else heap.get ki := by
  unfold appendAltblockKeyimagesToBigHeap
  induction keyimages generalizing heap with
  | nil => rfl
  | cons first rest ih =>
    obtain ⟨unique, others⟩ := List.nodup_cons.mp distinct
    rw [List.foldl_cons, ih others]
    unfold spenders
    rw [Container.get_modify]
    by_cases here : first = ki
    · subst here
      rw [if_neg unique, if_pos rfl, if_pos List.mem_cons_self]
    · rw [if_neg here]
      by_cases later : ki ∈ rest
      · rw [if_pos later, if_pos (List.mem_cons_of_mem _ later)]
      · rw [if_neg later, if_neg (List.not_mem_cons_of_ne_of_not_mem (Ne.symm here) later)]

/-- Dropping a record removes one occurrence of the block under the key image. -/
theorem spenders_purgeKeyimage (ki : KeyImage) (id : Hash) (heap : Container KeyImage (List Hash))
    (other : KeyImage) : spenders (purgeKeyimageFromBigHeap ki id heap) other =
      if ki = other then (spenders heap other).erase id else spenders heap other := by
  unfold purgeKeyimageFromBigHeap spenders
  by_cases here : ki = other
  · subst here
    rw [if_pos rfl]
    cases found : heap.get ki with
    | none => simp [found]
    | some ids =>
      dsimp only
      by_cases last : (ids.erase id).isEmpty = true
      · rw [if_pos last, Container.get_erase_self, Option.getD_some,
          List.isEmpty_iff.mp last]
        rfl
      · rw [if_neg last, Container.get_set_self]
        rfl
  · rw [if_neg here]
    cases heap.get ki with
    | none => rfl
    | some ids =>
      dsimp only
      split
      · rw [Container.get_erase_of_ne _ here]
      · rw [Container.get_set_of_ne _ _ here]

theorem purgeKeyimage_nonempty {heap : Container KeyImage (List Hash)}
    (nonempty : ∀ ki, heap.get ki ≠ some []) (ki : KeyImage) (id : Hash) (other : KeyImage) :
    (purgeKeyimageFromBigHeap ki id heap).get other ≠ some [] := by
  unfold purgeKeyimageFromBigHeap
  cases found : heap.get ki with
  | none => exact nonempty other
  | some ids =>
    dsimp only
    split
    · rw [Container.get_erase]
      split
      · simp
      · exact nonempty other
    · next full =>
      rw [Container.get_set]
      split
      · intro same
        exact full (List.isEmpty_iff.mpr (Option.some.inj same))
      · exact nonempty other

/-- Purging a block drops its record under every listed key image. -/
theorem spenders_purge {id : Hash} (keyimages : List KeyImage)
    {heap : Container KeyImage (List Hash)} (once : ∀ ki, (spenders heap ki).Nodup) (ki : KeyImage) :
    spenders (keyimages.foldl (fun heap ki => purgeKeyimageFromBigHeap ki id heap) heap) ki =
      if ki ∈ keyimages then (spenders heap ki).erase id else spenders heap ki := by
  induction keyimages generalizing heap with
  | nil => rfl
  | cons first rest ih =>
    have still : ∀ other, (spenders (purgeKeyimageFromBigHeap first id heap) other).Nodup := by
      intro other
      rw [spenders_purgeKeyimage]
      split
      · exact (once other).erase id
      · exact once other
    rw [List.foldl_cons, ih still, spenders_purgeKeyimage]
    by_cases here : first = ki
    · subst here
      rw [if_pos rfl, if_pos List.mem_cons_self]
      split
      · apply List.erase_of_not_mem
        exact (once first).not_mem_erase
      · rfl
    · rw [if_neg here]
      by_cases later : ki ∈ rest
      · rw [if_pos later, if_pos (List.mem_cons_of_mem _ later)]
      · rw [if_neg later, if_neg (List.not_mem_cons_of_ne_of_not_mem (Ne.symm here) later)]

theorem purge_nonempty {id : Hash} (keyimages : List KeyImage)
    {heap : Container KeyImage (List Hash)} (nonempty : ∀ ki, heap.get ki ≠ some [])
    (ki : KeyImage) :
    (keyimages.foldl (fun heap ki => purgeKeyimageFromBigHeap ki id heap) heap).get ki ≠
      some [] := by
  induction keyimages generalizing heap with
  | nil => exact nonempty ki
  | cons first rest ih => exact ih (purgeKeyimage_nonempty nonempty first id)

/-! ## The table of transactions -/

theorem addAltBlockTxsHashs_get (txIds : List Hash) (counts : Container Hash Nat) (txId : Hash) :
    ((txIds.foldl (fun counts h => counts.modify h 0 (· + 1)) counts).get txId).getD 0 =
      (counts.get txId).getD 0 + txIds.count txId := by
  induction txIds generalizing counts with
  | nil => rfl
  | cons first rest ih =>
    rw [List.foldl_cons, ih, Container.get_modify, List.count_cons]
    by_cases here : first = txId
    · subst here
      rw [if_pos rfl, Option.getD_some, if_pos (beq_self_eq_true first)]
      omega
    · rw [if_neg here, if_neg (by simpa using here), Nat.add_zero]

theorem addAltBlockTxsHashs_positive (txIds : List Hash) {counts : Container Hash Nat}
    (positive : ∀ txId, counts.get txId ≠ some 0) (txId : Hash) :
    (txIds.foldl (fun counts h => counts.modify h 0 (· + 1)) counts).get txId ≠ some 0 := by
  induction txIds generalizing counts with
  | nil => exact positive txId
  | cons first rest ih =>
    apply ih
    intro other
    rw [Container.get_modify]
    split
    · simp
    · exact positive other

/-- One listing less; a counter that reaches zero is dropped. -/
def dropListing (counts : Container Hash Nat) (h : Hash) : Container Hash Nat :=
  match counts.get h with
  | none => counts
  | some count => if count - 1 = 0 then counts.erase h else counts.set h (count - 1)

theorem dropListing_get (counts : Container Hash Nat) (h txId : Hash) :
    ((dropListing counts h).get txId).getD 0 =
      (counts.get txId).getD 0 - if h = txId then 1 else 0 := by
  unfold dropListing
  by_cases here : h = txId
  · subst here
    rw [if_pos rfl]
    cases found : counts.get h with
    | none => simp [found]
    | some count =>
      dsimp only
      split
      · next last => rw [Container.get_erase_self, Option.getD_some, last, Option.getD_none]
      · rw [Container.get_set_self, Option.getD_some, Option.getD_some]
  · rw [if_neg here, Nat.sub_zero]
    cases counts.get h with
    | none => rfl
    | some count =>
      dsimp only
      split
      · rw [Container.get_erase_of_ne _ here]
      · rw [Container.get_set_of_ne _ _ here]

theorem dropListing_positive {counts : Container Hash Nat}
    (positive : ∀ txId, counts.get txId ≠ some 0) (h txId : Hash) :
    (dropListing counts h).get txId ≠ some 0 := by
  unfold dropListing
  cases counts.get h with
  | none => exact positive txId
  | some count =>
    dsimp only
    split
    · rw [Container.get_erase]
      split
      · simp
      · exact positive txId
    · next more =>
      rw [Container.get_set]
      split
      · intro same
        exact more (Option.some.inj same)
      · exact positive txId

theorem purgeAltBlockTxsHashs_get (b : Block) (counts : Container Hash Nat) (txId : Hash) :
    ((purgeAltBlockTxsHashs b counts).get txId).getD 0 =
      (counts.get txId).getD 0 - b.txHashes.count txId := by
  change ((b.txHashes.foldl dropListing counts).get txId).getD 0 = _
  induction b.txHashes generalizing counts with
  | nil => rfl
  | cons first rest ih =>
    rw [List.foldl_cons, ih, dropListing_get, List.count_cons]
    by_cases here : first = txId
    · subst here
      rw [if_pos rfl, if_pos (beq_self_eq_true first)]
      omega
    · rw [if_neg here, if_neg (by simpa using here)]
      omega

theorem purgeAltBlockTxsHashs_positive (b : Block) {counts : Container Hash Nat}
    (positive : ∀ txId, counts.get txId ≠ some 0) (txId : Hash) :
    (purgeAltBlockTxsHashs b counts).get txId ≠ some 0 := by
  change (b.txHashes.foldl dropListing counts).get txId ≠ some 0
  induction b.txHashes generalizing counts with
  | nil => exact positive txId
  | cons first rest ih => exact ih (dropListing_positive positive first)

/-! ## Storing a block -/

/-- A checked input adds its key image to the collected ones. -/
theorem validateAltBlockInput_collected {chain : Chain} {splitHeight : Nat} {altChain : AltChain}
    {id : Hash} {tx : Transaction} {collected result : KeySet KeyImage} {txId : Hash} {n : Nat}
    {input : TxinToKey} {sigs : List Signature} {before after : Nat}
    (run : validateAltBlockInput E chain splitHeight altChain id tx collected txId n input sigs
      before = .ok result after) : result = collected.insert input.kImage := by
  simp only [validateAltBlockInput, bind_ok, pure_ok] at run
  obtain ⟨_, _, _, _, _, _, _, _, _, rfl, _⟩ := run
  rfl

theorem validateAltTxInputsFrom_collected {splitHeight : Nat} {altChain : AltChain} {id : Hash}
    {tx : Transaction} {txId : Hash} {n : Nat} {collected result : KeySet KeyImage}
    {vin : List Txin}
    (run : validateAltTxInputsFrom E node splitHeight altChain id tx txId n collected vin =
      .ok result) (ki : KeyImage) :
    result.contains ki = true ↔
      collected.contains ki = true ∨ ki ∈ vin.filterMap Txin.spentKeyImage := by
  induction vin generalizing n collected with
  | nil =>
    cases run
    simp
  | cons input rest ih =>
    cases input with
    | gen height => cases run
    | toKey input =>
      simp only [validateAltTxInputsFrom] at run
      split at run
      · cases run
      · next checked =>
        rw [ih run, validateAltBlockInput_collected checked, KeySet.contains_insert,
          List.filterMap_cons]
        simp only [Txin.spentKeyImage, Bool.or_eq_true, decide_eq_true_eq, List.mem_cons]
        rw [or_assoc, or_left_comm, @eq_comm _ input.kImage]
    | multisig input =>
      simp only [validateAltTxInputsFrom, Outcome.bind_ok] at run
      obtain ⟨_, _, run⟩ := run
      rw [ih run]
      simp [Txin.spentKeyImage]

/-- What the ids of transactions stand for: a transaction that the node finds under an id has
the key images of the id. -/
theorem getTransaction_images (determined : ∀ tx : TransactionPrefix,
      images (getTransactionHash E tx) = tx.keyImages)
    (sound : NodeSound E (fun _ => True) node) {txId : Hash} {height : Nat} {tx : Transaction}
    (found : node.getTransactionFromPoolOrDb txId height = some tx) :
    tx.keyImages = images txId := by
  unfold Node.getTransactionFromPoolOrDb at found
  cases pooled : node.pool.transactions.get txId with
  | some details =>
    rw [pooled] at found
    cases found
    rw [(sound.pool txId details pooled).1, determined]
  | none =>
    rw [pooled] at found
    obtain ⟨entry, stored, found⟩ := Option.bind_eq_some_iff.mp found
    split at found
    · cases found
      rw [(sound.txs txId entry stored).1, determined]
    · cases found

theorem validateAltTxs_collected (determined : ∀ tx : TransactionPrefix,
      images (getTransactionHash E tx) = tx.keyImages)
    (sound : NodeSound E (fun _ => True) node) {splitHeight : Nat} {altChain : AltChain}
    {id : Hash} {collected result : KeySet KeyImage} {abei after : AltBlockExtendedInfo}
    {txIds : List Hash}
    (run : validateAltTxs E node splitHeight altChain id collected abei txIds =
      .ok (result, after)) (ki : KeyImage) :
    result.contains ki = true ↔ collected.contains ki = true ∨ ki ∈ txIds.flatMap images := by
  induction txIds generalizing collected abei with
  | nil =>
    cases run
    simp
  | cons txId rest ih =>
    simp only [validateAltTxs, Outcome.bind_ok] at run
    obtain ⟨⟨middle, tx⟩, checked, run⟩ := run
    simp only [validateAltTx, Outcome.bind_ok, Outcome.demand_ok, Outcome.pure_ok,
      Prod.mk.injEq] at checked
    obtain ⟨_, found, _, _, _, inputs, rfl, rfl⟩ := checked
    have spent : _ = images txId := getTransaction_images determined sound found
    rw [ih run, validateAltTxInputsFrom_collected inputs, List.flatMap_cons, List.mem_append,
      ← spent, or_assoc]
    rfl

theorem validateAltBlockTxs_collected (determined : ∀ tx : TransactionPrefix,
      images (getTransactionHash E tx) = tx.keyImages)
    (sound : NodeSound E (fun _ => True) node) {splitHeight : Nat} {altChain : AltChain}
    {id : Hash} {bl : Block} {result : KeySet KeyImage} {abei after : AltBlockExtendedInfo}
    (run : validateAltBlockTxs E node splitHeight altChain id bl abei = .ok (result, after))
    (ki : KeyImage) : result.contains ki = true ↔ ki ∈ spentBy images bl := by
  simp only [validateAltBlockTxs, Outcome.bind_ok] at run
  obtain ⟨_, _, staked, stake, run⟩ := run
  rw [validateAltTxs_collected determined sound run, spentBy, List.mem_append]
  refine or_congr_left ?_
  unfold validateAltStake at stake
  cases pos : isPosBlock bl with
  | false =>
    rw [pos] at stake
    cases stake
    simp [KeySet.contains, Container.has]
  | true =>
    simp only [pos, Bool.not_true, Bool.false_eq_true, ↓reduceIte, Outcome.bind_ok,
      Outcome.demand_ok] at stake ⊢
    obtain ⟨_, _, input, staked, stake⟩ := stake
    rw [staked]
    split at stake
    · cases stake
    · next checked =>
      simp only [Outcome.bind_ok, Outcome.pure_ok] at stake
      obtain ⟨_, _, rfl⟩ := stake
      rw [validateAltBlockInput_collected checked, KeySet.contains_insert]
      simp [KeySet.contains, Container.has, eq_comm]

/-! ## Exact books stay exact -/

theorem listings_set {stored : Container Hash AltBlockExtendedInfo} {id : Hash}
    (fresh : stored.get id = none) (entry : AltBlockExtendedInfo) (txId : Hash) :
    listings (stored.set id entry) txId =
      listings stored txId + if entry.bl.txHashes.contains txId then 1 else 0 :=
  stored.count_set_of_none entry fresh _

theorem listings_erase {stored : Container Hash AltBlockExtendedInfo} {id : Hash}
    {entry : AltBlockExtendedInfo} (found : stored.get id = some entry) (txId : Hash) :
    listings stored txId =
      listings (stored.erase id) txId + if entry.bl.txHashes.contains txId then 1 else 0 :=
  stored.count_erase_of_some found _

/-- A list without repetitions lists a transaction once or not at all. -/
theorem count_eq_of_nodup {txIds : List Hash} (distinct : txIds.Nodup) (txId : Hash) :
    txIds.count txId = if txIds.contains txId then 1 else 0 := by
  rw [List.Nodup.count distinct]
  simp only [List.contains_iff_mem]

/-- Storing a fresh block with the key images it spends keeps the books exact. -/
theorem BooksExact.store {chain : Chain} (books : BooksExact images chain) {id : Hash}
    {accepted : AltAcceptance} (fresh : chain.alternativeChains.get id = none)
    (distinct : accepted.entry.bl.txHashes.Nodup)
    (collected : ∀ ki, accepted.keyimages.contains ki = true ↔ ki ∈ spentBy images accepted.entry.bl) :
    BooksExact images (storeAltBlock id accepted chain) := by
  have unrecorded : ∀ ki, id ∉ spenders chain.altblocksKeyimages ki := by
    intro ki member
    obtain ⟨entry, found, _⟩ := (books.keyimages.spends ki id).mp member
    cases fresh.symm.trans found
  have listed : ∀ ki, ki ∈ accepted.keyimages.toList.map Prod.fst ↔
      ki ∈ spentBy images accepted.entry.bl := by
    intro ki
    rw [← collected, KeySet.contains, Container.has_iff, List.mem_map]
    constructor
    · rintro ⟨⟨other, _⟩, member, rfl⟩
      exact ⟨(), (Container.mem_toList _ _ _).mp member⟩
    · rintro ⟨value, found⟩
      exact ⟨(ki, value), (Container.mem_toList _ _ _).mpr found, rfl⟩
  have recorded : ∀ ki, spenders (storeAltBlock id accepted chain).altblocksKeyimages ki =
      if ki ∈ spentBy images accepted.entry.bl then spenders chain.altblocksKeyimages ki ++ [id]
      else spenders chain.altblocksKeyimages ki := by
    intro ki
    change ((appendAltblockKeyimagesToBigHeap id _ _).get ki).getD [] = _
    rw [appendAltblockKeyimages_get (Container.nodup_keys _)]
    simp only [listed]
    split
    · rfl
    · rfl
  refine ⟨⟨fun ki => ?_, fun ki other => ?_, fun ki => ?_⟩, ⟨fun txId => ?_, ?_⟩⟩
  · rw [recorded]
    split
    · exact List.nodup_append.mpr ⟨books.keyimages.once ki, List.nodup_singleton id,
        fun a here b last => by
          rw [List.mem_singleton.mp last]
          exact fun same => unrecorded ki (same ▸ here)⟩
    · exact books.keyimages.once ki
  · change other ∈ spenders (storeAltBlock id accepted chain).altblocksKeyimages ki ↔
      ∃ entry, (chain.alternativeChains.set id accepted.entry).get other = some entry ∧ _
    rw [recorded, Container.get_set]
    by_cases own : id = other
    · subst own
      rw [if_pos rfl]
      simp only [Option.some.injEq, exists_eq_left']
      split
      · next spent => simp [spent]
      · next spent => simp [spent, unrecorded]
    · rw [if_neg own, ← books.keyimages.spends]
      split
      · simp [Ne.symm own]
      · exact Iff.rfl
  · change (appendAltblockKeyimagesToBigHeap id _ _).get ki ≠ some []
    rw [appendAltblockKeyimages_get (Container.nodup_keys _)]
    split
    · simp
    · exact books.keyimages.nonempty ki
  · change ((addAltBlockTxsHashs accepted.entry.bl chain.alternativeChainsTxs).get txId).getD 0 =
      listings (chain.alternativeChains.set id accepted.entry) txId
    rw [addAltBlockTxsHashs, addAltBlockTxsHashs_get, books.counts.counted,
      listings_set fresh, count_eq_of_nodup distinct]
  · exact addAltBlockTxsHashs_positive _ books.counts.positive

/-- Every transaction of a block that spends something is found, in the pool or in the chain. -/
def TransactionsFound (images : Hash → List KeyImage) (node : Node) (b : Block) : Prop :=
  ∀ txId ∈ b.txHashes, images txId ≠ [] → node.getTransactionFromPoolOrDb txId 0 ≠ none

/-- A block whose transactions are found is purged under the key images it spends. -/
theorem altBlockKeyimages_eq (determined : ∀ tx : TransactionPrefix,
      images (getTransactionHash E tx) = tx.keyImages)
    (sound : NodeSound E (fun _ => True) node) {b : Block}
    (found : TransactionsFound images node b) : node.altBlockKeyimages b = spentBy images b := by
  unfold Node.altBlockKeyimages spentBy
  congr 1
  apply List.flatMap_congr
  intro txId member
  cases held : node.getTransactionFromPoolOrDb txId 0 with
  | some tx => exact getTransaction_images determined sound held
  | none =>
    by_contra spends
    exact found txId member (Ne.symm spends) held

/-- Erasing a stored block whose transactions are found keeps the books exact. -/
theorem BooksExact.erase (determined : ∀ tx : TransactionPrefix,
      images (getTransactionHash E tx) = tx.keyImages)
    (sound : NodeSound E (fun _ => True) node) (books : BooksExact images node.chain) {id : Hash}
    {entry : AltBlockExtendedInfo} (stored : node.chain.alternativeChains.get id = some entry)
    (named : id = getBlockHash E entry.bl) (distinct : entry.bl.txHashes.Nodup)
    (found : TransactionsFound images node entry.bl) :
    BooksExact images (doEraseAltblock E id entry.bl node).chain := by
  have recorded : ∀ ki,
      spenders (doEraseAltblock E id entry.bl node).chain.altblocksKeyimages ki =
        if ki ∈ spentBy images entry.bl then (spenders node.chain.altblocksKeyimages ki).erase id
        else spenders node.chain.altblocksKeyimages ki := by
    intro ki
    change spenders ((node.altBlockKeyimages entry.bl).foldl (fun heap ki =>
      purgeKeyimageFromBigHeap ki (getBlockHash E entry.bl) heap) _) ki = _
    rw [altBlockKeyimages_eq determined sound found, ← named,
      spenders_purge _ books.keyimages.once]
  refine ⟨⟨fun ki => ?_, fun ki other => ?_, fun ki => ?_⟩, ⟨fun txId => ?_, ?_⟩⟩
  · rw [recorded]
    split
    · exact (books.keyimages.once ki).erase id
    · exact books.keyimages.once ki
  · change other ∈ spenders (doEraseAltblock E id entry.bl node).chain.altblocksKeyimages ki ↔
      ∃ found, (node.chain.alternativeChains.erase id).get other = some found ∧ _
    rw [recorded, Container.get_erase]
    by_cases own : id = other
    · subst own
      rw [if_pos rfl]
      simp only [reduceCtorEq, false_and, exists_false, iff_false]
      split
      · exact (books.keyimages.once ki).not_mem_erase
      · next unspent =>
        intro member
        obtain ⟨other, here, spends⟩ := (books.keyimages.spends ki id).mp member
        cases stored.symm.trans here
        exact unspent spends
    · rw [if_neg own, ← books.keyimages.spends]
      split
      · exact List.mem_erase_of_ne (Ne.symm own)
      · exact Iff.rfl
  · exact purge_nonempty _ books.keyimages.nonempty ki
  · change ((purgeAltBlockTxsHashs entry.bl node.chain.alternativeChainsTxs).get txId).getD 0 =
      listings (node.chain.alternativeChains.erase id) txId
    rw [purgeAltBlockTxsHashs_get, books.counts.counted, count_eq_of_nodup distinct,
      listings_erase stored]
    omega
  · exact purgeAltBlockTxsHashs_positive _ books.counts.positive

end Books
end Virie
