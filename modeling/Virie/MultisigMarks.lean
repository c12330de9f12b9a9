import Virie.Foundation.Runs
import Virie.Wallet.PoolScan

/-! # Multisig outputs that the pool spends

A scan marks the multisig outputs that new transactions of the pool spend, and remembers them
until the next scan, which clears the marks of those that are gone. A transaction that was in the
pool of two scans is known, and its outputs are forgotten: when it leaves the pool without a
block, the marks stay. -/

open Foundation Foundation.Procedure

namespace Virie.Wallet

/-! ## What always holds -/

/-- The remembered outputs are marked, a spent height comes from a block, and transactions of the
pool are kept under their hashes. -/
structure Sound (W : WalletEnv) (spentInBlocks : List Hash) (w : Wallet) : Prop where
  remembered : ∀ id ∈ w.unconfirmedMultisigTransfers,
    ∃ td, w.multisigTransfers.get id = some td ∧ td.flags.spent = true
  heights : ∀ id td, w.multisigTransfers.get id = some td → td.spentHeight ≠ 0 →
    id ∈ spentInBlocks
  named : ∀ txHash tx, w.unconfirmedInTransfers.get txHash = some tx →
    getTransactionHash W.core tx.toTransactionPrefix = txHash

section Sound

variable {W : WalletEnv} {C D : List Hash} {w w' : Wallet} {id : Hash}

theorem Sound.mono (sound : Sound W C w) (more : C ⊆ D) : Sound W D w :=
  ⟨sound.remembered, fun id td found height => more (sound.heights id td found height),
    sound.named⟩

theorem Sound.ofEscrowPart : OfEscrowPart (Sound W C) := by
  intro w w' sound same
  have transfers : w'.multisigTransfers = w.multisigTransfers :=
    congrArg EscrowPart.multisigTransfers same
  have unconfirmed : w'.unconfirmedMultisigTransfers = w.unconfirmedMultisigTransfers :=
    congrArg EscrowPart.unconfirmedMultisigTransfers same
  have inTransfers : w'.unconfirmedInTransfers = w.unconfirmedInTransfers :=
    congrArg EscrowPart.unconfirmedInTransfers same
  refine ⟨?_, ?_, ?_⟩
  · rw [transfers, unconfirmed]
    exact sound.remembered
  · rw [transfers]
    exact sound.heights
  · rw [inTransfers]
    exact sound.named

theorem Sound.kept : EscrowKept W (Sound W C) :=
  Sound.ofEscrowPart.kept fun _ _ sound => ⟨sound.remembered, sound.heights, sound.named⟩

/-- A multisig output is marked as spent, by a block or by the pool. -/
theorem Sound.mark (sound : Sound W C w) {td : TransferDetailsBase}
    (marked : td.flags.spent = true) (height : td.spentHeight ≠ 0 → id ∈ C) :
    Sound W C { w with multisigTransfers := w.multisigTransfers.set id td } := by
  refine ⟨fun other member => ?_, fun other found present high => ?_, sound.named⟩
  · dsimp only
    rw [Container.get_set]
    split
    · exact ⟨td, rfl, marked⟩
    · exact sound.remembered other member
  · dsimp only at present
    rw [Container.get_set] at present
    split at present
    · next same =>
      obtain rfl := Option.some.inj present
      exact same ▸ height high
    · exact sound.heights other found present high

theorem Sound.receive (sound : Sound W C w) (info : TransactionWalletInfo) (o : Nat) :
    Sound W C (receiveMultisig W info o w) := by
  unfold receiveMultisig
  refine ⟨fun other member => ?_, fun other found present high => ?_, sound.named⟩
  · obtain ⟨td, present, marked⟩ := sound.remembered other member
    dsimp only
    rw [Container.get_modify]
    split
    · next same =>
      rw [same, present, Option.getD_some]
      exact ⟨_, rfl, marked⟩
    · exact ⟨td, present, marked⟩
  · dsimp only at present
    rw [Container.get_modify] at present
    split at present
    · next same =>
      obtain rfl := Option.some.inj present
      dsimp only at high
      cases before : w.multisigTransfers.get
          (getMultisigOutId W.core info.tx.toTransactionPrefix o) with
      | none =>
        rw [before, Option.getD_none] at high
        exact absurd rfl high
      | some td =>
        rw [before, Option.getD_some] at high
        exact sound.heights other td (same ▸ before) high
    · exact sound.heights other found present high

/-- The multisig outputs that the transactions of a block spend. -/
def BlockEntry.multisigSpends (entry : BlockEntry) : List Hash :=
  entry.delivered.flatMap fun delivered => delivered.tx.multisigInputIds

theorem Sound.addBlock {entry : BlockEntry} {height : Nat} :
    Preserves (Sound W (C ++ entry.multisigSpends)) (addBlock W entry height) := by
  refine Sound.kept.addBlock ?_ fun _ o _ w _ _ _ _ sound => sound.receive _ o
  intro delivered coinBaseTx i progress input _ member inside
  refine preserves_get_bind fun w sound => ?_
  split
  · exact preserves_pure progress
  · next td found =>
    refine preserves_bind (preserves_set (sound.mark ?_ fun _ => ?_)) fun _ => preserves_pure _
    · simp only [TransferFlags.add, TransferFlags.flagSpent, Bool.or_true]
    · refine List.mem_append_right _ (List.mem_flatMap.mpr ⟨delivered, member, ?_⟩)
      exact mem_multisigInputIds inside

end Sound

/-! ## A scan -/

section Scans

variable {W : WalletEnv} {C ids more : List Hash} {w w' w'' : Wallet}

/-- Some multisig outputs were found spent by new transactions of the pool. -/
structure Scanned (ids : List Hash) (w w' : Wallet) : Prop where
  unconfirmed : w'.unconfirmedMultisigTransfers = w.unconfirmedMultisigTransfers
  marks : ∀ id, w'.multisigTransfers.get id = (w.multisigTransfers.get id).map fun td =>
    if id ∈ ids ∧ id ∉ w.unconfirmedMultisigTransfers then markUnconfirmed td else td

/-- The outputs found so far, after more were looked up. -/
def Finds (found : List Hash) (ids : List Hash) (w : Wallet) (finds : List Hash) : Prop :=
  ∀ id, id ∈ finds ↔ id ∈ found ∨ id ∈ ids ∧ (w.multisigTransfers.get id).isSome = true

theorem markUnconfirmed_twice (td : TransferDetailsBase) :
    markUnconfirmed (markUnconfirmed td) = markUnconfirmed td := by
  simp only [markUnconfirmed, TransferFlags.add, Bool.or_assoc, Bool.or_self]

theorem Scanned.refl (w : Wallet) : Scanned [] w w := by
  refine ⟨rfl, fun id => ?_⟩
  have never : ¬ (id ∈ ([] : List Hash) ∧ id ∉ w.unconfirmedMultisigTransfers) :=
    fun both => List.not_mem_nil both.1
  simp only [if_neg never, Option.map_id']

theorem Scanned.of_same (transfers : w'.multisigTransfers = w.multisigTransfers)
    (unconfirmed : w'.unconfirmedMultisigTransfers = w.unconfirmedMultisigTransfers) :
    Scanned [] w w' := by
  refine ⟨unconfirmed, fun id => ?_⟩
  rw [transfers]
  exact (Scanned.refl w).marks id

theorem Scanned.trans (first : Scanned ids w w') (second : Scanned more w' w'') :
    Scanned (ids ++ more) w w'' := by
  refine ⟨second.unconfirmed.trans first.unconfirmed, fun id => ?_⟩
  rw [second.marks, first.marks, Option.map_map, first.unconfirmed]
  congr 1
  funext td
  rw [Function.comp_apply]
  by_cases old : id ∈ w.unconfirmedMultisigTransfers
  · simp only [old, not_true_eq_false, and_false, if_false]
  · by_cases early : id ∈ ids
    · simp only [old, early, not_false_eq_true, and_self, if_true, List.mem_append, true_or]
      split
      · exact markUnconfirmed_twice td
      · rfl
    · simp only [early, false_and, if_false, List.mem_append, false_or]

theorem Scanned.isSome (scanned : Scanned ids w w') (id : Hash) :
    (w'.multisigTransfers.get id).isSome = (w.multisigTransfers.get id).isSome := by
  rw [scanned.marks, Option.isSome_map]

theorem Finds.trans {found finds findsToo : List Hash} (first : Finds found ids w finds)
    (scanned : Scanned ids w w') (second : Finds finds more w' findsToo) :
    Finds found (ids ++ more) w findsToo := by
  intro id
  rw [second id, first id, scanned.isSome, List.mem_append, or_and_right, or_assoc]

theorem Finds.refl (found : List Hash) (w : Wallet) : Finds found [] w found := by
  intro id
  simp only [List.not_mem_nil, false_and, or_false]

theorem scanPoolInput_ok {i : Nat} {spends spends' : PoolSpends} {input : Txin}
    (ran : scanPoolInput i spends input w = .ok spends' w') :
    Scanned input.spentMultisigId.toList w w' ∧
      Finds spends.fromTxPool input.spentMultisigId.toList w spends'.fromTxPool ∧
      w'.unconfirmedInTransfers = w.unconfirmedInTransfers := by
  cases input with
  | gen height =>
    obtain ⟨rfl, rfl⟩ := pure_ok.mp ran
    exact ⟨.refl w, .refl _ w, rfl⟩
  | toKey input =>
    unfold scanPoolInput at ran
    dsimp only at ran
    rw [get_bind] at ran
    cases found : w.keyImages.get input.kImage with
    | none =>
      rw [found] at ran
      obtain ⟨rfl, rfl⟩ := pure_ok.mp ran
      exact ⟨.refl w, .refl _ w, rfl⟩
    | some stored =>
      rw [found] at ran
      obtain ⟨rfl, rfl⟩ := pure_ok.mp ran
      exact ⟨.refl w, .refl _ w, rfl⟩
  | multisig input =>
    have inserted {finds : List Hash} (td : TransferDetailsBase)
        (found : w.multisigTransfers.get input.multisigOutId = some td)
        (same : finds = spends.fromTxPool.insert input.multisigOutId) :
        Finds spends.fromTxPool [input.multisigOutId] w finds := by
      intro id
      rw [same, List.mem_insert_iff, List.mem_singleton]
      constructor
      · rintro (rfl | before)
        · exact .inr ⟨rfl, Option.isSome_of_eq_some found⟩
        · exact .inl before
      · rintro (before | ⟨rfl, _⟩)
        · exact .inr before
        · exact .inl rfl
    change Scanned [input.multisigOutId] w w' ∧
      Finds spends.fromTxPool [input.multisigOutId] w spends'.fromTxPool ∧ _
    unfold scanPoolInput at ran
    dsimp only at ran
    rw [get_bind] at ran
    cases found : w.multisigTransfers.get input.multisigOutId with
    | none =>
      rw [found] at ran
      obtain ⟨rfl, rfl⟩ := pure_ok.mp ran
      refine ⟨⟨rfl, fun id => ?_⟩, fun id => ?_, rfl⟩
      · by_cases same : id = input.multisigOutId
        · rw [same, found, Option.map_none]
        · simp only [List.mem_singleton, same, false_and, if_false, Option.map_id']
      · rw [List.mem_singleton]
        constructor
        · exact .inl
        · rintro (before | ⟨rfl, present⟩)
          · exact before
          · rw [found] at present
            cases present
    | some td =>
      rw [found] at ran
      dsimp only at ran
      by_cases old : w.unconfirmedMultisigTransfers.contains input.multisigOutId = true
      · rw [if_pos old] at ran
        obtain ⟨rfl, rfl⟩ := pure_ok.mp ran
        refine ⟨⟨rfl, fun id => ?_⟩, inserted td found rfl, rfl⟩
        rw [List.contains_iff_mem] at old
        have never : ¬ (id ∈ [input.multisigOutId] ∧ id ∉ w.unconfirmedMultisigTransfers) := by
          rintro ⟨same, new⟩
          rw [List.mem_singleton.mp same] at new
          exact new old
        simp only [if_neg never, Option.map_id']
      · rw [if_neg old, set_bind] at ran
        obtain ⟨rfl, rfl⟩ := pure_ok.mp ran
        refine ⟨⟨rfl, fun id => ?_⟩, inserted td found rfl, rfl⟩
        rw [List.contains_iff_mem] at old
        dsimp only
        rw [Container.get_set]
        by_cases same : input.multisigOutId = id
        · subst same
          rw [if_pos rfl, found, Option.map_some, if_pos ⟨List.mem_singleton.mpr rfl, old⟩]
        · have other : ¬ (id ∈ [input.multisigOutId] ∧ id ∉ w.unconfirmedMultisigTransfers) :=
            fun both => same (List.mem_singleton.mp both.1).symm
          simp only [if_neg same, if_neg other, Option.map_id']

theorem scanPoolInputs_ok {i : Nat} {inputs : List Txin} {spends spends' : PoolSpends}
    (ran : scanPoolInputs i inputs spends w = .ok spends' w') :
    Scanned (inputs.filterMap Txin.spentMultisigId) w w' ∧
      Finds spends.fromTxPool (inputs.filterMap Txin.spentMultisigId) w spends'.fromTxPool ∧
      w'.unconfirmedInTransfers = w.unconfirmedInTransfers := by
  induction inputs generalizing i spends w with
  | nil =>
    obtain ⟨rfl, rfl⟩ := pure_ok.mp ran
    exact ⟨.refl w, .refl _ w, rfl⟩
  | cons input rest ih =>
    obtain ⟨between, middle, first, later⟩ := bind_ok.mp ran
    obtain ⟨scanned, finds, same⟩ := scanPoolInput_ok first
    obtain ⟨scannedToo, findsToo, sameToo⟩ := ih later
    have ids : (input :: rest).filterMap Txin.spentMultisigId =
        input.spentMultisigId.toList ++ rest.filterMap Txin.spentMultisigId := by
      cases spent : input.spentMultisigId with
      | none => rw [List.filterMap_cons_none spent, Option.toList_none, List.nil_append]
      | some id => rw [List.filterMap_cons_some spent, Option.toList_some, List.singleton_append]
    rw [ids]
    exact ⟨scanned.trans scannedToo, finds.trans scanned findsToo, sameToo.trans same⟩

/-! ### Recording -/

/-- The multisig outputs and what was found in the pool are as given. -/
def PoolIs (transfers : Container Hash TransferDetailsBase) (unconfirmed : List Hash)
    (inTransfers : Container Hash Transaction) (w : Wallet) : Prop :=
  w.multisigTransfers = transfers ∧ w.unconfirmedMultisigTransfers = unconfirmed ∧
    w.unconfirmedInTransfers = inTransfers

theorem poolIs_kept {transfers : Container Hash TransferDetailsBase} {unconfirmed : List Hash}
    {inTransfers : Container Hash Transaction} :
    EscrowKept W (PoolIs transfers unconfirmed inTransfers) := by
  refine OfEscrowPart.kept (fun w w' holds same => ?_) fun _ _ holds => holds
  refine ⟨?_, ?_, ?_⟩
  · exact (congrArg EscrowPart.multisigTransfers same).trans holds.1
  · exact (congrArg EscrowPart.unconfirmedMultisigTransfers same).trans holds.2.1
  · exact (congrArg EscrowPart.unconfirmedInTransfers same).trans holds.2.2

/-- A new transaction of the pool may be remembered, and its multisig spends are marked. -/
theorem scanNewPoolTx_ok {median coreTime : Nat} {found finds : List Hash} {tx : Transaction}
    (ran : scanNewPoolTx W median coreTime found tx w = .ok finds w') :
    Scanned tx.multisigInputIds w w' ∧ Finds found tx.multisigInputIds w finds ∧
      (w'.unconfirmedInTransfers = w.unconfirmedInTransfers ∨
        w'.unconfirmedInTransfers = w.unconfirmedInTransfers.set
          (getTransactionHash W.core tx.toTransactionPrefix) tx) := by
  obtain ⟨extra, _, parsed, ran⟩ := bind_ok.mp ran
  obtain ⟨_, rfl⟩ := demandEx_ok.mp parsed
  obtain ⟨own, _, looked, ran⟩ := bind_ok.mp ran
  obtain ⟨_, rfl⟩ := demandEx_ok.mp looked
  obtain ⟨spends, middle, inputs, ran⟩ := bind_ok.mp ran
  obtain ⟨scanned, finds, same⟩ := scanPoolInputs_ok inputs
  obtain ⟨_, recorded, records, ran⟩ := bind_ok.mp ran
  obtain ⟨rfl, rfl⟩ := pure_ok.mp ran
  have ended : final (recordPoolSpends W median coreTime tx own spends middle) = recorded := by
    rw [records, final_ok]
  let remembers (w' : Wallet) : Prop :=
    PoolIs middle.multisigTransfers middle.unconfirmedMultisigTransfers
        middle.unconfirmedInTransfers w' ∨
      PoolIs middle.multisigTransfers middle.unconfirmedMultisigTransfers
        (middle.unconfirmedInTransfers.set
          (getTransactionHash W.core tx.toTransactionPrefix) tx) w'
  have kept : EscrowKept W remembers := by
    refine OfEscrowPart.kept (fun w w' holds same => ?_) fun _ _ holds => holds
    exact holds.imp (fun holds => poolIs_kept.only (W := W) holds same)
      fun holds => poolIs_kept.only (W := W) holds same
  have holds : remembers recorded := by
    rw [← ended]
    exact recordPoolSpends_keeps kept (.inr ⟨rfl, rfl, rfl⟩) (.inl ⟨rfl, rfl, rfl⟩)
  have marked : Scanned [] middle recorded :=
    .of_same (holds.elim And.left And.left) (holds.elim (·.2.1) (·.2.1))
  refine ⟨?_, finds, ?_⟩
  · have whole := scanned.trans marked
    rwa [List.append_nil] at whole
  · rw [← same]
    exact holds.imp (·.2.2) (·.2.2)

/-! ### The transactions of the pool -/

def isKnown (W : WalletEnv) (known : Container Hash Transaction) (tx : Transaction) : Bool :=
  known.has (getTransactionHash W.core tx.toTransactionPrefix)

/-- The multisig outputs that transactions spend. -/
def spentBy (txs : List Transaction) : List Hash := txs.flatMap fun tx => tx.multisigInputIds

/-- The transactions of the pool that the scan before did not know. -/
def newInPool (W : WalletEnv) (known : Container Hash Transaction) (pool : List Transaction) :
    List Transaction :=
  pool.filter fun tx => !isKnown W known tx

/-- The remembered transactions are of the pool, and all known ones of the pool are remembered. -/
structure Held (W : WalletEnv) (known : Container Hash Transaction) (pool : List Transaction)
    (held : Container Hash Transaction) : Prop where
  ofPool : ∀ txHash tx, held.get txHash = some tx →
    ∃ other ∈ pool, getTransactionHash W.core other.toTransactionPrefix = txHash ∧
      (known.get txHash = some tx ∨ other = tx ∧ known.get txHash = none)
  kept : ∀ tx ∈ pool, ∀ before,
    known.get (getTransactionHash W.core tx.toTransactionPrefix) = some before →
      held.get (getTransactionHash W.core tx.toTransactionPrefix) = some before

variable {known held : Container Hash Transaction} {pool : List Transaction} {tx : Transaction}

theorem held_empty (known : Container Hash Transaction) : Held W known [] ∅ := by
  refine ⟨fun txHash tx found => ?_, fun tx member => ?_⟩
  · rw [Container.get_empty] at found
    cases found
  · cases member

theorem Held.another (holds : Held W known pool held)
    (new : known.get (getTransactionHash W.core tx.toTransactionPrefix) = none) :
    Held W known (pool ++ [tx]) held := by
  refine ⟨fun txHash other found => ?_, fun other member before present => ?_⟩
  · obtain ⟨source, inside, named⟩ := holds.ofPool txHash other found
    exact ⟨source, List.mem_append_left _ inside, named⟩
  · rcases List.mem_append.mp member with early | late
    · exact holds.kept other early before present
    · rw [List.mem_singleton.mp late, new] at present
      cases present

theorem Held.again (holds : Held W known pool held) {before : Transaction}
    (old : known.get (getTransactionHash W.core tx.toTransactionPrefix) = some before) :
    Held W known (pool ++ [tx])
      (if held.has (getTransactionHash W.core tx.toTransactionPrefix) then held
        else held.set (getTransactionHash W.core tx.toTransactionPrefix) before) := by
  have here : (if held.has (getTransactionHash W.core tx.toTransactionPrefix) then held
      else held.set (getTransactionHash W.core tx.toTransactionPrefix) before) =
        held.set (getTransactionHash W.core tx.toTransactionPrefix) before := by
    by_cases present : held.has (getTransactionHash W.core tx.toTransactionPrefix) = true
    · obtain ⟨there, found⟩ := (Container.has_iff _ _).mp present
      obtain ⟨source, inside, named, _⟩ := holds.ofPool _ there found
      rw [if_pos present, Container.set_get]
      rw [← named]
      exact holds.kept source inside before (by rw [named, old])
    · rw [if_neg present]
  rw [here]
  refine ⟨fun txHash other found => ?_, fun other member earlier present => ?_⟩
  · rw [Container.get_set] at found
    split at found
    · next same =>
      obtain rfl := Option.some.inj found
      exact ⟨tx, List.mem_append_right _ (.head _), same, .inl (same ▸ old)⟩
    · obtain ⟨source, inside, named⟩ := holds.ofPool txHash other found
      exact ⟨source, List.mem_append_left _ inside, named⟩
  · rw [Container.get_set]
    split
    · next same =>
      rw [← same, old] at present
      exact present
    · next apart =>
      rcases List.mem_append.mp member with early | late
      · exact holds.kept other early earlier present
      · exact absurd (congrArg (fun tx : Transaction =>
          getTransactionHash W.core tx.toTransactionPrefix) (List.mem_singleton.mp late)).symm apart

theorem Held.remember (holds : Held W known pool held)
    (new : known.get (getTransactionHash W.core tx.toTransactionPrefix) = none) :
    Held W known (pool ++ [tx])
      (held.set (getTransactionHash W.core tx.toTransactionPrefix) tx) := by
  refine ⟨fun txHash other found => ?_, fun other member before present => ?_⟩
  · rw [Container.get_set] at found
    split at found
    · next same =>
      obtain rfl := Option.some.inj found
      exact ⟨tx, List.mem_append_right _ (.head _), same, .inr ⟨rfl, same ▸ new⟩⟩
    · obtain ⟨source, inside, named⟩ := holds.ofPool txHash other found
      exact ⟨source, List.mem_append_left _ inside, named⟩
  · rw [Container.get_set]
    split
    · next same =>
      rw [← same, new] at present
      cases present
    · exact (holds.another new).kept other member before present

theorem scanPoolTx_ok {median coreTime : Nat} {found finds : List Hash}
    (ran : scanPoolTx W known median coreTime found tx w = .ok finds w') :
    Scanned (spentBy (newInPool W known [tx])) w w' ∧
      Finds found (spentBy (newInPool W known [tx])) w finds ∧
      ∀ pool, Held W known pool w.unconfirmedInTransfers →
        Held W known (pool ++ [tx]) w'.unconfirmedInTransfers := by
  unfold scanPoolTx at ran
  cases old : known.get (getTransactionHash W.core tx.toTransactionPrefix) with
  | some before =>
    rw [old] at ran
    obtain ⟨_, middle, remembered, ran⟩ := bind_ok.mp ran
    obtain rfl := modify_ok.mp remembered
    obtain ⟨rfl, rfl⟩ := pure_ok.mp ran
    have none : newInPool W known [tx] = [] := by
      rw [newInPool, List.filter_singleton, isKnown, Container.has, old]
      rfl
    rw [none]
    exact ⟨.of_same rfl rfl, .refl found w, fun pool holds => holds.again old⟩
  | none =>
    rw [old] at ran
    obtain ⟨scanned, finds, held⟩ := scanNewPoolTx_ok ran
    have itself : spentBy (newInPool W known [tx]) = tx.multisigInputIds := by
      rw [newInPool, List.filter_singleton, isKnown, Container.has, old]
      exact List.append_nil _
    rw [itself]
    refine ⟨scanned, finds, fun pool holds => ?_⟩
    rcases held with same | remembered
    · rw [same]
      exact holds.another old
    · rw [remembered]
      exact holds.remember old

/-- A scan of the pool that comes to its end has looked into all new transactions. -/
theorem scanPoolTxs_ok {median coreTime : Nat} {blobs : List (Option Transaction)}
    {found finds : List Hash}
    (ran : scanPoolTxs W known median coreTime blobs found w = .ok finds w') :
    Scanned (spentBy (newInPool W known blobs.reduceOption)) w w' ∧
      Finds found (spentBy (newInPool W known blobs.reduceOption)) w finds ∧
      ∀ pool, Held W known pool w.unconfirmedInTransfers →
        Held W known (pool ++ blobs.reduceOption) w'.unconfirmedInTransfers := by
  induction blobs generalizing found w with
  | nil =>
    obtain ⟨rfl, rfl⟩ := pure_ok.mp ran
    refine ⟨.refl w, .refl found w, fun pool holds => ?_⟩
    rw [List.reduceOption_nil, List.append_nil]
    exact holds
  | cons blob rest ih =>
    obtain ⟨tx, _, parsed, ran⟩ := bind_ok.mp ran
    obtain ⟨rfl, rfl⟩ := demandEx_ok.mp parsed
    obtain ⟨between, middle, first, later⟩ := bind_ok.mp ran
    obtain ⟨scanned, finds, held⟩ := scanPoolTx_ok first
    obtain ⟨scannedToo, findsToo, heldToo⟩ := ih later
    have parts : spentBy (newInPool W known (some tx :: rest).reduceOption) =
        spentBy (newInPool W known [tx]) ++ spentBy (newInPool W known rest.reduceOption) := by
      rw [List.reduceOption_cons_of_some, ← List.singleton_append, newInPool, List.filter_append,
        spentBy, List.flatMap_append]
      rfl
    rw [parts]
    refine ⟨scanned.trans scannedToo, finds.trans scanned findsToo, fun pool holds => ?_⟩
    rw [List.reduceOption_cons_of_some, ← List.singleton_append, ← List.append_assoc]
    exact heldToo _ (held pool holds)

end Scans

/-! ## What every scan keeps -/

section Keeps

variable {W : WalletEnv} {C : List Hash} {w w' : Wallet} {known : Container Hash Transaction}

theorem Sound.remember (sound : Sound W C w) {txHash : Hash} {tx : Transaction}
    (named : getTransactionHash W.core tx.toTransactionPrefix = txHash) :
    Sound W C { w with unconfirmedInTransfers := w.unconfirmedInTransfers.set txHash tx } := by
  refine ⟨sound.remembered, sound.heights, fun other there found => ?_⟩
  dsimp only at found
  rw [Container.get_set] at found
  split at found
  · next same =>
    obtain rfl := Option.some.inj found
    rw [named, same]
  · exact sound.named other there found

theorem Sound.scanPoolInputs {i : Nat} {inputs : List Txin} {spends : PoolSpends} :
    Preserves (Sound W C) (scanPoolInputs i inputs spends) := by
  induction inputs generalizing i spends with
  | nil => exact preserves_pure spends
  | cons input rest ih =>
    refine preserves_bind ?_ fun _ => ih
    cases input with
    | gen height => exact preserves_pure spends
    | toKey input =>
      refine preserves_get_bind fun w _ => ?_
      split
      · exact preserves_pure _
      · exact preserves_pure _
    | multisig input =>
      refine preserves_get_bind fun w sound => ?_
      split
      · exact preserves_pure _
      · refine preserves_ite (fun _ => preserves_pure _) fun _ => ?_
        refine preserves_bind (preserves_set (sound.mark ?_ fun high => absurd rfl high))
          fun _ => preserves_pure _
        simp only [markUnconfirmed, TransferFlags.add, TransferFlags.flagSpent, Bool.or_true]

theorem Sound.scanPoolTx {median coreTime : Nat} {found : List Hash} {tx : Transaction}
    (named : ∀ txHash before, known.get txHash = some before →
      getTransactionHash W.core before.toTransactionPrefix = txHash) :
    Preserves (Sound W C) (scanPoolTx W known median coreTime found tx) := by
  unfold Wallet.scanPoolTx
  dsimp only
  split
  · next before old =>
    refine preserves_bind (preserves_modify fun w sound => ?_) fun _ => preserves_pure found
    by_cases present : w.unconfirmedInTransfers.has
        (getTransactionHash W.core tx.toTransactionPrefix) = true
    · rw [if_pos present]
      exact sound
    · rw [if_neg present]
      exact sound.remember (named _ before old)
  · refine preserves_bind (Sound.ofEscrowPart.demandEx _) fun extra => ?_
    refine preserves_bind (Sound.ofEscrowPart.demandEx _) fun own => ?_
    refine preserves_bind Sound.scanPoolInputs fun spends => ?_
    refine preserves_bind (fun w sound => ?_) fun _ => preserves_pure _
    exact recordPoolSpends_keeps Sound.kept (sound.remember rfl) sound

theorem Sound.scanPoolTxs {median coreTime : Nat} {blobs : List (Option Transaction)}
    {found : List Hash} (named : ∀ txHash before, known.get txHash = some before →
      getTransactionHash W.core before.toTransactionPrefix = txHash) :
    Preserves (Sound W C) (scanPoolTxs W known median coreTime blobs found) := by
  induction blobs generalizing found with
  | nil => exact preserves_pure found
  | cons blob rest ih =>
    refine preserves_bind (Sound.ofEscrowPart.demandEx blob) fun tx => ?_
    exact preserves_bind (Sound.scanPoolTx named) fun _ => ih

theorem clearUnconfirmed_spentHeight (td : TransferDetailsBase) :
    (clearUnconfirmed td).spentHeight = td.spentHeight := by
  unfold clearUnconfirmed
  split
  · rfl
  · rfl

/-- The comparison keeps what always holds if the pool was found to spend marked outputs. -/
theorem Sound.compareUnconfirmed (sound : Sound W C w) {finds : List Hash}
    (marked : ∀ id ∈ finds, ∃ td, w.multisigTransfers.get id = some td ∧
      td.flags.spent = true) : Sound W C (compareUnconfirmed finds w) := by
  refine ⟨fun id member => ?_, fun id td found high => ?_, sound.named⟩
  · obtain ⟨td, found, spent⟩ := marked id member
    have there : finds.contains id = true := List.contains_iff_mem.mpr member
    refine ⟨td, ?_, spent⟩
    unfold Wallet.compareUnconfirmed
    dsimp only
    rw [Container.get_map, found, Option.map_some, there, Bool.not_true, Bool.and_false,
      Bool.false_and, if_neg Bool.false_ne_true]
  · unfold Wallet.compareUnconfirmed at found
    dsimp only at found
    rw [Container.get_map] at found
    obtain ⟨before, present, rfl⟩ := Option.map_eq_some_iff.mp found
    refine sound.heights id before present ?_
    split at high
    · rwa [clearUnconfirmed_spentHeight] at high
    · exact high

theorem Finds.marked (sound : Sound W C w) {ids finds : List Hash} (scanned : Scanned ids w w')
    (found : Finds [] ids w finds) :
    ∀ id ∈ finds, ∃ td, w'.multisigTransfers.get id = some td ∧ td.flags.spent = true := by
  intro id member
  rcases (found id).mp member with none | ⟨inside, listed⟩
  · cases none
  · obtain ⟨td, present⟩ := Option.isSome_iff_exists.mp listed
    rw [scanned.marks, present, Option.map_some]
    by_cases old : id ∈ w.unconfirmedMultisigTransfers
    · obtain ⟨other, presentToo, spent⟩ := sound.remembered id old
      obtain rfl := Option.some.inj (present.symm.trans presentToo)
      exact ⟨td, by simp only [old, not_true_eq_false, and_false, if_false], spent⟩
    · refine ⟨markUnconfirmed td, by rw [if_pos ⟨inside, old⟩], ?_⟩
      simp only [markUnconfirmed, TransferFlags.add, TransferFlags.flagSpent, Bool.or_true]

theorem Sound.scanTxPool {coreTime : Nat} {reply : PoolReply} :
    Preserves (Sound W C) (scanTxPool W coreTime reply) := by
  cases reply with
  | noConnection => exact preserves_throw _
  | busy => exact preserves_throw _
  | failed => exact preserves_bind (Sound.ofEscrowPart.throwIf _) fun _ => preserves_pure _
  | ok txs median aliasDetails =>
    refine preserves_get_bind fun w sound => ?_
    have emptied : Sound W C { w with unconfirmedInTransfers := ∅ } :=
      ⟨sound.remembered, sound.heights, fun txHash tx found => by
        rw [Container.get_empty] at found
        cases found⟩
    refine fun _ _ => ?_
    rw [set_bind]
    cases ran : Wallet.scanPoolTxs W w.unconfirmedInTransfers median coreTime txs []
        { w with unconfirmedInTransfers := ∅ } with
    | ok finds after =>
      rw [bind_of_ok ran]
      obtain ⟨scanned, found, _⟩ := scanPoolTxs_ok ran
      have soundAfter := (Sound.scanPoolTxs sound.named).of_ok ran emptied
      exact soundAfter.compareUnconfirmed (Finds.marked emptied scanned found)
    | error reason after =>
      rw [bind_of_error ran]
      have keeps : Preserves (Sound W C)
          (Wallet.scanPoolTxs W w.unconfirmedInTransfers median coreTime txs []) :=
        Sound.scanPoolTxs sound.named
      have soundAfter := keeps _ emptied
      rw [ran] at soundAfter
      exact soundAfter

end Keeps

/-! ## Runs -/

namespace Marks

/-- A wallet, and the multisig outputs that the blocks it has processed spend. -/
structure State where
  wallet : Wallet
  spentInBlocks : List Hash

/-- The wallet processes the next block, or scans the pool. -/
inductive Event where
  | block (entry : BlockEntry)
  | scan (coreTime : Nat) (reply : PoolReply)

section System

variable (W : WalletEnv)

def step : Event → State → State
  | .block entry, s =>
    ⟨final (addBlock W entry s.wallet.blockchain.length s.wallet),
      s.spentInBlocks ++ entry.multisigSpends⟩
  | .scan coreTime reply, s => { s with wallet := final (scanTxPool W coreTime reply s.wallet) }

/-- The runs of a new wallet. -/
def system : System Event State where
  start s := s.wallet = Wallet.new ∧ s.spentInBlocks = []
  step := step W

/-- The blocks of a run are processed; scans may end in any way. -/
def Processed : Event → State → Prop
  | .block entry, s => ∃ w, addBlock W entry s.wallet.blockchain.length s.wallet = .ok () w
  | .scan _ _, _ => True

/-- The hash of a transaction tells which multisig outputs it spends. -/
def IdentifiesInputs : Prop :=
  ∀ a b : Transaction, getTransactionHash W.core a.toTransactionPrefix =
    getTransactionHash W.core b.toTransactionPrefix → a.multisigInputIds = b.multisigInputIds

/-- The multisig outputs of the wallet are marked as spent exactly when a block or the pool spends
them. -/
def Tracked (spentInBlocks : List Hash) (pool : List Transaction) (w : Wallet) : Prop :=
  ∀ id td, w.multisigTransfers.get id = some td →
    (td.flags.spent = true ↔ id ∈ spentInBlocks ∨ id ∈ spentBy pool)

/-- What the mark of an output has to be before a scan of a pool. -/
structure RemembersOutput (s : State) (pool : List Transaction) (id : Hash)
    (td : TransferDetailsBase) : Prop where
  /-- An output that is marked, but spent neither by a block nor by the pool, is remembered. -/
  vanished : td.flags.spent = true → id ∉ s.spentInBlocks → id ∉ spentBy pool →
    id ∈ s.wallet.unconfirmedMultisigTransfers
  /-- A remembered output that a block spends has the height of the block, unless the pool
  spends it. -/
  mined : td.flags.spent = true → id ∈ s.spentInBlocks → id ∉ spentBy pool →
    id ∈ s.wallet.unconfirmedMultisigTransfers → td.spentHeight ≠ 0
  /-- An output without a mark is spent by new transactions of the pool or not at all. -/
  unmarked : ¬ td.flags.spent = true →
    id ∉ spentBy (newInPool W s.wallet.unconfirmedInTransfers pool) →
    id ∉ s.spentInBlocks ∧ id ∉ spentBy pool

/-- The marks and the remembered outputs are ready for a scan of a pool. -/
def Remembered (s : State) (pool : List Transaction) : Prop :=
  ∀ id td, s.wallet.multisigTransfers.get id = some td → RemembersOutput W s pool id td

end System

section Tracking

variable {W : WalletEnv} {s : State}

theorem marksSound_of_reaches (reached : (system W).Reaches (Processed W) s) :
    Sound W s.spentInBlocks s.wallet := by
  induction reached with
  | start initial =>
    rw [initial.1]
    refine ⟨fun id member => ?_, fun id td found => ?_, fun txHash tx found => ?_⟩
    · cases member
    · rw [Wallet.new, Container.get_empty] at found
      cases found
    · rw [Wallet.new, Container.get_empty] at found
      cases found
  | step _ event _ sound =>
    cases event with
    | block entry => exact Sound.addBlock _ (sound.mono (List.subset_append_left _ _))
    | scan coreTime reply => exact Sound.scanTxPool _ sound

/-- The two ways to look at the transactions that are still in the pool agree. -/
theorem Held.mem_iff {known : Container Hash Transaction} {pool : List Transaction} {w : Wallet}
    (identifies : IdentifiesInputs W) (held : Held W known pool w.unconfirmedInTransfers)
    (named : ∀ txHash before, known.get txHash = some before →
      getTransactionHash W.core before.toTransactionPrefix = txHash) {id : Hash}
    (old : id ∉ spentBy (newInPool W known pool)) :
    id ∈ w.unconfirmedInMultisigTransfers ↔ id ∈ spentBy pool := by
  constructor
  · intro member
    obtain ⟨⟨txHash, tx⟩, entry, spends⟩ := List.mem_flatMap.mp member
    obtain ⟨other, inside, hash, origin⟩ :=
      held.ofPool txHash tx ((Container.mem_toList _ _ _).mp entry)
    refine List.mem_flatMap.mpr ⟨other, inside, ?_⟩
    rcases origin with before | ⟨same, _⟩
    · rw [identifies other tx (hash.trans (named txHash tx before).symm)]
      exact spends
    · rw [same]
      exact spends
  · intro member
    obtain ⟨tx, inside, spends⟩ := List.mem_flatMap.mp member
    cases found : known.get (getTransactionHash W.core tx.toTransactionPrefix) with
    | none =>
      refine absurd (List.mem_flatMap.mpr ⟨tx, List.mem_filter.mpr ⟨inside, ?_⟩, spends⟩) old
      rw [isKnown, Container.has, found]
      rfl
    | some before =>
      refine List.mem_flatMap.mpr ⟨⟨_, before⟩, (Container.mem_toList _ _ _).mpr
        (held.kept tx inside before found), ?_⟩
      rw [identifies before tx (named _ before found)]
      exact spends

theorem scanTxPool_ok {coreTime median : Nat} {txs : List (Option Transaction)}
    {aliasDetails : String → Option AccountPublicAddress} {result : Bool} {w after : Wallet}
    (scanned : scanTxPool W coreTime (.ok txs median aliasDetails) w = .ok result after) :
    ∃ finds middle, scanPoolTxs W w.unconfirmedInTransfers median coreTime txs []
        { w with unconfirmedInTransfers := ∅ } = .ok finds middle ∧
      after = compareUnconfirmed finds middle := by
  unfold scanTxPool at scanned
  dsimp only at scanned
  rw [get_bind, set_bind] at scanned
  obtain ⟨finds, middle, ran, rest⟩ := bind_ok.mp scanned
  obtain ⟨_, compared, compares, ends⟩ := bind_ok.mp rest
  obtain rfl := modify_ok.mp compares
  obtain ⟨_, rfl⟩ := pure_ok.mp ends
  exact ⟨finds, middle, ran, rfl⟩

theorem clearUnconfirmed_spent (td : TransferDetailsBase) :
    (clearUnconfirmed td).flags.spent = (td.flags.spent && td.spentHeight != 0) := by
  unfold clearUnconfirmed
  cases spent : td.flags.spent with
  | true =>
    cases zero : td.spentHeight == 0 with
    | true =>
      rw [Bool.true_and, if_pos rfl, bne, zero]
      simp only [TransferFlags.remove, TransferFlags.flagSpent, Bool.not_true, Bool.and_false]
    | false => rw [Bool.true_and, if_neg Bool.false_ne_true, bne, zero, spent, Bool.not_false,
        Bool.and_true]
  | false => rw [Bool.false_and, if_neg Bool.false_ne_true, spent, Bool.false_and]

/-- The mark of an output after a scan that comes to its end. -/
theorem marked_after (sound : Sound W s.spentInBlocks s.wallet) (identifies : IdentifiesInputs W)
    {coreTime median : Nat} {txs : List (Option Transaction)}
    {aliasDetails : String → Option AccountPublicAddress} {result : Bool} {after : Wallet}
    (scanned : scanTxPool W coreTime (.ok txs median aliasDetails) s.wallet = .ok result after)
    (id : Hash) :
    (after.multisigTransfers.get id).map (fun td => td.flags.spent) =
      (s.wallet.multisigTransfers.get id).map fun td =>
        if id ∈ spentBy (newInPool W s.wallet.unconfirmedInTransfers txs.reduceOption) then true
        else if id ∈ s.wallet.unconfirmedMultisigTransfers ∧ id ∉ spentBy txs.reduceOption then
          td.flags.spent && td.spentHeight != 0
        else td.flags.spent := by
  obtain ⟨finds, middle, ran, rfl⟩ := scanTxPool_ok scanned
  obtain ⟨scan, found, held⟩ := scanPoolTxs_ok ran
  have heldAfter := held [] (held_empty _)
  rw [List.nil_append] at heldAfter
  have marks := scan.marks id
  have finding := found id
  have unconfirmed := scan.unconfirmed
  dsimp only at marks finding unconfirmed
  unfold compareUnconfirmed
  dsimp only
  rw [Container.get_map, unconfirmed, marks]
  cases listed : s.wallet.multisigTransfers.get id with
  | none => rfl
  | some td =>
    rw [listed, Option.isSome_some] at finding
    simp only [List.not_mem_nil, false_or, and_true] at finding
    simp only [Option.map_some, Option.some.injEq, Bool.and_eq_true, Bool.not_eq_true',
      List.contains_iff_mem, ← Bool.not_eq_true]
    by_cases new : id ∈ spentBy (newInPool W s.wallet.unconfirmedInTransfers txs.reduceOption)
    · -- the pool was found to spend the output, which is marked now or was before
      have inFinds : id ∈ finds := finding.mpr new
      simp only [new, inFinds, not_true_eq_false, and_false, false_and, if_false, if_true,
        true_and]
      by_cases old : id ∈ s.wallet.unconfirmedMultisigTransfers
      · obtain ⟨other, present, marked⟩ := sound.remembered id old
        obtain rfl := Option.some.inj (listed.symm.trans present)
        simp only [old, not_true_eq_false, if_false, marked]
      · simp only [old, not_false_eq_true, if_true, markUnconfirmed, TransferFlags.add,
          TransferFlags.flagSpent, Bool.or_true]
    · have notInFinds : id ∉ finds := fun member => new (finding.mp member)
      have present := Held.mem_iff identifies heldAfter sound.named new
      simp only [new, notInFinds, false_and, if_false, not_false_eq_true, and_true, present]
      split
      · exact clearUnconfirmed_spent td
      · rfl

/-- One output: which marks before a scan lead to the right mark after it. -/
theorem tracked_one {marked new old mined inPool high after : Prop} (inside : new → inPool)
    (remembered : old → marked) (heights : high → mined) (whenNew : new → after)
    (whenGone : ¬ new → old → ¬ inPool → (after ↔ high))
    (whenSame : ¬ new → (old → inPool) → (after ↔ marked)) :
    (after ↔ mined ∨ inPool) ↔
      (marked → ¬ mined → ¬ inPool → old) ∧ (marked → mined → ¬ inPool → old → high) ∧
        (¬ marked → ¬ new → ¬ mined ∧ ¬ inPool) := by
  by_cases isNew : new
  · have isInPool := inside isNew
    refine iff_of_true (iff_of_true (whenNew isNew) (.inr isInPool)) ⟨?_, ?_, ?_⟩
    · exact fun _ _ gone => absurd isInPool gone
    · exact fun _ _ gone => absurd isInPool gone
    · exact fun _ notNew => absurd isNew notNew
  · by_cases isInPool : inPool
    · rw [whenSame isNew fun _ => isInPool]
      constructor
      · intro tracked
        have isMarked := tracked.mpr (.inr isInPool)
        exact ⟨fun _ _ gone => absurd isInPool gone, fun _ _ gone => absurd isInPool gone,
          fun unmarked => absurd isMarked unmarked⟩
      · rintro ⟨_, _, unmarked⟩
        refine iff_of_true (by_contra fun notMarked => ?_) (.inr isInPool)
        exact (unmarked notMarked isNew).2 isInPool
    · by_cases isOld : old
      · have isMarked := remembered isOld
        rw [whenGone isNew isOld isInPool]
        constructor
        · intro tracked
          exact ⟨fun _ _ _ => isOld, fun _ isMined _ _ => tracked.mpr (.inl isMined),
            fun unmarked => absurd isMarked unmarked⟩
        · rintro ⟨_, back, _⟩
          constructor
          · exact fun isHigh => .inl (heights isHigh)
          · rintro (isMined | present)
            · exact back isMarked isMined isInPool isOld
            · exact absurd present isInPool
      · rw [whenSame isNew fun isOldToo => absurd isOldToo isOld]
        constructor
        · intro tracked
          refine ⟨fun isMarked notMined _ => ?_, fun _ _ _ isOldToo => absurd isOldToo isOld,
            fun unmarked _ => ⟨fun isMined => unmarked (tracked.mpr (.inl isMined)), isInPool⟩⟩
          exact (tracked.mp isMarked).elim (absurd · notMined) (absurd · isInPool)
        · rintro ⟨vanished, _, unmarked⟩
          constructor
          · exact fun isMarked => .inl (by_contra fun notMined =>
              isOld (vanished isMarked notMined isInPool))
          · rintro (isMined | present)
            · exact by_contra fun notMarked => (unmarked notMarked isNew).1 isMined
            · exact absurd present isInPool

end Tracking

section Claims

variable {W : WalletEnv} {s : State}

/-- One output of the wallet before and after a scan. -/
theorem tracked_output (sound : Sound W s.spentInBlocks s.wallet) {id : Hash}
    {td tdAfter : TransferDetailsBase} {pool : List Transaction}
    (before : s.wallet.multisigTransfers.get id = some td)
    (mark : tdAfter.flags.spent =
      if id ∈ spentBy (newInPool W s.wallet.unconfirmedInTransfers pool) then true
      else if id ∈ s.wallet.unconfirmedMultisigTransfers ∧ id ∉ spentBy pool then
        td.flags.spent && td.spentHeight != 0
      else td.flags.spent) :
    (tdAfter.flags.spent = true ↔ id ∈ s.spentInBlocks ∨ id ∈ spentBy pool) ↔
      RemembersOutput W s pool id td := by
  have remembered (old : id ∈ s.wallet.unconfirmedMultisigTransfers) : td.flags.spent = true := by
    obtain ⟨other, present, spent⟩ := sound.remembered id old
    rwa [Option.some.inj (before.symm.trans present)]
  have inside (new : id ∈ spentBy (newInPool W s.wallet.unconfirmedInTransfers pool)) :
      id ∈ spentBy pool := by
    obtain ⟨tx, member, spends⟩ := List.mem_flatMap.mp new
    exact List.mem_flatMap.mpr ⟨tx, List.mem_of_mem_filter member, spends⟩
  rw [tracked_one inside remembered (sound.heights id td before)]
  · exact ⟨fun ⟨vanished, mined, unmarked⟩ => ⟨vanished, mined, unmarked⟩,
      fun ready => ⟨ready.vanished, ready.mined, ready.unmarked⟩⟩
  · intro new
    rw [mark, if_pos new]
  · intro notNew old gone
    rw [mark, if_neg notNew, if_pos ⟨old, gone⟩, remembered old, Bool.true_and, bne_iff_ne]
  · intro notNew stays
    rw [mark, if_neg notNew, if_neg fun both => both.2 (stays both.1)]

/-- After a scan the marks are right exactly when they were ready for it; then the outputs that new
transactions of the pool spend are remembered, and no other ones. -/
theorem multisigMarks_tracked_iff (identifies : IdentifiesInputs W)
    (reached : (system W).Reaches (Processed W) s) {coreTime median : Nat}
    {txs : List (Option Transaction)} {aliasDetails : String → Option AccountPublicAddress}
    {result : Bool} {after : Wallet}
    (scanned : scanTxPool W coreTime (.ok txs median aliasDetails) s.wallet = .ok result after) :
    (Tracked s.spentInBlocks txs.reduceOption after ↔ Remembered W s txs.reduceOption) ∧
      ∀ id, id ∈ after.unconfirmedMultisigTransfers ↔
        id ∈ spentBy (newInPool W s.wallet.unconfirmedInTransfers txs.reduceOption) ∧
          (s.wallet.multisigTransfers.get id).isSome = true := by
  have sound := marksSound_of_reaches reached
  have marks := marked_after sound identifies scanned
  refine ⟨⟨?_, ?_⟩, fun id => ?_⟩
  · intro tracked id td before
    have mark := marks id
    rw [before, Option.map_some] at mark
    obtain ⟨tdAfter, found, same⟩ := Option.map_eq_some_iff.mp mark
    exact (tracked_output sound before same).mp (tracked id tdAfter found)
  · intro ready id tdAfter found
    have mark := marks id
    rw [found, Option.map_some] at mark
    obtain ⟨td, before, same⟩ := Option.map_eq_some_iff.mp mark.symm
    exact (tracked_output sound before same.symm).mpr (ready id td before)
  · obtain ⟨finds, middle, ran, rfl⟩ := scanTxPool_ok scanned
    have found := (scanPoolTxs_ok ran).2.1 id
    simp only [List.not_mem_nil, false_or] at found
    exact found

end Claims

/-! ## A spend that is given up -/

namespace GivenUp

/-- A number for the ids of a list. -/
def code : List Hash → Nat
  | [] => 0
  | id :: rest => Nat.pair id.val (code rest) + 1

theorem code_injective {first second : List Hash} (same : code first = code second) :
    first = second := by
  induction first generalizing second with
  | nil =>
    cases second with
    | nil => rfl
    | cons other rest => cases same
  | cons id rest ih =>
    cases second with
    | nil => cases same
    | cons other others =>
      obtain ⟨ids, rests⟩ := Nat.pair_eq_pair.mp (Nat.succ.inj same)
      obtain rfl : id = other := congrArg Hash.mk ids
      rw [ih rests]

/-- An account that tells transactions apart by the multisig outputs they spend. -/
def account : WalletEnv :=
  { WalletEnv.plain with
    core := { Env.plain with prefixHash := fun tx => ⟨code tx.multisigInputIds⟩ } }

theorem account_identifies : IdentifiesInputs account := fun _ _ same =>
  code_injective (congrArg Hash.val same)

/-- A block with a multisig output of the account. -/
def deposit : BlockEntry where
  bl :=
    { Block.plain 1 0 0 nullHash [] with
      minerTx :=
        { version := 1
          vin := [.gen 0]
          vout := [⟨5, .multisig ⟨2, [⟨3⟩, ⟨4⟩]⟩⟩]
          extra := [.publicKey ⟨3⟩]
          signatures := []
          attachment := [] } }
  minerReply := .ok [0]
  txs := []

/-- The id of the deposit. -/
def depositId : Hash := ⟨1008⟩

/-- A transaction that spends the deposit. -/
def spend : Transaction where
  version := 1
  vin := [.multisig { amount := 5, multisigOutId := depositId, sigsCount := 2, etcDetails := [] }]
  vout := []
  extra := []
  signatures := []
  attachment := []

/-- A scan of a pool. -/
def scanOf (pool : List Transaction) : Event :=
  .scan 0 (.ok (pool.map some) 0 fun _ => none)

def afterEvents (events : List Event) : State := (system account).after ⟨Wallet.new, []⟩ events

theorem deposit_processed (events : List Event)
    (scans : ∀ event ∈ events, ∀ s, Processed account event s) :
    (system account).Reaches (Processed account) (afterEvents (.block deposit :: events)) := by
  have first : (system account).Reaches (Processed account) ⟨Wallet.new, []⟩ := .start ⟨rfl, rfl⟩
  obtain ⟨_, processed⟩ : ∃ value, addBlock account deposit 0 Wallet.new =
      .ok value (final (addBlock account deposit 0 Wallet.new)) :=
    ok_of_succeeds _ (by decide +kernel)
  exact first.after ⟨⟨_, processed⟩, System.meets_of_forall scans⟩

end GivenUp

open GivenUp

/-- A spend that was in the pool of one scan. -/
theorem multisigMarks_tracked_once : ∃ after,
    (Tracked (afterEvents [.block deposit, scanOf [spend]]).spentInBlocks
        ([] : List (Option Transaction)).reduceOption after ↔
      Remembered account (afterEvents [.block deposit, scanOf [spend]])
        ([] : List (Option Transaction)).reduceOption) ∧
    ∀ id, id ∈ after.unconfirmedMultisigTransfers ↔
      id ∈ spentBy (newInPool account
        (afterEvents [.block deposit, scanOf [spend]]).wallet.unconfirmedInTransfers
        ([] : List (Option Transaction)).reduceOption) ∧
        ((afterEvents [.block deposit, scanOf [spend]]).wallet.multisigTransfers.get id).isSome =
          true := by
  have reached := deposit_processed [scanOf [spend]] fun event member s => by
    rw [List.mem_singleton.mp member]
    trivial
  obtain ⟨_, scanned⟩ : ∃ value, scanTxPool account 0 (.ok [] 0 fun _ => none)
      (afterEvents [.block deposit, scanOf [spend]]).wallet = .ok value
        (final (scanTxPool account 0 (.ok [] 0 fun _ => none)
          (afterEvents [.block deposit, scanOf [spend]]).wallet)) :=
    ok_of_succeeds _ (by decide +kernel)
  exact ⟨_, multisigMarks_tracked_iff account_identifies reached scanned⟩

/-- A spend that was in the pool of two scans leaves its mark when it is given up. -/
theorem multisigMarks_stale :
    ∃ s after, (system account).Reaches (Processed account) s ∧
      scanTxPool account 0 (.ok [] 0 fun _ => none) s.wallet = .ok false after ∧
      ¬ Tracked s.spentInBlocks [] after := by
  have reached := deposit_processed [scanOf [spend], scanOf [spend]] fun event member s => by
    rcases List.mem_cons.mp member with rfl | member
    · trivial
    · rw [List.mem_singleton.mp member]
      trivial
  let s := afterEvents [.block deposit, scanOf [spend], scanOf [spend]]
  refine ⟨s, final (scanTxPool account 0 (.ok [] 0 fun _ => none) s.wallet), reached, rfl, ?_⟩
  intro tracked
  have marked : ((final (scanTxPool account 0 (.ok [] 0 fun _ => none)
      s.wallet)).multisigTransfers.get depositId).map (fun td => td.flags.spent) = some true := by
    decide +kernel
  obtain ⟨td, found, spent⟩ := Option.map_eq_some_iff.mp marked
  rcases (tracked depositId td found).mp spent with mined | inPool
  · exact absurd mined (by decide)
  · cases inPool

end Marks

end Virie.Wallet
