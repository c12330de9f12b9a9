import Virie.Chainstate.Spends
import Virie.Node

/-! # Admission of transactions

Every transaction in the pool passed the stateless checks, and every stored
transaction is a coinbase or came from the pool. No procedure of the node breaks
this, whichever way it ends. -/

open Foundation

namespace Virie

/-- What a transaction passes before it enters the pool. A run may restrict the transactions it
is given further. -/
structure Admissible (E : Env) (good : TransactionPrefix → Prop) (tx : TransactionPrefix) :
    Prop where
  semantic : checkTxSemantic E tx = true
  amounts : (validateTxAmounts tx).isSome = true
  good : good tx

/-- Pool entries are admissible, under their own ids, with their own fees and sizes. -/
def PoolSound (E : Env) (good : TransactionPrefix → Prop) (pool : Pool) : Prop :=
  ∀ id details, pool.transactions.get id = some details →
    id = getTransactionHash E details.tx.toTransactionPrefix ∧
    Admissible E good details.tx.toTransactionPrefix ∧
    validateTxAmounts details.tx.toTransactionPrefix = some details.fee ∧
    details.blobSize = getObjectBlobsize E details.tx.toTransactionPrefix

/-- A stored transaction is a coinbase or admissible, and stored under its own id. -/
def TxSound (E : Env) (good : TransactionPrefix → Prop) (id : Hash) (tx : Transaction) : Prop :=
  id = getTransactionHash E tx.toTransactionPrefix ∧
    (tx.isCoinbase = true ∨ Admissible E good tx.toTransactionPrefix)

/-- A property of all stored transactions. -/
def Db.AllTxs (property : Hash → Transaction → Prop) (db : Db) : Prop :=
  ∀ id entry, db.transactions.get id = some entry → property id entry.tx

/-- A property of the database that neither the spent marks nor the tables of key images, outputs
and aliases touch. -/
structure TablesFree (I : Db → Prop) : Prop where
  tables : ∀ (db : Db) spentKeys outputs multisigOuts aliases addrToAlias, I db →
    I { db with spentKeys, outputs, multisigOuts, aliases, addrToAlias }
  flags : ∀ (db : Db) (txId : Hash) (entry : TransactionChainEntry) (spentFlags : List Bool),
    db.transactions.get txId = some entry → I db →
    I { db with transactions := db.transactions.set txId { entry with spentFlags } }

/-- What only alternative blocks, difficulty queries and the clock change in the storage, apart
from the zone flag that each block sets anew. -/
def Chain.frame (chain : Chain) : Chain :=
  { chain with
    db := {}
    invalidBlocks := ∅
    timestampsMedianCache := ∅
    currentFeeMedian := 0
    currentFeeMedianEffectiveIndex := 0
    services := [] }

/-- A property that depends neither on the cached difficulties nor on the zone flag. -/
def CacheFree (J : Chain → Prop) : Prop :=
  ∀ (chain : Chain) (diffCache : DifficultyCache) (isInCheckpointZone : Bool), J chain.frame →
    J { chain with diffCache, isInCheckpointZone }.frame

theorem cacheFree_true : CacheFree fun _ => True := fun _ _ _ _ => trivial

/-- The transactions of a node are sound, in the pool and in the database, and the frame of its
storage has a property. -/
structure NodeKeeps (E : Env) (good : TransactionPrefix → Prop) (J : Chain → Prop) (node : Node) :
    Prop where
  pool : PoolSound E good node.pool
  txs : node.chain.db.AllTxs (TxSound E good)
  frame : J node.chain.frame

/-- The transactions of a node are sound. -/
abbrev NodeSound (E : Env) (good : TransactionPrefix → Prop) (node : Node) : Prop :=
  NodeKeeps E good (fun _ => True) node

open Procedure

/-! ## The database -/

section Database

variable {P : Hash → Transaction → Prop} {E : Env}

theorem Db.AllTxs.congr {db other : Db} (all : db.AllTxs P)
    (same : other.transactions = db.transactions) : other.AllTxs P := by
  unfold Db.AllTxs
  rwa [same]

theorem Db.AllTxs.set {db : Db} {txId : Hash} {entry : TransactionChainEntry}
    (all : db.AllTxs P) (holds : P txId entry.tx) :
    { db with transactions := db.transactions.set txId entry }.AllTxs P := by
  intro id other found
  change (db.transactions.set txId entry).get id = some other at found
  rw [Container.get_set] at found
  split at found
  · next same =>
    cases found
    rwa [← same]
  · exact all id other found

theorem Db.AllTxs.erase {db : Db} {txId : Hash} (all : db.AllTxs P) :
    { db with transactions := db.transactions.erase txId }.AllTxs P := by
  intro id other found
  change (db.transactions.erase txId).get id = some other at found
  rw [Container.get_erase] at found
  split at found
  · cases found
  · exact all id other found

section Tables

variable {I : Db → Prop}

theorem preserves_setSpentFlag (free : TablesFree I) (txId : Hash) (n : Nat) (spent : Bool) :
    Preserves I (setSpentFlag txId n spent) := by
  refine preserves_get_bind fun db holds => preserves_demand_bind fun entry found => ?_
  exact preserves_bind (preserves_require _) fun _ =>
    preserves_set (free.flags db txId entry _ found holds)

theorem preserves_updateSpentTxFlagsForDirect (free : TablesFree I) (input : TxinToKey)
    (spent : Bool) : Preserves I (updateSpentTxFlagsForDirect input spent) := by
  unfold updateSpentTxFlagsForDirect
  split
  · next direct _ =>
    cases direct with
    | byId ref => exact preserves_setSpentFlag free _ _ _
    | index i =>
      exact preserves_get_bind fun db _ => preserves_bind (preserves_demand _ _) fun out =>
        preserves_setSpentFlag free _ _ _
  · exact preserves_pure ()

theorem preserves_updateSpentTxFlagsForMultisig (free : TablesFree I) (id : Hash) (height : Nat) :
    Preserves I (updateSpentTxFlagsForMultisig id height) :=
  preserves_get_bind fun db holds => preserves_bind (preserves_demand _ _) fun _ =>
    preserves_bind (preserves_set (free.tables db _ _ _ _ _ holds)) fun _ =>
    preserves_setSpentFlag free _ _ _

theorem preserves_addTransactionInputs (free : TablesFree I) (height : Nat) (vin : List Txin) :
    Preserves I (addTransactionInputs height vin) := by
  refine preserves_forEach fun input _ => ?_
  cases input with
  | gen number => exact preserves_pure ()
  | toKey input =>
    exact preserves_get_bind fun db holds => preserves_bind (preserves_require _) fun _ =>
      preserves_bind (preserves_set (free.tables db _ _ _ _ _ holds)) fun _ =>
      preserves_updateSpentTxFlagsForDirect free _ _
  | multisig input => exact preserves_updateSpentTxFlagsForMultisig free _ _

theorem preserves_purgeTransactionInput (free : TablesFree I) (strictCheck : Bool) (input : Txin) :
    Preserves I (purgeTransactionInput strictCheck input) := by
  cases input with
  | gen number => exact preserves_pure ()
  | toKey input =>
    exact preserves_get_bind fun db holds => preserves_bind (preserves_require _) fun _ =>
      preserves_bind (preserves_set (free.tables db _ _ _ _ _ holds)) fun _ =>
      preserves_updateSpentTxFlagsForDirect free _ _
  | multisig input => exact preserves_updateSpentTxFlagsForMultisig free _ _

theorem preserves_purgeTransactionKeyimages (free : TablesFree I) (strictCheck : Bool)
    (vin : List Txin) : Preserves I (purgeTransactionKeyimagesFromBlockchain strictCheck vin) := by
  refine preserves_forEach fun input _ => preserves_ite (fun _ => ?_) fun _ => ?_
  · exact preserves_purgeTransactionInput free _ _
  · exact preserves_bind (preserves_attempt (preserves_purgeTransactionInput free _ _)) fun _ =>
      preserves_pure ()

theorem preserves_pushOutputsFrom (free : TablesFree I) (tx : TransactionPrefix) (txId : Hash)
    (i : Nat) (outs : List TxOut) : Preserves I (pushOutputsFrom E tx txId i outs) := by
  induction outs generalizing i with
  | nil => exact preserves_pure []
  | cons out outs ih =>
    refine preserves_bind ?_ fun _ => preserves_bind (ih _) fun _ => preserves_pure _
    refine preserves_get_bind fun db holds => ?_
    cases out.target with
    | toKey key =>
      exact preserves_bind (preserves_set (free.tables db _ _ _ _ _ holds)) fun _ =>
        preserves_pure _
    | multisig keys =>
      exact preserves_bind (preserves_require _) fun _ => preserves_bind (preserves_require _)
        fun _ => preserves_bind (preserves_set (free.tables db _ _ _ _ _ holds)) fun _ =>
        preserves_pure _

theorem preserves_popOutputsFrom (free : TablesFree I) (tx : TransactionPrefix) (txId : Hash)
    (i : Nat) (outs : List TxOut) : Preserves I (popOutputsFrom E tx txId i outs) := by
  induction outs generalizing i with
  | nil => exact preserves_pure ()
  | cons out outs ih =>
    refine preserves_bind (ih _) fun _ => preserves_get_bind fun db holds => ?_
    cases out.target with
    | toKey key =>
      exact preserves_bind (preserves_demand _ _) fun _ => preserves_bind (preserves_require _)
        fun _ => preserves_bind (preserves_require _) fun _ =>
        preserves_set (free.tables db _ _ _ _ _ holds)
    | multisig keys =>
      exact preserves_bind (preserves_require _) fun _ => preserves_bind (preserves_require _)
        fun _ => preserves_set (free.tables db _ _ _ _ _ holds)

theorem TablesFree.aliases (free : TablesFree I) {db : Db} (holds : I db)
    (aliases : Container String (List ExtraAliasEntryBase))
    (addrToAlias : Container AccountPublicAddress (KeySet String)) :
    I { db with aliases, addrToAlias } :=
  free.tables db db.spentKeys db.outputs db.multisigOuts aliases addrToAlias holds

theorem TablesFree.removeAlias (free : TablesFree I) {db : Db} (holds : I db)
    (address : AccountPublicAddress) (name : String) : I (removeAliasOfAddress address name db) := by
  unfold removeAliasOfAddress
  split
  · exact free.aliases holds db.aliases _
  · exact holds

theorem preserves_putAliasInfo (free : TablesFree I) (ai : ExtraAliasEntry) :
    Preserves I (putAliasInfo E ai) := by
  refine preserves_bind (preserves_require _) fun _ => preserves_get_bind fun db holds => ?_
  have added : Preserves I (modify (addAliasOfAddress ai.address ai.aliasName)) :=
    preserves_modify fun db holds => free.aliases holds db.aliases _
  dsimp only
  cases ((db.aliases.get ai.aliasName).getD []).getLast? with
  | none =>
    exact preserves_bind (preserves_set (free.aliases holds _ db.addrToAlias)) fun _ => added
  | some owner =>
    exact preserves_bind (preserves_demand _ _) fun _ => preserves_bind (preserves_require _)
      fun _ => preserves_bind (preserves_modify fun _ holds => free.removeAlias holds _ _) fun _ =>
      preserves_bind (preserves_modify fun db holds => free.aliases holds _ db.addrToAlias) fun _ =>
      added

theorem preserves_unprocessBlockchainTxExtra (free : TablesFree I) (tx : TransactionPrefix) :
    Preserves I (unprocessBlockchainTxExtra tx) := by
  refine preserves_bind (preserves_demand _ _) fun info => ?_
  split
  · refine preserves_bind (preserves_require _) fun _ => preserves_get_bind fun db holds =>
      preserves_bind (preserves_demand _ _) fun _ => preserves_bind (preserves_require _)
      fun _ => preserves_bind (preserves_modify fun _ holds => free.removeAlias holds _ _) fun _ =>
      preserves_bind (preserves_modify fun db holds => free.aliases holds _ db.addrToAlias)
      fun _ => ?_
    split
    · exact preserves_modify fun db holds => free.aliases holds db.aliases _
    · exact preserves_pure ()
  · exact preserves_pure ()

end Tables

theorem tablesFree_allTxs : TablesFree (Db.AllTxs P) where
  tables _ _ _ _ _ _ all := all
  flags _ txId entry _ found all := all.set (all txId entry found)

theorem preserves_storeTransaction {tx : Transaction} {txId : Hash} (height : Nat)
    (holds : P txId tx) : Preserves (Db.AllTxs P) (storeTransaction E tx txId height) :=
  preserves_bind (preserves_pushOutputsFrom tablesFree_allTxs _ _ _ _) fun _ =>
    preserves_modify fun _ all => all.set holds

theorem preserves_pushBlock (bei : BlockExtendedInfo) (id : Hash) (gindices : Container Nat Nat) :
    Preserves (Db.AllTxs P) (modify (pushBlock bei id gindices)) :=
  preserves_modify fun _ all => all.congr rfl

end Database

/-! ## The storage -/

section Storage

variable {I : Db → Prop} {J : Chain → Prop} {P : Hash → Transaction → Prop} {E : Env}

theorem preserves_getLastNBlocksTimestampsMedian (n : Nat) :
    Preserves (fun chain : Chain => I chain.db ∧ J chain.frame) (getLastNBlocksTimestampsMedian n) := by
  refine preserves_get_bind fun chain holds => ?_
  split
  · exact preserves_pure _
  · exact preserves_bind (preserves_set holds) fun _ => preserves_pure _

theorem preserves_isTxExpired (tx : TransactionPrefix) :
    Preserves (fun chain : Chain => I chain.db ∧ J chain.frame) (isTxExpired tx) :=
  preserves_bind (preserves_getLastNBlocksTimestampsMedian _) fun _ => preserves_pure _

theorem preserves_getTxFeeMedian :
    Preserves (fun chain : Chain => I chain.db ∧ J chain.frame) getTxFeeMedian := by
  refine preserves_get_bind fun chain _ => preserves_bind (preserves_onlyIf ?_) fun _ => ?_
  · exact preserves_bind (preserves_reading _) fun _ => preserves_modify fun _ holds => holds
  · exact preserves_bind (preserves_modify fun _ holds => holds) fun _ =>
      preserves_get_bind fun _ _ => preserves_pure _

theorem preserves_getNextDiffConditional (free : CacheFree J) (pos : Bool) :
    Preserves (fun chain : Chain => I chain.db ∧ J chain.frame) (getNextDiffConditional pos) := by
  refine preserves_bind (preserves_reading _) fun _ =>
    preserves_bind (preserves_modify fun chain holds => ?_) fun _ => preserves_pure _
  split
  · exact holds
  · exact ⟨holds.1, free chain _ _ holds.2⟩

theorem preserves_getCachedNextDifficulty (free : CacheFree J) (pos : Bool) :
    Preserves (fun chain : Chain => I chain.db ∧ J chain.frame) (getCachedNextDifficulty pos) :=
  preserves_get_bind fun chain holds => preserves_bind
    (preserves_set ⟨holds.1, free chain _ _ holds.2⟩) fun _ =>
    preserves_ite (fun _ => preserves_pure _) fun _ => preserves_getNextDiffConditional free _

theorem preserves_prevalidateAliasInfo (tx : TransactionPrefix) (entry : ExtraAliasEntry) :
    Preserves (fun chain : Chain => I chain.db ∧ J chain.frame) (prevalidateAliasInfo E tx entry) := by
  refine preserves_bind (preserves_require _) fun _ => preserves_get_bind fun chain _ => ?_
  refine preserves_ite (fun _ => preserves_pure _) fun _ => ?_
  refine preserves_bind ?_ fun _ => preserves_ite (fun _ => ?_) fun _ => preserves_pure _
  · exact preserves_bind (preserves_bind preserves_getTxFeeMedian fun _ => preserves_pure _)
      fun _ => preserves_require _
  · exact preserves_bind (preserves_require _) fun _ => preserves_require _

theorem preserves_effectiveFeeMedian (height : Nat) :
    Preserves (fun chain : Chain => I chain.db ∧ J chain.frame) (effectiveFeeMedian height) :=
  preserves_ite (fun _ => preserves_getTxFeeMedian) fun _ =>
    preserves_get_bind fun _ _ => preserves_pure _

theorem preserves_onDb {α : Type} {body : DbM α} (keeps : Preserves I body) :
    Preserves (fun chain : Chain => I chain.db ∧ J chain.frame) (onDb body) :=
  preserves_within fun chain holds => ⟨keeps chain.db holds.1, holds.2⟩

theorem preserves_undoTransactionSteps (tx : Transaction) (height timestamp : Nat) (strict : Bool) :
    Preserves (fun chain : Chain => chain.db.AllTxs P ∧ J chain.frame)
      (undoTransactionSteps tx height timestamp strict) :=
  preserves_bind
    (preserves_attempt (preserves_onDb (preserves_purgeTransactionKeyimages tablesFree_allTxs _ _)))
    fun _ => preserves_bind
      (preserves_onDb (preserves_unprocessBlockchainTxExtra tablesFree_allTxs _)) fun _ =>
      preserves_modify fun _ all => all

theorem preserves_addTransactionFromBlock {tx : Transaction} {txId : Hash} (blId : Hash)
    (height timestamp : Nat) (holds : P txId tx) :
    Preserves (fun chain : Chain => chain.db.AllTxs P ∧ J chain.frame)
      (addTransactionFromBlock E tx txId blId height timestamp) := by
  refine preserves_bind (preserves_isTxExpired _) fun _ => preserves_bind (preserves_require _)
    fun _ => preserves_bind ?_ fun _ => preserves_bind (preserves_modify fun _ all => all)
    fun _ => preserves_bind
      (preserves_attempt (preserves_onDb (preserves_addTransactionInputs tablesFree_allTxs _ _)))
    fun _ => preserves_ite (fun _ => ?_) fun _ => preserves_get_bind fun _ _ =>
      preserves_ite (fun _ => ?_) fun _ => ?_
  · refine preserves_bind (preserves_demand _ _) fun _ => ?_
    split
    · exact preserves_bind (preserves_prevalidateAliasInfo _ _) fun _ =>
        preserves_onDb (preserves_putAliasInfo tablesFree_allTxs _)
    · exact preserves_pure ()
  · exact preserves_bind (preserves_undoTransactionSteps _ _ _ _) fun _ => preserves_throw _
  · exact preserves_bind (preserves_undoTransactionSteps _ _ _ _) fun _ => preserves_throw _
  · exact preserves_onDb (preserves_storeTransaction _ holds)

theorem preserves_onBlockAdded :
    Preserves (fun chain : Chain => chain.db.AllTxs P ∧ J chain.frame) (modify onBlockAdded) := by
  refine preserves_modify fun chain holds => ?_
  have frame : (onBlockAdded chain).frame = chain.frame := by
    simp only [onBlockAdded, Chain.frame]
  refine ⟨holds.1.congr ?_, ?_⟩
  · simp only [onBlockAdded, Db.updateNextComulativeSizeLimit]
  · rw [frame]
    exact holds.2

theorem preserves_checkBlockHeader (free : CacheFree J) (bl : Block) (id : Hash) :
    Preserves (fun chain : Chain => I chain.db ∧ J chain.frame) (checkBlockHeader E bl id) :=
  preserves_get_bind fun chain holds => preserves_bind (preserves_require _) fun _ =>
    preserves_bind (preserves_require _) fun _ => preserves_bind
    (preserves_set ⟨holds.1, free chain _ _ holds.2⟩) fun _ =>
    preserves_bind (preserves_require _) fun _ => preserves_bind (preserves_require _) fun _ =>
    preserves_bind (preserves_getNextDiffConditional free _) fun _ =>
    preserves_bind (preserves_require _) fun _ => preserves_bind (preserves_reading _) fun _ =>
    preserves_bind (preserves_require _) fun _ => preserves_pure _

end Storage

/-! ## The pool -/

section Pool

variable {E : Env} {good : TransactionPrefix → Prop}

theorem PoolSound.congr {pool other : Pool} (sound : PoolSound E good pool)
    (same : other.transactions = pool.transactions) : PoolSound E good other := by
  unfold PoolSound
  rwa [same]

/-- Removing a transaction from the containers keeps the rest of them sound. -/
theorem preserves_forgetTx (id : Hash) (tx : Transaction) (keptByBlock : Bool) :
    Preserves (PoolSound E good) (forgetTx E id tx keptByBlock) := by
  refine preserves_bind (preserves_attempt (preserves_forEach fun _ _ => ?_)) fun _ =>
    preserves_bind (preserves_modify ?_) fun _ =>
    preserves_bind (preserves_attempt (preserves_bind (preserves_modify ?_) fun _ => ?_)) fun _ =>
    preserves_pure ()
  · exact preserves_ite (fun _ => preserves_bind (preserves_demand _ _) fun _ =>
      preserves_get_bind fun _ sound => preserves_bind (preserves_require _) fun _ =>
      preserves_set sound) fun _ => preserves_pure ()
  · intro pool sound other details found
    change (pool.transactions.erase id).get other = some details at found
    rw [Container.get_erase] at found
    split at found
    · cases found
    · exact sound other details found
  · intro pool sound
    split <;> exact sound
  · refine preserves_bind (preserves_demand _ _) fun _ => ?_
    split
    · exact preserves_modify fun _ sound => sound
    · exact preserves_pure ()

/-- A transaction that is taken leaves the pool sound and was sound in it. -/
theorem preserves_takeTx (id : Hash) : Preserves (PoolSound E good) (takeTx E id) :=
  preserves_get_bind fun _ _ => preserves_bind (preserves_demand _ _) fun _ =>
    preserves_bind (preserves_forgetTx _ _ _) fun _ =>
    preserves_bind (preserves_modify fun _ sound => sound) fun _ => preserves_pure _

theorem takeTx_details {id : Hash} {before after : Pool} {details : TxDetails}
    (run : takeTx E id before = .ok details after) : before.transactions.get id = some details := by
  simp only [takeTx, bind_ok, get_ok, demand_ok, pure_ok] at run
  obtain ⟨_, _, ⟨rfl, rfl⟩, _, _, ⟨found, rfl⟩, _, _, _, _, _, _, rfl, _⟩ := run
  exact found

end Pool

/-! ## The node -/

section Node

variable {E : Env} {good : TransactionPrefix → Prop} {J : Chain → Prop} {α : Type}

theorem keeps_onChain {body : ChainM α}
    (keeps : Preserves (fun chain : Chain => chain.db.AllTxs (TxSound E good) ∧ J chain.frame)
      body) : Preserves (NodeKeeps E good J) (onChain body) :=
  preserves_within fun node sound =>
    have ended := keeps node.chain ⟨sound.txs, sound.frame⟩
    ⟨sound.pool, ended.1, ended.2⟩

theorem keeps_onPool {body : PoolM α} (keeps : Preserves (PoolSound E good) body) :
    Preserves (NodeKeeps E good J) (onPool body) :=
  preserves_within fun node sound => ⟨keeps node.pool sound.pool, sound.txs, sound.frame⟩

theorem keeps_doInsertTransaction {tx : Transaction} {fee : Nat}
    (admissible : Admissible E good tx.toTransactionPrefix)
    (amounts : validateTxAmounts tx.toTransactionPrefix = some fee) (keptByBlock : Bool)
    (blockId : Hash) (blockHeight : Nat) :
    Preserves (NodeKeeps E good J) (doInsertTransaction tx
      (getTransactionHash E tx.toTransactionPrefix) (getObjectBlobsize E tx.toTransactionPrefix)
      keptByBlock fee blockId blockHeight) := by
  refine preserves_get_bind fun node _ => keeps_onPool ?_
  refine preserves_bind (preserves_modify ?_) fun _ =>
    preserves_bind (preserves_attempt (preserves_bind (preserves_modify ?_) fun _ => ?_)) fun _ =>
    preserves_pure ()
  · intro pool sound id details found
    change (pool.transactions.set _ _).get id = some details at found
    rw [Container.get_set] at found
    split at found
    · next same =>
      cases found
      exact ⟨same.symm, admissible, amounts, rfl⟩
    · exact sound id details found
  · intro pool sound
    split <;> exact sound
  · refine preserves_bind (preserves_demand _ _) fun _ => ?_
    split
    · exact preserves_modify fun _ sound => sound
    · exact preserves_pure ()

theorem keeps_validateAliasInfo (tx : TransactionPrefix) (isInBlock : Bool) :
    Preserves (NodeKeeps E good J) (validateAliasInfo E tx isInBlock) := by
  unfold validateAliasInfo
  split
  · exact preserves_pure ()
  · refine preserves_ite (fun _ => preserves_pure ()) fun _ => preserves_get_bind fun _ _ => ?_
    exact preserves_bind (preserves_require _) fun _ => preserves_bind (preserves_require _)
      fun _ => preserves_bind (preserves_require _) fun _ => preserves_bind (preserves_require _)
      fun _ => keeps_onChain (preserves_prevalidateAliasInfo _ _)

/-- Adding a transaction keeps a node sound if the transaction passed the stateless checks. -/
theorem keeps_addTx {tx : Transaction} (semantic : checkTxSemantic E tx.toTransactionPrefix = true)
    (isGood : good tx.toTransactionPrefix) (minFee : Nat) (keptByBlock fromCore : Bool) :
    Preserves (NodeKeeps E good J) (addTx E tx minFee keptByBlock fromCore) := by
  refine preserves_get_bind fun node _ => preserves_bind (preserves_require _) fun _ =>
    preserves_bind (preserves_onlyIf ?_) fun _ => preserves_demand_bind fun fee amounts =>
    preserves_bind (preserves_onlyIf ?_) fun _ => preserves_bind (preserves_onlyIf ?_) fun _ =>
    preserves_bind ?_ fun _ => preserves_bind (preserves_reading _) fun _ =>
    preserves_ite (fun _ => preserves_pure _) fun _ => preserves_get_bind fun node _ => ?_
  · exact preserves_bind (keeps_onChain (preserves_isTxExpired _)) fun _ => preserves_require _
  · exact keeps_validateAliasInfo _ _
  · exact preserves_get_bind fun _ _ => preserves_bind (preserves_require _) fun _ =>
      preserves_require _
  · refine preserves_get_bind fun _ _ => ?_
    split
    · exact preserves_bind (preserves_modify fun _ sound => ⟨sound.pool, sound.txs, sound.frame⟩)
        fun _ => preserves_pure _
    · exact preserves_pure _
  · have admissible : Admissible E good tx.toTransactionPrefix :=
      ⟨semantic, by rw [amounts]; rfl, isGood⟩
    split
    · exact preserves_throw _
    · exact preserves_bind (preserves_require _) fun _ => preserves_bind
        (keeps_doInsertTransaction admissible amounts _ _ _) fun _ => preserves_pure _
    · exact preserves_bind (keeps_doInsertTransaction admissible amounts _ _ _) fun _ =>
        preserves_pure _

/-! ## Disconnecting and connecting -/

theorem keeps_purgeTransactionFromBlockchain (txId : Hash) (addToPool : Bool) :
    Preserves (NodeKeeps E good J) (purgeTransactionFromBlockchain E txId addToPool) := by
  refine preserves_get_bind fun node sound => preserves_demand_bind fun entry found =>
    preserves_bind
      (keeps_onChain (preserves_onDb (preserves_purgeTransactionKeyimages tablesFree_allTxs _ _)))
    fun _ => preserves_bind
      (keeps_onChain (preserves_onDb (preserves_unprocessBlockchainTxExtra tablesFree_allTxs _)))
    fun _ => preserves_bind (keeps_onChain (preserves_modify fun _ all => all)) fun _ =>
    preserves_bind ?_ fun _ => preserves_bind (preserves_attempt
      (keeps_onChain (preserves_onDb (preserves_popOutputsFrom tablesFree_allTxs _ _ _ _)))) fun _ =>
    preserves_bind (keeps_onChain (preserves_onDb (preserves_modify fun _ all => all.erase)))
    fun _ => preserves_require _
  rcases (sound.txs txId entry found).2 with coinbase | admissible
  · rw [coinbase, Bool.not_true, Bool.and_false]
    exact preserves_pure ()
  · exact preserves_onlyIf (preserves_bind (keeps_addTx admissible.semantic admissible.good _ _ _)
      fun _ => preserves_pure _)

theorem keeps_purgeTransactionsFromBlockchain (addToPool : Bool) (txIds : List Hash) :
    Preserves (NodeKeeps E good J) (purgeTransactionsFromBlockchain E addToPool txIds) := by
  induction txIds with
  | nil => exact preserves_pure true
  | cons txId rest ih =>
    exact preserves_bind (preserves_attempt (keeps_purgeTransactionFromBlockchain _ _)) fun _ =>
      preserves_bind ih fun _ => preserves_pure _

theorem keeps_purgeBlockDataFromBlockchain (bl : Block) (count : Nat) (addTxsToPool : Bool) :
    Preserves (NodeKeeps E good J) (purgeBlockDataFromBlockchain E bl count addTxsToPool) :=
  preserves_bind (preserves_require _) fun _ => preserves_bind
    (keeps_purgeTransactionsFromBlockchain _ _) fun _ =>
    preserves_bind (preserves_attempt (keeps_purgeTransactionFromBlockchain _ _)) fun _ =>
    preserves_require _

theorem keeps_popBlockFromBlockchain (addTxsToPool : Bool) :
    Preserves (NodeKeeps E good J) (popBlockFromBlockchain E addTxsToPool) :=
  preserves_get_bind fun _ _ => preserves_bind (preserves_require _) fun _ =>
    preserves_bind (preserves_demand _ _) fun _ =>
    preserves_bind (keeps_purgeBlockDataFromBlockchain _ _ _) fun _ =>
    preserves_bind (keeps_onChain (preserves_onDb (preserves_modify fun _ all => all))) fun _ =>
    keeps_onChain (preserves_modify fun _ all => all)

theorem keeps_rejectBlock (bl : Block) (count : Nat) :
    Preserves (NodeKeeps E good J) (rejectBlock E bl count : NodeM α) :=
  preserves_bind (preserves_attempt (keeps_purgeBlockDataFromBlockchain _ _ _)) fun _ =>
    preserves_throw _

theorem pruneInZone_tx (chain : Chain) (tx : Transaction) :
    (pruneInZone chain tx).toTransactionPrefix = tx.toTransactionPrefix := by
  unfold pruneInZone
  split <;> rfl

theorem keeps_returnTxToPool {tx : Transaction} (height : Nat)
    (admissible : Admissible E good tx.toTransactionPrefix) :
    Preserves (NodeKeeps E good J) (returnTxToPool E tx height) :=
  preserves_bind (preserves_attempt (keeps_addTx admissible.semantic admissible.good _ _ _))
    fun _ => keeps_onPool (preserves_modify fun _ sound => sound)

theorem keeps_connectTransaction (bl : Block) (id : Hash) (height : Nat) (totals : BlockTotals)
    (txId : Hash) :
    Preserves (NodeKeeps E good J) (connectTransaction E bl id height totals txId) := by
  refine preserves_get_bind fun node _ => preserves_ite (fun _ => keeps_rejectBlock _ _) fun _ =>
    preserves_bind_of (keeps_onPool (preserves_takeTx txId)) fun before txe middle sound taken => ?_
  have kept : NodeKeeps E good J middle := (keeps_onPool (preserves_takeTx txId)).of_ok taken sound
  obtain ⟨part, inner, rfl⟩ := within_ok.mp taken
  obtain ⟨named, admissible, _⟩ := sound.pool txId txe (takeTx_details inner)
  refine preserves_get_bind (fun node _ => ?_) _ kept
  have pruned := pruneInZone_tx node.chain txe.tx
  dsimp only
  generalize pruneInZone node.chain txe.tx = tx at pruned ⊢
  rw [← pruned] at named admissible
  split
  · exact preserves_throw _
  · exact preserves_bind (keeps_returnTxToPool _ admissible) fun _ => preserves_bind
      (preserves_attempt (keeps_purgeBlockDataFromBlockchain _ _ _)) fun _ => preserves_bind
      (keeps_onChain (preserves_modify fun chain all => by
        unfold addBlockAsInvalid
        split <;> exact all)) fun _ => preserves_throw _
  · refine preserves_bind (preserves_attempt (keeps_onChain
      (preserves_addTransactionFromBlock _ _ _ ⟨named, .inr admissible⟩))) fun _ =>
      preserves_ite (fun _ => ?_) fun _ => preserves_pure _
    exact preserves_bind (keeps_returnTxToPool _ admissible) fun _ => keeps_rejectBlock _ _

theorem keeps_connectTransactions (bl : Block) (id : Hash) (height : Nat) (totals : BlockTotals)
    (txIds : List Hash) :
    Preserves (NodeKeeps E good J) (connectTransactions E bl id height totals txIds) := by
  induction txIds generalizing totals with
  | nil => exact preserves_pure totals
  | cons txId rest ih =>
    exact preserves_bind (keeps_connectTransaction bl id height totals txId) fun next => ih next

theorem keeps_finishBlock (bl : Block) (id : Hash) (aliasesCount currentDiff : Nat) (proof : Hash)
    (totals : BlockTotals) :
    Preserves (NodeKeeps E good J) (finishBlock E bl id aliasesCount currentDiff proof totals) := by
  refine preserves_get_bind fun node _ => preserves_ite (fun _ => keeps_rejectBlock _ _) fun _ => ?_
  split
  · exact keeps_rejectBlock _ _
  · refine preserves_bind (preserves_reading _) fun _ => preserves_ite
      (fun _ => keeps_rejectBlock _ _) fun _ => preserves_bind
      (keeps_onChain (preserves_effectiveFeeMedian _)) fun _ => preserves_bind
      (keeps_onChain (preserves_onDb (preserves_pushBlock _ _ _))) fun _ =>
      keeps_onChain (preserves_onBlockAdded)

/-- A coinbase of the required form is a coinbase. -/
theorem isCoinbase_of_prevalidate {bl : Block} {height : Nat} {pos : Bool}
    (valid : prevalidateMinerTransaction bl height pos = true) : bl.minerTx.isCoinbase = true := by
  simp only [prevalidateMinerTransaction, Bool.and_eq_true] at valid
  have form := valid.1.1.1.1
  cases pos
  · simp only [Bool.false_eq_true, ↓reduceIte, TransactionPrefix.isPowCoinbase,
      Bool.and_eq_true] at form
    exact form.1
  · simp only [↓reduceIte, Transaction.isPosCoinbase, Bool.and_eq_true] at form
    exact form.1

/-- Connecting a block whose coinbase is one keeps every property of the frame. -/
theorem keeps_connectCheckedBlock {bl : Block} (coinbase : bl.minerTx.isCoinbase = true) (id : Hash)
    (currentDiff : Nat) (proof : Hash) :
    Preserves (NodeKeeps E good J) (connectCheckedBlock E bl id currentDiff proof) :=
  preserves_get_bind fun _ _ => preserves_bind (keeps_onChain
    (preserves_addTransactionFromBlock _ _ _ ⟨rfl, .inl coinbase⟩)) fun _ =>
    preserves_bind (keeps_connectTransactions _ _ _ _ _) fun _ => keeps_finishBlock _ _ _ _ _ _

theorem coinbase_of_checkBlockHeader {bl : Block} {id : Hash} {checked : Nat × Hash}
    {before after : Chain} (run : checkBlockHeader E bl id before = .ok checked after) :
    bl.minerTx.isCoinbase = true := by
  simp only [checkBlockHeader, bind_ok, get_ok, require_ok, set_ok, pure_ok] at run
  obtain ⟨_, _, ⟨rfl, rfl⟩, _, _, _, _, _, _, _, _, rfl, _, _, _, _, _, _, _, _, _, _, _, _, _, _,
    _, _, _, ⟨valid, _⟩, _⟩ := run
  exact isCoinbase_of_prevalidate valid

/-- Connecting a block keeps a property of the frame that checking its header establishes. -/
theorem keeps_handleBlock_of_header {bl : Block} {id : Hash} {node : Node}
    (sound : NodeSound E good node)
    (header : J (final (checkBlockHeader E bl id node.chain)).frame) :
    NodeKeeps E good J (final (handleBlockToMainChain E bl id node)) := by
  have checkedSound : NodeSound E good (final (onChain (checkBlockHeader E bl id) node)) :=
    keeps_onChain (preserves_checkBlockHeader cacheFree_true bl id) node sound
  unfold handleBlockToMainChain
  cases run : checkBlockHeader E bl id node.chain with
  | error reason chain =>
    have same : onChain (checkBlockHeader E bl id) node = .error reason { node with chain } := by
      rw [onChain, within, run]
    rw [same] at checkedSound
    rw [run] at header
    rw [bind_of_error same]
    exact ⟨checkedSound.pool, checkedSound.txs, header⟩
  | ok checked chain =>
    have same : onChain (checkBlockHeader E bl id) node = .ok checked { node with chain } :=
      within_of_ok run
    rw [same] at checkedSound
    rw [run] at header
    rw [bind_of_ok same]
    exact keeps_connectCheckedBlock (coinbase_of_checkBlockHeader run) id _ _ _
      ⟨checkedSound.pool, checkedSound.txs, header⟩

theorem keeps_handleBlockToMainChain (free : CacheFree J) (bl : Block) (id : Hash) :
    Preserves (NodeKeeps E good J) (handleBlockToMainChain E bl id) := fun node keeps =>
  keeps_handleBlock_of_header ⟨keeps.pool, keeps.txs, trivial⟩
    (preserves_checkBlockHeader (I := fun _ => True) free bl id node.chain ⟨trivial, keeps.frame⟩).2

/-! ## Switching and submitting -/

theorem NodeSound.congr {node other : Node} (sound : NodeSound E good node)
    (db : other.chain.db = node.chain.db) (pool : other.pool = node.pool) :
    NodeSound E good other :=
  ⟨by rw [pool]; exact sound.pool, by rw [db]; exact sound.txs, trivial⟩

theorem keeps_rollbackBlockchainSwitching (height : Nat) :
    Preserves (NodeKeeps E good J) (rollbackBlockchainSwitching E height) := by
  refine preserves_get_bind fun node _ => preserves_forEach fun bei _ =>
    preserves_forEach fun txId _ => preserves_get_bind fun node sound =>
    preserves_demand_bind fun entry found => ?_
  rcases (sound.txs txId entry found).2 with coinbase | admissible
  · rw [coinbase]
    exact preserves_pure ()
  · exact preserves_onlyIf (preserves_bind (keeps_addTx admissible.semantic admissible.good _ _ _)
      fun _ => preserves_pure _)

theorem keeps_requirePrevLinks : Preserves (NodeKeeps E good J) (requirePrevLinks E) :=
  preserves_get_bind fun _ _ => preserves_require _

theorem keeps_disconnectBlocks (count : Nat) :
    Preserves (NodeKeeps E good J) (disconnectBlocks E count) := by
  induction count with
  | zero => exact preserves_pure []
  | succ count ih =>
    exact preserves_get_bind fun _ _ => preserves_bind (preserves_demand _ _) fun _ =>
      preserves_bind (keeps_popBlockFromBlockchain _) fun _ =>
      preserves_bind keeps_requirePrevLinks fun _ => preserves_bind ih fun _ => preserves_pure _

theorem keeps_connectBranch (free : CacheFree J) (altChain : AltChain) :
    Preserves (NodeKeeps E good J) (connectBranch E altChain) := by
  induction altChain with
  | nil => exact preserves_pure []
  | cons head rest ih =>
    exact preserves_bind (preserves_attempt (keeps_handleBlockToMainChain free _ _)) fun _ =>
      preserves_ite (fun _ => ih) fun _ => preserves_pure _

theorem keeps_handleAlternativeBlock (bl : Block) (id : Hash) :
    Preserves (NodeSound E good) (handleAlternativeBlock E bl id) := by
  refine preserves_get_bind fun node _ => ?_
  split
  · exact preserves_pure _
  · exact preserves_pure _
  · exact preserves_bind (keeps_onChain (preserves_modify fun _ all => all)) fun _ =>
      preserves_pure _

theorem keeps_storeDisconnected (blocks : List Block) :
    Preserves (NodeSound E good) (storeDisconnected E blocks) := by
  induction blocks with
  | nil => exact preserves_pure true
  | cons bl rest ih =>
    exact preserves_bind (keeps_handleAlternativeBlock _ _) fun _ => preserves_ite (fun _ => ih)
      fun _ => preserves_pure _

theorem keeps_eraseBranch (altChain : AltChain) :
    Preserves (NodeSound E good) (eraseBranch E altChain) :=
  preserves_forEach fun _ _ => preserves_modify fun _ sound => sound.congr rfl rfl

theorem keeps_invalidateBranch (altChain : AltChain) :
    Preserves (NodeSound E good) (invalidateBranch E altChain) :=
  preserves_forEach fun _ _ => preserves_bind (keeps_onChain (preserves_modify fun _ all => by
    unfold addBlockAsInvalid
    split <;> exact all)) fun _ => preserves_modify fun _ sound => sound.congr rfl rfl

theorem keeps_finishSwitch (altChain : AltChain) (splitHeight : Nat)
    (disconnectedChain : List Block) (failing : AltChain) :
    Preserves (NodeSound E good)
      (finishSwitch E altChain splitHeight disconnectedChain failing) :=
  preserves_ite
      (fun _ => preserves_bind (keeps_storeDisconnected _) fun _ => preserves_ite
        (fun _ => preserves_bind (keeps_eraseBranch _) fun _ => preserves_pure _)
        (fun _ => preserves_bind (preserves_attempt (keeps_rollbackBlockchainSwitching _)) fun _ =>
          preserves_bind (preserves_attempt keeps_requirePrevLinks) fun _ =>
          preserves_bind (preserves_onlyIf (keeps_eraseBranch _)) fun _ => preserves_pure _))
      (fun _ => preserves_bind (preserves_attempt (keeps_rollbackBlockchainSwitching _)) fun _ =>
        preserves_bind (keeps_invalidateBranch _) fun _ => preserves_pure _)

theorem keeps_switchToAlternativeBlockchain (altChain : AltChain) :
    Preserves (NodeSound E good) (switchToAlternativeBlockchain E altChain) :=
  preserves_bind keeps_requirePrevLinks fun _ => preserves_bind (preserves_demand _ _) fun _ =>
    preserves_get_bind fun _ _ => preserves_bind (preserves_require _) fun _ =>
    preserves_bind (keeps_disconnectBlocks _) fun _ =>
    preserves_bind (keeps_connectBranch cacheFree_true _) fun _ => keeps_finishSwitch _ _ _ _

theorem keeps_finalizeLinked : Preserves (NodeSound E good) (finalizeLinked E) :=
  preserves_get_bind fun _ _ => preserves_ite
    (fun _ => preserves_bind (keeps_onPool (preserves_modify fun _ sound => sound)) fun _ =>
      preserves_pure _)
    (fun _ => preserves_pure _)

theorem keeps_reorganize (altChain : AltChain) :
    Preserves (NodeSound E good) (reorganize E altChain) := by
  have keepsRun : Preserves (NodeSound E good) (runSwitch E altChain) := by
    intro before sound
    have ended := keeps_switchToAlternativeBlockchain altChain before sound
    unfold runSwitch
    revert ended
    rcases switchToAlternativeBlockchain E altChain before with ⟨_, after⟩ | ⟨_ | _, after⟩ <;>
      exact fun ended => ended
  exact preserves_bind keepsRun fun _ => preserves_ite (fun _ => preserves_pure _) fun _ =>
    preserves_bind keeps_finalizeLinked fun _ => preserves_pure _

theorem keeps_submitBlock (bl : Block) : Preserves (NodeSound E good) (submitBlock E bl) := by
  refine preserves_get_bind fun node _ => preserves_ite (fun _ => preserves_pure _) fun _ =>
    preserves_ite (fun _ => ?_) fun _ => ?_
  · refine preserves_bind (keeps_handleAlternativeBlock _ _) fun verdict => ?_
    cases verdict with
    | failed => exact preserves_bind keeps_finalizeLinked fun _ => preserves_pure _
    | orphaned linked => exact preserves_pure _
    | added altChain proof =>
      exact preserves_get_bind fun _ _ => preserves_bind (preserves_demand _ _) fun _ =>
        preserves_bind (preserves_demand _ _) fun _ => preserves_ite (fun _ => keeps_reorganize _)
        fun _ => preserves_pure _
  · refine preserves_bind (preserves_attempt (keeps_handleBlockToMainChain cacheFree_true _ _)) fun _ =>
      preserves_ite (fun _ => ?_) fun _ => ?_
    · exact preserves_bind keeps_finalizeLinked fun _ => preserves_pure _
    · exact preserves_bind (keeps_onPool (preserves_modify fun _ sound => sound)) fun _ =>
        preserves_bind (keeps_onChain (preserves_modify fun _ all => all)) fun _ =>
        preserves_pure _

/-- A submission keeps a node sound: it ends in the database it reached or in the old one. -/
theorem NodeSound.addNewBlock {node : Node} (sound : NodeSound E good node) (bl : Block) :
    NodeSound E good (Virie.addNewBlock E bl node).2 := by
  have ended := keeps_submitBlock bl node sound
  unfold Virie.addNewBlock
  revert ended
  cases submitBlock E bl node with
  | ok submission after =>
    intro ended
    dsimp only
    split
    · exact NodeSound.congr ended rfl rfl
    · exact ⟨ended.pool, sound.txs, trivial⟩
  | error reason after => exact fun ended => ⟨ended.pool, sound.txs, trivial⟩

theorem NodeSound.truncateBlockchain {node : Node} (sound : NodeSound E good node)
    (toHeight : Nat) : NodeSound E good (Virie.truncateBlockchain E toHeight node) := by
  have keeps : ∀ count, Preserves (NodeSound E good) (popBlocks E count) := by
    intro count
    induction count with
    | zero => exact preserves_pure true
    | succ count ih =>
      exact preserves_bind (preserves_attempt (keeps_popBlockFromBlockchain _)) fun _ =>
        preserves_ite (fun _ => ih) fun _ => preserves_pure _
  have ended := keeps (node.chain.db.blocks.length - toHeight) node sound
  unfold Virie.truncateBlockchain
  revert ended
  cases popBlocks E (node.chain.db.blocks.length - toHeight) node with
  | ok value after => exact fun ended => ended.congr rfl rfl
  | error reason after => exact fun ended => ⟨ended.pool, sound.txs, trivial⟩

theorem NodeSound.pruneAgedAltBlocks {node : Node} (sound : NodeSound E good node) :
    NodeSound E good (Virie.pruneAgedAltBlocks E node) := by
  unfold Virie.pruneAgedAltBlocks
  generalize node.chain.alternativeChains.toList = entries
  induction entries generalizing node with
  | nil => exact sound
  | cons head rest ih =>
    rw [List.foldl_cons]
    apply ih
    dsimp only
    split
    · exact sound.congr rfl rfl
    · exact sound

/-- The transactions a node is given from the network meet a condition. -/
def GoodIncoming (good : TransactionPrefix → Prop) (event : Event) (_ : Node) : Prop :=
  match event with
  | .incomingTx tx _ _ => good tx.toTransactionPrefix
  | _ => True

theorem keeps_handleIncomingTx {tx : Transaction} (incoming : good tx.toTransactionPrefix)
    (blobSize : Nat) (keptByBlock : Bool) :
    Preserves (NodeKeeps E good J) (handleIncomingTx E tx blobSize keptByBlock) :=
  preserves_get_bind fun _ _ => preserves_bind (preserves_require _) fun _ =>
    preserves_bind (preserves_require _) fun _ => preserves_require_bind fun semantic =>
    preserves_get_bind fun _ _ => preserves_ite (fun _ => preserves_pure ()) fun _ =>
    preserves_bind (keeps_addTx semantic incoming _ _ _) fun _ => preserves_pure _

theorem keeps_removeStuckTransactions :
    Preserves (NodeKeeps E good J) (removeStuckTransactions E) :=
  preserves_bind (keeps_onChain (preserves_getLastNBlocksTimestampsMedian _)) fun _ =>
    preserves_get_bind fun _ _ => preserves_forEach fun _ _ =>
    keeps_onPool (preserves_forgetTx _ _ _)

theorem PoolSound.purged (pool : Pool) : PoolSound E good (purgeTransactions pool) := by
  intro id details found
  change (∅ : Container Hash TxDetails).get id = some details at found
  rw [Container.get_empty] at found
  cases found

theorem NodeSound.step {node : Node} (sound : NodeSound E good node) {event : Event}
    (incoming : GoodIncoming good event node) : NodeSound E good (Virie.step E event node) := by
  cases event with
  | submitBlock bl => exact sound.addNewBlock bl
  | incomingTx tx blobSize keptByBlock =>
    exact keeps_handleIncomingTx incoming blobSize keptByBlock node sound
  | truncate toHeight => exact sound.truncateBlockchain toHeight
  | pruneAged => exact sound.pruneAgedAltBlocks
  | removeStuck => exact keeps_removeStuckTransactions node sound
  | purgePool => exact ⟨.purged node.pool, sound.txs, trivial⟩
  | queryDifficulty pos =>
    exact keeps_onChain (preserves_getCachedNextDifficulty cacheFree_true pos) node sound
  | queryTimestampsMedian n =>
    exact keeps_onChain (preserves_getLastNBlocksTimestampsMedian n) node sound
  | queryFeeMedian => exact keeps_onChain preserves_getTxFeeMedian node sound
  | tick coreTime => exact sound.congr rfl rfl

/-- An empty node is sound. -/
theorem NodeSound.fresh (coreTime : Nat) : NodeSound E good (Node.fresh coreTime) := by
  refine ⟨fun id details found => ?_, fun id entry found => ?_, trivial⟩
  · change (∅ : Container Hash TxDetails).get id = some details at found
    rw [Container.get_empty] at found
    cases found
  · change (∅ : Container Hash TransactionChainEntry).get id = some entry at found
    rw [Container.get_empty] at found
    cases found

end Node
end Virie
