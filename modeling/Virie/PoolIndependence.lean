import Virie.Chainstate.PoolVersions

/-! # Blocks and pool rules

A peer sends the transactions of a block before the block and vouches for them. Which of
them reach the block is up to the pool: a node keeps the version of a transaction that it
already holds, passes over one that it has taken for an earlier block, and grants the
exception from the minimal fee only to cancellations that it has not seen before. Nodes
whose pools do not get in the way of these transactions agree on the block. -/

open Foundation

namespace Virie

/-- A transaction that is sent together with a block, with its size. -/
structure Offer where
  tx : Transaction
  blobSize : Nat

section Offers

variable (E : Env)

def Offer.id (offer : Offer) : Hash := getTransactionHash E offer.tx.toTransactionPrefix

def Offer.event (offer : Offer) : Event := .incomingTx offer.tx offer.blobSize true

/-- The version of the offered transaction that a pool without it comes to hold. -/
def Offer.version (offer : Offer) : TxVersion where
  tx := offer.tx
  fee := (validateTxAmounts offer.tx.toTransactionPrefix).getD 0
  blobSize := getObjectBlobsize E offer.tx.toTransactionPrefix

/-- The rules for a transaction that comes with a block. They read the storage and whether the
cancellations of the transaction are new. -/
structure AdmittedWith (chain : Chain) (offer : Offer) (cancels : Bool) : Prop where
  small : offer.blobSize ≤ currencyMaxTransactionBlobSize
  room : offer.blobSize < roomForTransaction chain.db
  semantic : checkTxSemantic E offer.tx.toTransactionPrefix = true
  unknown : chain.db.transactions.has (offer.id E) = false
  fee : ∃ fee, validateTxAmounts offer.tx.toTransactionPrefix = some fee ∧
    feeAccepted chain offer.tx (getObjectBlobsize E offer.tx.toTransactionPrefix) fee
      (getTxMinimumFee chain.db.blocks.length) cancels = .ok true
  readable : ∀ height, checkTxInputsWithBlock E chain offer.tx (offer.id E) 0 ≠ .error .thrown height

/-- The rules for a transaction whose cancellations, if it has any, are new. -/
abbrev Admitted (chain : Chain) (offer : Offer) : Prop :=
  AdmittedWith E chain offer (!(cancelledOffers E offer.tx).isEmpty)

/-- The fee of a transaction needs no exception. -/
def FeeSuffices (chain : Chain) (offer : Offer) : Prop :=
  chain.isInCheckpointZone = true ∨
    getTxMinimumFee chain.db.blocks.length ≤
      (validateTxAmounts offer.tx.toTransactionPrefix).getD 0

/-- A pool does not get in the way of a transaction that comes with a block: it holds this very
version of an admitted transaction, or it holds none, has not taken it for an earlier block,
and knows none of its cancellations unless the fee suffices without an exception. -/
structure Undisturbed (node : Node) (offer : Offer) : Prop where
  held : ∀ version, node.pool.version (offer.id E) = some version →
    version = offer.version E ∧ Admitted E node.chain offer
  untaken : node.pool.version (offer.id E) = none → Admitted E node.chain offer →
    node.pool.takenTxs.contains (offer.id E) = false
  unseen : node.pool.version (offer.id E) = none → FeeSuffices node.chain offer ∨
    ∀ id ∈ cancelledOffers E offer.tx, node.pool.cancelOfferHash.contains id = false

/-- The offers are undisturbed one after the other, each in the state the offers before it led
to. -/
def AllUndisturbed : Node → List Offer → Prop
  | _, [] => True
  | node, offer :: rest =>
    Undisturbed E node offer ∧ AllUndisturbed (step E offer.event node) rest

/-- A node after the transactions of a block were sent to it. -/
def afterOffers (node : Node) (offers : List Offer) : Node :=
  (nodeSystem E anyBlock).after node (offers.map Offer.event)

/-- Whether a submitted block becomes part of the main chain. -/
def joinsMainChain (bl : Block) (node : Node) : Bool :=
  (addNewBlock E bl node).1.2.addedToMainChain

end Offers

open Procedure

section PoolIndependence

variable {E : Env} {node node' : Node} {offer : Offer}

/-! ## Cancellations -/

/-- Whether the cancellations of a transaction earn it the exception from the minimal fee. -/
def earnsException (E : Env) (node : Node) (tx : Transaction) : Bool :=
  match collectCancelOffers E node tx false [] (serviceAttachments tx).zipIdx with
  | some (_ :: _) => true
  | _ => false

theorem processCancelOfferRules_earns (tx : Transaction) (node : Node) :
    ∃ pool, processCancelOfferRules E tx false node =
        .ok (earnsException E node tx) { node with pool } ∧
      pool.transactions = node.pool.transactions := by
  unfold earnsException
  cases collected : collectCancelOffers E node tx false [] (serviceAttachments tx).zipIdx with
  | none =>
    refine ⟨node.pool, ?_, rfl⟩
    simp only [processCancelOfferRules, get_bind, collected]
    rfl
  | some offers =>
    cases offers with
    | nil =>
      refine ⟨node.pool, ?_, rfl⟩
      simp only [processCancelOfferRules, get_bind, collected]
      rfl
    | cons offer offers =>
      refine ⟨{ node.pool with
        cancelOfferHash := (offer :: offers).foldl KeySet.insert node.pool.cancelOfferHash }, ?_, rfl⟩
      simp only [processCancelOfferRules, get_bind, collected]
      rfl

/-- Cancellations that the pool does not know are collected. -/
theorem collectCancelOffers_unseen {tx : Transaction}
    {attachments : List (TxServiceAttachment × Nat)} {offers : List Hash}
    (collected : ∀ id ∈ offers, node.pool.cancelOfferHash.contains id = false)
    (unseen : ∀ id ∈ ((attachments.map Prod.fst).filter isOfferCancellation).filterMap
      (fun a => E.cancelOfferTxId a.body), node.pool.cancelOfferHash.contains id = false) :
    collectCancelOffers E node tx false offers attachments =
      some (offers ++ ((attachments.map Prod.fst).filter isOfferCancellation).filterMap
        fun a => E.cancelOfferTxId a.body) := by
  induction attachments generalizing offers with
  | nil => simp [collectCancelOffers]
  | cons entry rest ih =>
    obtain ⟨a, index⟩ := entry
    unfold collectCancelOffers
    rw [List.map_cons] at unseen ⊢
    by_cases cancels : isOfferCancellation a = true
    · rw [List.filter_cons_of_pos cancels, List.filterMap_cons] at unseen ⊢
      rw [if_pos cancels, Bool.false_and, if_neg Bool.false_ne_true]
      cases read : E.cancelOfferTxId a.body with
      | none =>
        rw [read] at unseen
        simp only [Option.toList_none, List.append_nil]
        have next := ih collected unseen
        cases latest : offers.getLast? with
        | none => exact next
        | some id =>
          have known := collected id (List.mem_of_getLast? latest)
          simp only [known, Bool.false_eq_true, ↓reduceIte]
          exact next
      | some id =>
        rw [read] at unseen
        have known := unseen id List.mem_cons_self
        simp only [Option.toList_some, List.getLast?_append, List.getLast?_singleton,
          Option.some_or, known, Bool.false_eq_true, ↓reduceIte]
        rw [ih (fun other member => ?_) fun other member => unseen other (.tail _ member),
          List.append_assoc]
        · rfl
        · rcases List.mem_append.mp member with before | here
          · exact collected other before
          · rw [List.mem_singleton.mp here]
            exact known
    · rw [List.filter_cons_of_neg cancels] at unseen ⊢
      rw [if_neg cancels]
      exact ih collected unseen

theorem earnsException_unseen {tx : Transaction}
    (unseen : ∀ id ∈ cancelledOffers E tx, node.pool.cancelOfferHash.contains id = false) :
    earnsException E node tx = !(cancelledOffers E tx).isEmpty := by
  have attachments : (serviceAttachments tx).zipIdx.map Prod.fst = serviceAttachments tx :=
    List.zipIdx_map_fst 0 _
  have collected : collectCancelOffers E node tx false [] (serviceAttachments tx).zipIdx =
      some (cancelledOffers E tx) := by
    rw [collectCancelOffers_unseen (fun id member => by cases member) (by rwa [attachments]),
      attachments, List.nil_append]
    rfl
  rw [earnsException, collected]
  cases cancelledOffers E tx with
  | nil => rfl
  | cons id rest => rfl

/-! ## Offers -/

theorem validateAliasInfo_inBlock (tx : TransactionPrefix) (node : Node) :
    validateAliasInfo E tx true node = .ok () node := by
  unfold validateAliasInfo
  simp only [↓reduceIte]
  generalize List.findSome? _ tx.extra = found
  cases found with
  | none => rfl
  | some entry => rfl

theorem doInsertTransaction_transactions {tx : Transaction} {id : Hash} {blobSize fee : Nat}
    {keptByBlock : Bool} {blockId : Hash} {blockHeight : Nat}
    (run : doInsertTransaction tx id blobSize keptByBlock fee blockId blockHeight node =
      .ok () node') :
    ∃ details, details.version = ⟨tx, fee, blobSize⟩ ∧
      node'.pool.transactions = node.pool.transactions.set id details := by
  rw [doInsertTransaction_eq] at run
  cases run
  exact ⟨_, rfl, rfl⟩

theorem supported_of_semantic {tx : Transaction}
    (semantic : checkTxSemantic E tx.toTransactionPrefix = true) :
    tx.checkInputsTypesSupported = true := by
  simp only [checkTxSemantic, Bool.and_eq_true] at semantic
  exact semantic.1.1.1.1.1.2

/-- A transaction that pays out more than it takes in is refused. -/
theorem final_addTx_unbalanced (node : Node) (minFee : Nat) {tx : Transaction}
    (semantic : checkTxSemantic E tx.toTransactionPrefix = true)
    (amounts : validateTxAmounts tx.toTransactionPrefix = none) :
    final (addTx E tx minFee true false node) = node := by
  have form : require true node = .ok () node := rfl
  have skipped : (pure () : NodeM Unit) node = .ok () node := rfl
  have missing : (demand .refused none : NodeM Nat) node = .error .refused node := rfl
  simp only [addTx, addTxWithId, get_bind, supported_of_semantic semantic, Bool.or_true,
    Bool.not_true, Bool.and_false, onlyIf_false, bind_of_ok form, bind_of_ok skipped, amounts,
    bind_of_error missing]
  rfl

/-- What is left of the admission of a vouched transaction after the checks of its form. -/
theorem final_addTx (node : Node) (minFee : Nat) {tx : Transaction} {fee : Nat}
    (semantic : checkTxSemantic E tx.toTransactionPrefix = true)
    (amounts : validateTxAmounts tx.toTransactionPrefix = some fee) :
    ∃ pool, pool.transactions = node.pool.transactions ∧
      (feeAccepted node.chain tx (getObjectBlobsize E tx.toTransactionPrefix) fee minFee
          (earnsException E node tx) = .ok true →
        final (addTx E tx minFee true false node) =
          final (insertCheckedTx E tx (getTransactionHash E tx.toTransactionPrefix)
            (getObjectBlobsize E tx.toTransactionPrefix) fee true false { node with pool })) ∧
      (feeAccepted node.chain tx (getObjectBlobsize E tx.toTransactionPrefix) fee minFee
          (earnsException E node tx) ≠ .ok true →
        final (addTx E tx minFee true false node) = { node with pool }) := by
  obtain ⟨pool, cancelled, stored⟩ := processCancelOfferRules_earns (E := E) tx node
  refine ⟨pool, stored, ?_⟩
  have aliases : onlyIf (!node.chain.isInCheckpointZone)
      (validateAliasInfo E tx.toTransactionPrefix true) node = .ok () node := by
    cases node.chain.isInCheckpointZone with
    | false => exact validateAliasInfo_inBlock _ _
    | true => rfl
  have form : require true node = .ok () node := rfl
  have skipped : (pure () : NodeM Unit) node = .ok () node := rfl
  simp only [addTx, addTxWithId, get_bind, supported_of_semantic semantic, Bool.or_true,
    Bool.not_true, Bool.and_false, onlyIf_false, bind_of_ok form, bind_of_ok skipped, amounts,
    demand_bind, bind_of_ok aliases, Bool.not_false, Bool.and_true, bind_of_ok cancelled]
  cases rule : feeAccepted node.chain tx (getObjectBlobsize E tx.toTransactionPrefix) fee minFee
      (earnsException E node tx) with
  | error reason =>
    have read : reading (fun node' : Node => feeAccepted node'.chain tx
        (getObjectBlobsize E tx.toTransactionPrefix) fee minFee (earnsException E node tx))
        { node with pool } = .error reason { node with pool } := by
      rw [reading, rule]
    rw [bind_of_error read]
    exact ⟨fun accepted => absurd accepted (by simp), fun _ => rfl⟩
  | ok accepted =>
    have read : reading (fun node' : Node => feeAccepted node'.chain tx
        (getObjectBlobsize E tx.toTransactionPrefix) fee minFee (earnsException E node tx))
        { node with pool } = .ok accepted { node with pool } := by
      rw [reading, rule]
    rw [bind_of_ok read]
    cases accepted with
    | true => exact ⟨fun _ => rfl, fun refused => absurd rfl refused⟩
    | false => exact ⟨fun accepted => absurd accepted (by simp), fun _ => rfl⟩

/-- A vouched transaction is put into the pool unless a reference in it cannot be read. -/
theorem final_insertCheckedTx (node : Node) (tx : Transaction) (id : Hash) (blobSize fee : Nat) :
    ((∀ height, checkTxInputsWithBlock E node.chain tx id 0 ≠ .error .thrown height) →
      ∃ details, details.version = ⟨tx, fee, blobSize⟩ ∧
        (final (insertCheckedTx E tx id blobSize fee true false node)).pool.transactions =
          node.pool.transactions.set id details) ∧
    (∀ height, checkTxInputsWithBlock E node.chain tx id 0 = .error .thrown height →
      final (insertCheckedTx E tx id blobSize fee true false node) = node) := by
  have inserts : ∀ (blockId : Hash) (blockHeight : Nat) (tvc : TxVerificationContext),
      ∃ details, details.version = ⟨tx, fee, blobSize⟩ ∧
        (final ((do
          doInsertTransaction tx id blobSize true fee blockId blockHeight
          pure tvc : NodeM TxVerificationContext) node)).pool.transactions =
          node.pool.transactions.set id details := by
    intro blockId blockHeight tvc
    obtain ⟨node', inserted, _⟩ := doInsertTransaction_runs tx node id blobSize true fee blockId
      blockHeight
    rw [bind_of_ok inserted]
    exact doInsertTransaction_transactions inserted
  have passed : require (true || false) node = .ok () node := rfl
  simp only [insertCheckedTx, get_bind]
  cases checked : checkTxInputsWithBlock E node.chain tx id 0 with
  | ok blockId blockHeight =>
    exact ⟨fun _ => inserts _ _ _, fun height thrown => by cases thrown⟩
  | error reason blockHeight =>
    cases reason with
    | thrown => exact ⟨fun readable => absurd rfl (readable blockHeight), fun _ _ => rfl⟩
    | refused =>
      refine ⟨fun _ => ?_, fun height thrown => by cases thrown⟩
      simp only [bind_of_ok passed]
      exact inserts _ _ _

/-- Offering a transaction leaves the storage alone. -/
theorem step_offer_chain (offer : Offer) (node : Node) :
    (step E offer.event node).chain = node.chain := by
  have kept : Preserves (fun other : Node => other.chain = node.chain)
      (handleIncomingTx E offer.tx offer.blobSize true) :=
    preserves_get_bind fun _ _ => preserves_bind (preserves_require _) fun _ =>
      preserves_bind (preserves_require _) fun _ => preserves_bind (preserves_require _) fun _ =>
      preserves_get_bind fun _ _ => preserves_ite (fun _ => preserves_pure ()) fun _ =>
      preserves_bind (keepsChain_addTx (I := (· = node.chain)) _ _ _ (fun free => by cases free)
        fun free => by cases free) fun _ => preserves_pure _
  exact kept node rfl

/-- An offered transaction is put into the pool when the pool does not have it and the rules
admit it. Otherwise the pool keeps what it holds. -/
theorem step_offer (offer : Offer) (node : Node) :
    (node.pool.haveTx (offer.id E) = false ∧
        AdmittedWith E node.chain offer (earnsException E node offer.tx) →
      ∃ details, details.version = offer.version E ∧
        (step E offer.event node).pool.transactions =
          node.pool.transactions.set (offer.id E) details) ∧
    (¬ (node.pool.haveTx (offer.id E) = false ∧
        AdmittedWith E node.chain offer (earnsException E node offer.tx)) →
      (step E offer.event node).pool.transactions = node.pool.transactions) := by
  change (_ → ∃ details, _ ∧ (final (handleIncomingTx E offer.tx offer.blobSize true
    node)).pool.transactions = _) ∧ (_ → (final (handleIncomingTx E offer.tx offer.blobSize true
    node)).pool.transactions = _)
  simp only [handleIncomingTx, get_bind, require_bind, decide_eq_true_eq]
  by_cases small : offer.blobSize ≤ currencyMaxTransactionBlobSize
  case neg =>
    rw [if_neg small]
    exact ⟨fun admitted => absurd admitted.2.small small, fun _ => rfl⟩
  by_cases room : offer.blobSize < roomForTransaction node.chain.db
  case neg =>
    rw [if_pos small, if_neg room]
    exact ⟨fun admitted => absurd admitted.2.room room, fun _ => rfl⟩
  by_cases semantic : checkTxSemantic E offer.tx.toTransactionPrefix = true
  case neg =>
    rw [if_pos small, if_pos room, if_neg semantic]
    exact ⟨fun admitted => absurd admitted.2.semantic semantic, fun _ => rfl⟩
  rw [if_pos small, if_pos room, if_pos semantic]
  simp only [addNewTx, get_bind]
  by_cases known : (node.pool.haveTx (getTransactionHash E offer.tx.toTransactionPrefix) ||
      node.chain.db.transactions.has (getTransactionHash E offer.tx.toTransactionPrefix)) = true
  · rw [if_pos known]
    refine ⟨?_, fun _ => rfl⟩
    rintro ⟨absent, admitted⟩
    rcases Bool.or_eq_true_iff.mp known with held | stored
    · exact absurd (absent.symm.trans held) Bool.false_ne_true
    · exact absurd (admitted.unknown.symm.trans stored) Bool.false_ne_true
  rw [if_neg known, final_discard]
  obtain ⟨absent, unknown⟩ := Bool.or_eq_false_iff.mp (Bool.eq_false_iff.mpr known)
  cases amounts : validateTxAmounts offer.tx.toTransactionPrefix with
  | none =>
    refine ⟨?_, fun _ => ?_⟩
    · rintro ⟨_, admitted⟩
      obtain ⟨fee, found, _⟩ := admitted.fee
      cases amounts.symm.trans found
    · rw [final_addTx_unbalanced node _ semantic amounts]
  | some fee =>
    obtain ⟨pool, stored, accepts, refuses⟩ := final_addTx node
      (getTxMinimumFee node.chain.db.blocks.length) semantic amounts
    have version : offer.version E =
        ⟨offer.tx, fee, getObjectBlobsize E offer.tx.toTransactionPrefix⟩ := by
      rw [Offer.version, amounts, Option.getD_some]
    by_cases accepted : feeAccepted node.chain offer.tx
        (getObjectBlobsize E offer.tx.toTransactionPrefix) fee
        (getTxMinimumFee node.chain.db.blocks.length) (earnsException E node offer.tx) = .ok true
    · obtain ⟨inserts, fails⟩ := final_insertCheckedTx (E := E) { node with pool } offer.tx
        (getTransactionHash E offer.tx.toTransactionPrefix)
        (getObjectBlobsize E offer.tx.toTransactionPrefix) fee
      rw [accepts accepted, version]
      rw [stored] at inserts
      refine ⟨fun admitted => inserts admitted.2.readable, fun refused => ?_⟩
      by_cases thrown : ∃ height, checkTxInputsWithBlock E node.chain offer.tx
          (getTransactionHash E offer.tx.toTransactionPrefix) 0 = .error .thrown height
      · obtain ⟨height, thrown⟩ := thrown
        rw [fails height thrown]
        exact stored
      · exact absurd ⟨absent, small, room, semantic, unknown, ⟨fee, amounts, accepted⟩,
          not_exists.mp thrown⟩ refused
    · rw [refuses accepted]
      refine ⟨?_, fun _ => stored⟩
      rintro ⟨_, admitted⟩
      obtain ⟨other, found, accepts⟩ := admitted.fee
      cases amounts.symm.trans found
      exact absurd accepts accepted

/-! ## Undisturbed offers -/

theorem haveTx_eq_false {pool : Pool} {id : Hash} (absent : pool.version id = none)
    (untaken : pool.takenTxs.contains id = false) : pool.haveTx id = false := by
  rw [Pool.version, Option.map_eq_none_iff] at absent
  have missing : pool.transactions.has id = false := by
    rw [Bool.eq_false_iff]
    intro has
    obtain ⟨details, found⟩ := (Container.has_iff _ _).mp has
    cases absent.symm.trans found
  rw [Pool.haveTx, missing, untaken, Bool.false_or]

/-- When a pool does not get in the way, what earns the exception makes no difference. -/
theorem Undisturbed.admittedWith_iff (undisturbed : Undisturbed E node offer)
    (absent : node.pool.version (offer.id E) = none) :
    AdmittedWith E node.chain offer (earnsException E node offer.tx) ↔
      Admitted E node.chain offer := by
  rcases undisturbed.unseen absent with sufficient | unseen
  · have free : ∀ fee cancels, validateTxAmounts offer.tx.toTransactionPrefix = some fee →
        feeAccepted node.chain offer.tx (getObjectBlobsize E offer.tx.toTransactionPrefix) fee
          (getTxMinimumFee node.chain.db.blocks.length) cancels = .ok true := by
      intro fee cancels amounts
      unfold feeAccepted
      rcases sufficient with zone | enough
      · rw [zone, Bool.true_or, if_pos rfl]
        rfl
      · rw [amounts, Option.getD_some] at enough
        rw [decide_eq_true enough, Bool.or_true, if_pos rfl]
        rfl
    constructor
    · rintro ⟨small, room, semantic, unknown, ⟨fee, amounts, _⟩, readable⟩
      exact ⟨small, room, semantic, unknown, ⟨fee, amounts, free fee _ amounts⟩, readable⟩
    · rintro ⟨small, room, semantic, unknown, ⟨fee, amounts, _⟩, readable⟩
      exact ⟨small, room, semantic, unknown, ⟨fee, amounts, free fee _ amounts⟩, readable⟩
  · rw [earnsException_unseen unseen]

/-- After an undisturbed offer the pool holds the offered version of an admitted transaction and no
version of another one. -/
theorem Undisturbed.version_after (undisturbed : Undisturbed E node offer) :
    (Admitted E node.chain offer →
      (step E offer.event node).pool.version (offer.id E) = some (offer.version E)) ∧
    (¬ Admitted E node.chain offer →
      (step E offer.event node).pool.version (offer.id E) = none) := by
  obtain ⟨inserts, keeps⟩ := step_offer (E := E) offer node
  cases held : node.pool.version (offer.id E) with
  | some version =>
    obtain ⟨rfl, admitted⟩ := undisturbed.held version held
    have present : node.pool.haveTx (offer.id E) = true := by
      obtain ⟨details, found, _⟩ := Option.map_eq_some_iff.mp held
      rw [Pool.haveTx, (Container.has_iff _ _).mpr ⟨_, found⟩, Bool.true_or]
    refine ⟨fun _ => ?_, fun refused => absurd admitted refused⟩
    rw [← held, Pool.version, keeps fun fresh => absurd (present.symm.trans fresh.1) (by decide)]
    rfl
  | none =>
    constructor
    · intro admitted
      have absent := haveTx_eq_false held (undisturbed.untaken held admitted)
      obtain ⟨details, version, stored⟩ :=
        inserts ⟨absent, (undisturbed.admittedWith_iff held).mpr admitted⟩
      rw [Pool.version, stored, Container.get_set_self, Option.map_some, version]
    · intro refused
      rw [← held, Pool.version, keeps fun fresh =>
        refused ((undisturbed.admittedWith_iff held).mp fresh.2)]
      rfl

theorem version_after_other (offer : Offer) (node : Node) {id : Hash} (apart : id ≠ offer.id E) :
    (step E offer.event node).pool.version id = node.pool.version id := by
  obtain ⟨inserts, keeps⟩ := step_offer (E := E) offer node
  by_cases fresh : node.pool.haveTx (offer.id E) = false ∧
      AdmittedWith E node.chain offer (earnsException E node offer.tx)
  · obtain ⟨details, _, stored⟩ := inserts fresh
    rw [Pool.version, stored, Container.get_set_of_ne _ _ (Ne.symm apart)]
    rfl
  · rw [Pool.version, keeps fresh]
    rfl

/-! ## Agreement -/

theorem afterOffers_cons (node : Node) (offer : Offer) (rest : List Offer) :
    afterOffers E node (offer :: rest) = afterOffers E (step E offer.event node) rest := rfl

theorem afterOffers_chain (offers : List Offer) (node : Node) :
    (afterOffers E node offers).chain = node.chain := by
  induction offers generalizing node with
  | nil => rfl
  | cons offer rest ih => exact (ih (step E offer.event node)).trans (step_offer_chain offer node)

/-- Undisturbed offers leave the same versions behind in every pool. -/
theorem afterOffers_versions {offers : List Offer} {node other : Node}
    (chain : node.chain = other.chain) (first : AllUndisturbed E node offers)
    (second : AllUndisturbed E other offers) {id : Hash}
    (same : node.pool.version id = other.pool.version id ∨ ∃ offer ∈ offers, offer.id E = id) :
    (afterOffers E node offers).pool.version id = (afterOffers E other offers).pool.version id := by
  induction offers generalizing node other with
  | nil =>
    rcases same with same | ⟨offer, member, _⟩
    · exact same
    · cases member
  | cons offer rest ih =>
    obtain ⟨here, others⟩ := first
    obtain ⟨otherHere, otherOthers⟩ := second
    rw [afterOffers_cons, afterOffers_cons]
    refine ih ?_ others otherOthers ?_
    · rw [step_offer_chain, step_offer_chain, chain]
    · by_cases own : id = offer.id E
      · left
        subst own
        obtain ⟨admits, refuses⟩ := here.version_after
        obtain ⟨otherAdmits, otherRefuses⟩ := otherHere.version_after
        rw [← chain] at otherAdmits otherRefuses
        by_cases admitted : Admitted E node.chain offer
        · rw [admits admitted, otherAdmits admitted]
        · rw [refuses admitted, otherRefuses admitted]
      · rw [version_after_other offer node own, version_after_other offer other own]
        rcases same with same | ⟨later, member, named⟩
        · exact .inl same
        · rcases List.mem_cons.mp member with rfl | member
          · exact absurd named.symm own
          · exact .inr ⟨later, member, named⟩

/-- A block on top of the main chain joins it exactly when it is unknown and connects. -/
theorem joinsMainChain_iff {bl : Block} (tip : bl.prevId = node.chain.db.getTopBlockId E) :
    joinsMainChain E bl node = true ↔ node.chain.haveBlock (getBlockHash E bl) = false ∧
      ∃ after, handleBlockToMainChain E bl (getBlockHash E bl) node = .ok () after := by
  unfold joinsMainChain addNewBlock
  rw [submitBlock, get_bind]
  cases known : node.chain.haveBlock (getBlockHash E bl) with
  | true =>
    rw [if_pos rfl]
    exact ⟨fun joins => absurd joins Bool.false_ne_true, fun fresh => by cases fresh.1⟩
  | false =>
    rw [if_neg Bool.false_ne_true, if_neg (not_not.mpr tip), submitToTip]
    cases run : handleBlockToMainChain E bl (getBlockHash E bl) node with
    | ok value after =>
      have connected : attempt (handleBlockToMainChain E bl (getBlockHash E bl)) node =
          .ok true after := attempt_true.mpr ⟨value, run⟩
      obtain ⟨linked, finalized, finalizes, _⟩ := finalizeLinked_runs (E := E) after
      rw [bind_of_ok connected, if_pos rfl, bind_of_ok finalizes]
      exact ⟨fun _ => ⟨rfl, after, rfl⟩, fun _ => rfl⟩
    | error reason after =>
      cases reason with
      | refused =>
        have refused : attempt (handleBlockToMainChain E bl (getBlockHash E bl)) node =
            .ok false after := attempt_false.mpr run
        rw [bind_of_ok refused, if_neg Bool.false_ne_true]
        refine ⟨fun joins => absurd joins Bool.false_ne_true, ?_⟩
        rintro ⟨_, _, impossible⟩
        cases impossible
      | thrown =>
        have thrown : attempt (handleBlockToMainChain E bl (getBlockHash E bl)) node =
            .error .thrown after := by
          rw [attempt, run]
        rw [bind_of_error thrown]
        refine ⟨fun joins => absurd joins Bool.false_ne_true, ?_⟩
        rintro ⟨_, _, impossible⟩
        cases impossible

/-- A block that one of two nodes connects is connected by the other, when the nodes have one
storage and their pools hold the same versions of its transactions. -/
theorem joins_of_sameVersions {bl : Block} {other : Node} (chain : node.chain = other.chain)
    (tip : bl.prevId = node.chain.db.getTopBlockId E)
    (same : SameVersions bl.txHashes node.pool other.pool)
    (joins : joinsMainChain E bl node = true) : joinsMainChain E bl other = true := by
  obtain ⟨fresh, after, run⟩ := (joinsMainChain_iff tip).mp joins
  obtain ⟨pool, otherRun⟩ := handleBlock_transfers run same
  rw [chain] at fresh tip
  refine (joinsMainChain_iff tip).mpr ⟨fresh, ⟨after.chain, pool⟩, ?_⟩
  rwa [chain] at otherRun

end PoolIndependence

/-! ## A cancellation that was seen before -/

namespace SeenCancellation

/-- Every cancellation refers to one offer. -/
def env : Env := { Env.plain with cancelOfferTxId := fun _ => some ⟨7⟩ }

def genesis : Block := .plain 1 0 premineAmount nullHash []

def mined (height : Nat) (txHashes : List Hash) : Block :=
  { Block.plain (height + 1) height coin ⟨height⟩ txHashes with timestamp := 120 * height }

/-- A transaction without a fee that moves the coin with a global index. -/
def transfer (id globalIndex : Nat) : Transaction where
  version := id
  vin := [.toKey
    { amount := coin
      keyOffsets := [.index globalIndex]
      kImage := ⟨id⟩
      etcDetails := [] }]
  vout := [⟨coin, .toKey ⟨⟨id⟩, 0⟩⟩]
  extra := []
  signatures := [[⟨0⟩]]
  attachment := []

/-- The transfer, with a cancellation attached. -/
def cancel (id globalIndex : Nat) : Transaction :=
  { transfer id globalIndex with
    extra := [.extraAttachmentInfo ⟨10, ⟨1⟩, 1⟩]
    attachment := [.txServiceAttachment
      { serviceId := bcOffersServiceId
        instruction := bcOffersServiceInstructionDel
        body := ""
        security := []
        flags := 0 }] }

/-- A node with twelve blocks above the genesis block and an empty pool. -/
def quiet : Node :=
  (nodeSystem env anyBlock).after (addNewBlock env genesis (Node.fresh 1000000)).2
    ((List.range' 1 12).map fun height => Event.submitBlock (mined height []))

/-- The node after another cancellation of the same offer came with some block. -/
def crowded : Node := afterOffers env quiet [⟨cancel 101 1, 100⟩]

/-- The node after an unrelated transaction was sent to it. -/
def busy : Node := afterOffers env quiet [⟨transfer 102 1, 100⟩]

def offer : Offer := ⟨cancel 100 0, 100⟩

/-- A block with the offered cancellation. -/
def block : Block := mined 13 [⟨100⟩]

theorem quiet_reachable : (nodeSystem env anyBlock).Reachable quiet := by
  refine System.Reachable.after ?_ _
  exact .start ⟨genesis, 1000000, trivial, rfl, by decide, rfl⟩

theorem crowded_reachable : (nodeSystem env anyBlock).Reachable crowded :=
  quiet_reachable.after _

theorem undisturbed_of_unseen {node : Node} (absent : node.pool.version (offer.id env) = none)
    (untaken : node.pool.takenTxs.contains (offer.id env) = false)
    (unseen : ∀ id ∈ cancelledOffers env offer.tx, node.pool.cancelOfferHash.contains id = false) :
    AllUndisturbed env node [offer] := by
  refine ⟨⟨fun version held => ?_, fun _ _ => untaken, fun _ => .inr unseen⟩, trivial⟩
  rw [absent] at held
  cases held

end SeenCancellation
end Virie
