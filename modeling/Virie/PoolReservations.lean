import Virie.Chainstate.PoolContents
import Virie.Chainstate.Running

/-! # Aliases and cancellations reserved by the pool

The pool keeps the alias names, the alias addresses and the cancelled offers of its
transactions in three sets without counters. They stay exact as long as what is removed
reserves nothing that another transaction reserves too, what is recorded belongs to a
transaction that gets in, and aliases are not in the pool when it is cleared. -/

open Foundation

namespace Virie

def Transaction.reservedNames (tx : Transaction) : List String :=
  (tx.aliasEntry.map ExtraAliasEntry.aliasName).toList

def Transaction.reservedAddresses (tx : Transaction) : List AccountPublicAddress :=
  (tx.aliasEntry.map fun entry => entry.address).toList

/-- The sets of a pool hold just what its transactions reserve. -/
structure Pool.ReservationsExact (E : Env) (pool : Pool) : Prop where
  names : pool.aliasNames.Indexes pool.transactions fun details => details.tx.reservedNames
  addresses : pool.aliasAddresses.Indexes pool.transactions
    fun details => details.tx.reservedAddresses
  offers : pool.cancelOfferHash.Indexes pool.transactions
    fun details => cancelledOffers E details.tx

/-- The cancellations of a transaction can all be read, and none of them occurs twice. -/
structure CancelsPlainly (E : Env) (tx : Transaction) : Prop where
  readable : ∀ a ∈ serviceAttachments tx, isOfferCancellation a = true →
    (E.cancelOfferTxId a.body).isSome = true
  distinct : (cancelledOffers E tx).Nodup

/-- What some transactions of a pool reserve is not reserved by the other ones, and their
cancellations are plain. -/
structure ReleasesOwn (E : Env) (pool : Pool) (removed : List (Hash × TxDetails)) : Prop where
  names : ∀ entry ∈ removed, ∀ other ∈ pool.transactions.toList,
    other.1 ∉ removed.map Prod.fst → ∀ name ∈ entry.2.tx.reservedNames,
      name ∉ other.2.tx.reservedNames
  addresses : ∀ entry ∈ removed, ∀ other ∈ pool.transactions.toList,
    other.1 ∉ removed.map Prod.fst → ∀ address ∈ entry.2.tx.reservedAddresses,
      address ∉ other.2.tx.reservedAddresses
  plain : ∀ entry ∈ removed, cancelledOffers E entry.2.tx ≠ [] → CancelsPlainly E entry.2.tx
  offers : ∀ entry ∈ removed, ∀ other ∈ pool.transactions.toList, other.1 ≠ entry.1 →
    ∀ offer ∈ cancelledOffers E entry.2.tx, offer ∉ cancelledOffers E other.2.tx

/-- A transaction that gets into the pool has all its cancellations on record and reserves what
the version reserved that it replaces; one that does not get in leaves no new record. -/
def recordsOwn (E : Env) (tx : Transaction) (minFee : Nat) (id : Hash) (blobSize : Nat)
    (keptByBlock fromCore : Bool) (node : Node) : Bool :=
  match addTxChecks E tx keptByBlock fromCore node with
  | .error _ _ => true
  | .ok txFee middle =>
    let recorded := recordedOffers E tx keptByBlock fromCore middle
    if admits E tx minFee id blobSize keptByBlock fromCore txFee middle then
      (cancelledOffers E tx).all (fun offer =>
        recorded.contains offer || node.pool.cancelOfferHash.contains offer) &&
      (node.pool.transactions.get id).all fun old =>
        old.tx.reservedNames.all tx.reservedNames.contains &&
          old.tx.reservedAddresses.all tx.reservedAddresses.contains &&
          (cancelledOffers E old.tx).all (cancelledOffers E tx).contains
    else recorded.all node.pool.cancelOfferHash.contains

/-- The steps that keep the sets exact. -/
def KeepsReservations (E : Env) (event : PoolEvent) (node : Node) : Prop :=
  match event with
  | .addTx tx minFee id blobSize keptByBlock fromCore =>
    recordsOwn E tx minFee id blobSize keptByBlock fromCore node = true
  | .takeTx id => ∀ details, node.pool.transactions.get id = some details →
    ReleasesOwn E node.pool [(id, details)]
  | .removeStuckTransactions => ∀ median chain,
    getTxExpirationMedian node.chain = .ok median chain →
      ReleasesOwn E node.pool (stuckTransactions { node with chain } median)
  | .purgeTransactions | .clear =>
    ∀ entry ∈ node.pool.transactions.toList, entry.2.tx.aliasEntry = none
  | .storage _ => True

section Reservations

variable {E : Env} {pool : Pool} {node : Node}

/-! ## Forgetting cancellations -/

def offersOf (E : Env) (attachments : List TxServiceAttachment) : List Hash :=
  (attachments.filter isOfferCancellation).filterMap fun a => E.cancelOfferTxId a.body

theorem offersOf_cons (a : TxServiceAttachment) (rest : List TxServiceAttachment) :
    offersOf E (a :: rest) =
      (if isOfferCancellation a then (E.cancelOfferTxId a.body).toList else []) ++
        offersOf E rest := by
  unfold offersOf
  cases cancels : isOfferCancellation a with
  | false => simp [cancels]
  | true =>
    rw [List.filter_cons_of_pos cancels, List.filterMap_cons, if_pos rfl]
    cases E.cancelOfferTxId a.body <;> rfl

/-- Known plain cancellations are all forgotten. -/
theorem releaseOffers_known {attachments : List TxServiceAttachment} {known : KeySet Hash}
    (readable : ∀ a ∈ attachments, isOfferCancellation a = true →
      (E.cancelOfferTxId a.body).isSome = true)
    (distinct : (offersOf E attachments).Nodup)
    (all : ∀ offer ∈ offersOf E attachments, known.contains offer = true) (query : Hash) :
    (releaseOffers E attachments known).contains query = true ↔
      known.contains query = true ∧ query ∉ offersOf E attachments := by
  induction attachments generalizing known with
  | nil => simp [releaseOffers, offersOf]
  | cons a rest ih =>
    have restReadable := fun b member => readable b (List.mem_cons_of_mem a member)
    rw [offersOf_cons] at distinct all ⊢
    rw [releaseOffers]
    by_cases cancels : isOfferCancellation a = true
    · obtain ⟨offer, read⟩ := Option.isSome_iff_exists.mp (readable a List.mem_cons_self cancels)
      simp only [if_pos cancels, read, Option.toList_some, List.singleton_append,
        List.nodup_cons, List.mem_cons, not_or] at distinct all ⊢
      rw [if_pos (all offer (.inl rfl)), ih restReadable distinct.2 fun other member => ?_]
      · rw [KeySet.contains_erase, Bool.and_eq_true, Bool.not_eq_true', decide_eq_false_iff_not]
        tauto
      · rw [KeySet.contains_erase, all other (.inr member), Bool.and_true, Bool.not_eq_true',
          decide_eq_false_iff_not]
        exact fun same => distinct.1 (same ▸ member)
    · simp only [if_neg cancels, List.nil_append] at distinct all ⊢
      exact ih restReadable distinct all

/-- Unknown cancellations change nothing. -/
theorem releaseOffers_unknown {attachments : List TxServiceAttachment} {known : KeySet Hash}
    (none : ∀ offer ∈ offersOf E attachments, known.contains offer = false) :
    releaseOffers E attachments known = known := by
  induction attachments with
  | nil => rfl
  | cons a rest ih =>
    rw [offersOf_cons] at none
    rw [releaseOffers]
    by_cases cancels : isOfferCancellation a = true
    · rw [if_pos cancels] at none ⊢
      cases read : E.cancelOfferTxId a.body with
      | none => rfl
      | some offer =>
        have unknown := none offer (by simp [read])
        dsimp only
        rw [unknown, if_neg Bool.false_ne_true]
    · rw [if_neg cancels] at none ⊢
      exact ih none

/-! ## Removing transactions -/

theorem contains_namesAfter (entries : List (Hash × TxDetails)) (pool : Pool) (name : String) :
    (entries.foldl (fun pool entry => pool.forget E entry.1 entry.2.tx entry.2.keptByBlock)
      pool).aliasNames.contains name = true ↔
      pool.aliasNames.contains name = true ∧
        name ∉ entries.flatMap fun entry => entry.2.tx.reservedNames := by
  induction entries generalizing pool with
  | nil => simp
  | cons entry rest ih =>
    rw [List.foldl_cons, ih, List.flatMap_cons, List.mem_append, not_or]
    have first : (pool.forget E entry.1 entry.2.tx entry.2.keptByBlock).aliasNames.contains name =
        true ↔ pool.aliasNames.contains name = true ∧ name ∉ entry.2.tx.reservedNames := by
      unfold Pool.forget Transaction.reservedNames
      cases entry.2.tx.aliasEntry with
      | none => simp
      | some ai =>
        change KeySet.contains (Container.erase pool.aliasNames ai.aliasName) name = true ↔ _
        rw [KeySet.contains_erase]
        simp only [Option.map_some, Option.toList_some, List.mem_singleton, Bool.and_eq_true,
          Bool.not_eq_true', decide_eq_false_iff_not]
        exact ⟨fun both => ⟨both.2, Ne.symm both.1⟩, fun both => ⟨Ne.symm both.2, both.1⟩⟩
    rw [first, and_assoc]

theorem contains_addressesAfter (entries : List (Hash × TxDetails)) (pool : Pool)
    (address : AccountPublicAddress) :
    (entries.foldl (fun pool entry => pool.forget E entry.1 entry.2.tx entry.2.keptByBlock)
      pool).aliasAddresses.contains address = true ↔
      pool.aliasAddresses.contains address = true ∧
        address ∉ entries.flatMap fun entry => entry.2.tx.reservedAddresses := by
  induction entries generalizing pool with
  | nil => simp
  | cons entry rest ih =>
    rw [List.foldl_cons, ih, List.flatMap_cons, List.mem_append, not_or]
    have first : (pool.forget E entry.1 entry.2.tx entry.2.keptByBlock).aliasAddresses.contains
        address = true ↔
        pool.aliasAddresses.contains address = true ∧ address ∉ entry.2.tx.reservedAddresses := by
      unfold Pool.forget Transaction.reservedAddresses
      cases entry.2.tx.aliasEntry with
      | none => simp
      | some ai =>
        change KeySet.contains (Container.erase pool.aliasAddresses ai.address) address = true ↔ _
        rw [KeySet.contains_erase]
        simp only [Option.map_some, Option.toList_some, List.mem_singleton, Bool.and_eq_true,
          Bool.not_eq_true', decide_eq_false_iff_not]
        exact ⟨fun both => ⟨both.2, Ne.symm both.1⟩, fun both => ⟨Ne.symm both.2, both.1⟩⟩
    rw [first, and_assoc]

/-- Transactions that share no cancellations forget their own. One that is on the list twice finds
nothing the second time. -/
theorem contains_offersAfter {entries : List (Hash × TxDetails)} {pool : Pool}
    (plain : ∀ entry ∈ entries, cancelledOffers E entry.2.tx ≠ [] → CancelsPlainly E entry.2.tx)
    (apart : ∀ entry ∈ entries, ∀ other ∈ entries, entry = other ∨
      ∀ offer ∈ cancelledOffers E entry.2.tx, offer ∉ cancelledOffers E other.2.tx)
    (whole : ∀ entry ∈ entries,
      (∀ offer ∈ cancelledOffers E entry.2.tx, pool.cancelOfferHash.contains offer = true) ∨
      ∀ offer ∈ cancelledOffers E entry.2.tx, pool.cancelOfferHash.contains offer = false)
    (query : Hash) :
    (entries.foldl (fun pool entry => pool.forget E entry.1 entry.2.tx entry.2.keptByBlock)
      pool).cancelOfferHash.contains query = true ↔
      pool.cancelOfferHash.contains query = true ∧
        query ∉ entries.flatMap fun entry => cancelledOffers E entry.2.tx := by
  induction entries generalizing pool with
  | nil => simp
  | cons entry rest ih =>
    have first : ∀ query, (pool.forget E entry.1 entry.2.tx
        entry.2.keptByBlock).cancelOfferHash.contains query = true ↔
        pool.cancelOfferHash.contains query = true ∧ query ∉ cancelledOffers E entry.2.tx := by
      intro query
      change (releaseOffers E (serviceAttachments entry.2.tx)
        pool.cancelOfferHash).contains query = true ↔ _
      rcases whole entry List.mem_cons_self with known | unknown
      · by_cases none : cancelledOffers E entry.2.tx = []
        · rw [releaseOffers_unknown fun offer member => ?_, none]
          · simp
          · change offer ∈ cancelledOffers E entry.2.tx at member
            rw [none] at member
            cases member
        · have cancels := plain entry List.mem_cons_self none
          exact releaseOffers_known cancels.readable cancels.distinct known query
      · rw [releaseOffers_unknown unknown]
        refine ⟨fun present => ⟨present, fun own => ?_⟩, fun both => both.1⟩
        rw [unknown query own] at present
        cases present
    rw [List.foldl_cons, ih (fun other member => plain other (.tail _ member))
      (fun other member third later => apart other (.tail _ member) third (.tail _ later)),
      first, List.flatMap_cons, List.mem_append, not_or, and_assoc]
    intro other member
    rcases apart entry List.mem_cons_self other (.tail _ member) with same | different
    · refine .inr fun offer own => Bool.eq_false_iff.mpr fun still => ?_
      exact ((first offer).mp still).2 (same ▸ own)
    · rcases whole other (.tail _ member) with known | unknown
      · exact .inl fun offer own =>
          (first offer).mpr ⟨known offer own, fun shared => different offer shared own⟩
      · refine .inr fun offer own => Bool.eq_false_iff.mpr fun still => ?_
        have present := ((first offer).mp still).1
        rw [unknown offer own] at present
        cases present

/-- Forgetting transactions of the pool that release just their own keeps the sets exact. -/
theorem Pool.ReservationsExact.forgetAll (exact_ : pool.ReservationsExact E)
    {removed : List (Hash × TxDetails)}
    (stored : ∀ entry ∈ removed, pool.transactions.get entry.1 = some entry.2)
    (releases : ReleasesOwn E pool removed) :
    (removed.foldl (fun pool entry => pool.forget E entry.1 entry.2.tx entry.2.keptByBlock)
      pool).ReservationsExact E := by
  have transactions : (removed.foldl (fun pool entry =>
      pool.forget E entry.1 entry.2.tx entry.2.keptByBlock) pool).transactions =
        (removed.map Prod.fst).foldl Container.erase pool.transactions := by
    clear stored releases exact_
    induction removed generalizing pool with
    | nil => rfl
    | cons entry rest ih =>
      rw [List.foldl_cons, ih]
      rfl
  have own : ∀ {K : Type} (keys : TxDetails → List K), ∀ id ∈ removed.map Prod.fst,
      ∀ details, pool.transactions.get id = some details → ∀ key ∈ keys details,
        key ∈ removed.flatMap fun entry => keys entry.2 := by
    intro K keys id member details found key has
    obtain ⟨entry, listed, rfl⟩ := List.mem_map.mp member
    rw [stored entry listed] at found
    cases found
    exact List.mem_flatMap.mpr ⟨entry, listed, has⟩
  refine ⟨?_, ?_, ?_⟩
  · rw [transactions]
    refine exact_.names.eraseAll (own _) (fun id details stays found name has dropped => ?_)
      (contains_namesAfter removed pool)
    obtain ⟨entry, listed, shared⟩ := List.mem_flatMap.mp dropped
    exact releases.names entry listed (id, details) ((Container.mem_toList _ _ _).mpr found) stays
      name shared has
  · rw [transactions]
    refine exact_.addresses.eraseAll (own _) (fun id details stays found address has dropped => ?_)
      (contains_addressesAfter removed pool)
    obtain ⟨entry, listed, shared⟩ := List.mem_flatMap.mp dropped
    exact releases.addresses entry listed (id, details) ((Container.mem_toList _ _ _).mpr found)
      stays address shared has
  · rw [transactions]
    refine exact_.offers.eraseAll (own _) (fun id details stays found offer has dropped => ?_)
      (contains_offersAfter releases.plain (fun entry listed other member => ?_)
        fun entry listed => .inl fun offer cancels => ?_)
    · obtain ⟨entry, listed, shared⟩ := List.mem_flatMap.mp dropped
      have different : id ≠ entry.1 := by
        rintro rfl
        exact stays (List.mem_map_of_mem listed)
      exact releases.offers entry listed (id, details) ((Container.mem_toList _ _ _).mpr found)
        different offer shared has
    · by_cases same : other.1 = entry.1
      · refine .inl (Prod.ext same.symm ?_)
        have found := stored entry listed
        rw [← same, stored other member] at found
        exact (Option.some.inj found).symm
      · exact .inr (releases.offers entry listed other
          ((Container.mem_toList _ _ _).mpr (stored other member)) same)
    · exact (exact_.offers offer).mpr ⟨entry.1, entry.2, stored entry listed, cancels⟩

/-! ## Adding transactions -/

/-- Only cancellations of the transaction are collected. -/
theorem mem_of_collectCancelOffers {tx : Transaction} {toValidate : Bool}
    {attachments : List (TxServiceAttachment × Nat)} {offers result : List Hash}
    (collected : collectCancelOffers E node tx toValidate offers attachments = some result)
    {offer : Hash} (member : offer ∈ result) :
    offer ∈ offers ∨ offer ∈ offersOf E (attachments.map Prod.fst) := by
  induction attachments generalizing offers with
  | nil =>
    rw [collectCancelOffers, Option.some.injEq] at collected
    rw [collected]
    exact .inl member
  | cons head rest ih =>
    obtain ⟨a, number⟩ := head
    rw [List.map_cons, offersOf_cons, List.mem_append]
    unfold collectCancelOffers at collected
    by_cases cancels : isOfferCancellation a = true
    · rw [if_pos cancels] at collected ⊢
      have continued : collectCancelOffers E node tx toValidate
          (offers ++ (E.cancelOfferTxId a.body).toList) rest = some result := by
        split at collected
        · cases collected
        · dsimp only at collected
          split at collected
          · split at collected
            · cases collected
            · exact collected
          · exact collected
      rcases ih continued with before | later
      · rcases List.mem_append.mp before with old | own
        · exact .inl old
        · exact .inr (.inl own)
      · exact .inr (.inr later)
    · rw [if_neg cancels] at collected ⊢
      rcases ih collected with old | later
      · exact .inl old
      · exact .inr (.inr later)

theorem recordedOffers_subset (tx : Transaction) (keptByBlock fromCore : Bool) {offer : Hash}
    (recorded : offer ∈ recordedOffers E tx keptByBlock fromCore node) :
    offer ∈ cancelledOffers E tx := by
  unfold recordedOffers at recorded
  cases collected : collectCancelOffers E node tx (!keptByBlock && !fromCore) []
      (serviceAttachments tx).zipIdx with
  | none =>
    rw [collected] at recorded
    cases recorded
  | some result =>
    rw [collected] at recorded
    rcases mem_of_collectCancelOffers collected recorded with none | own
    · cases none
    · rwa [List.zipIdx_map_fst 0] at own

/-- A transaction that has its cancellations on record enters the pool with what it reserves. -/
theorem Pool.ReservationsExact.enter (exact_ : pool.ReservationsExact E) {id : Hash}
    {details : TxDetails} {recorded : List Hash}
    (subset : ∀ offer ∈ recorded, offer ∈ cancelledOffers E details.tx)
    (all : ∀ offer ∈ cancelledOffers E details.tx, offer ∈ recorded ∨
      pool.cancelOfferHash.contains offer = true)
    (replaced : ∀ old, pool.transactions.get id = some old →
      (∀ name ∈ old.tx.reservedNames, name ∈ details.tx.reservedNames) ∧
      (∀ address ∈ old.tx.reservedAddresses, address ∈ details.tx.reservedAddresses) ∧
      ∀ offer ∈ cancelledOffers E old.tx, offer ∈ cancelledOffers E details.tx) :
    ((pool.record recorded).enter id details).ReservationsExact E := by
  refine ⟨?_, ?_, ?_⟩
  · refine exact_.names.set (fun old found => (replaced old found).1) fun name => ?_
    change KeySet.contains (details.tx.aliasEntry.elim pool.aliasNames fun entry =>
      pool.aliasNames.insert entry.aliasName) name = true ↔ _
    unfold Transaction.reservedNames
    cases details.tx.aliasEntry with
    | none => simp
    | some entry =>
      rw [Option.elim_some, KeySet.contains_insert]
      simp only [Option.map_some, Option.toList_some, List.mem_singleton, Bool.or_eq_true,
        decide_eq_true_eq]
      exact ⟨fun either => either.symm.imp_right Eq.symm, fun either => either.symm.imp_left Eq.symm⟩
  · refine exact_.addresses.set (fun old found => (replaced old found).2.1) fun address => ?_
    change KeySet.contains (details.tx.aliasEntry.elim pool.aliasAddresses fun entry =>
      pool.aliasAddresses.insert entry.address) address = true ↔ _
    unfold Transaction.reservedAddresses
    cases details.tx.aliasEntry with
    | none => simp
    | some entry =>
      rw [Option.elim_some, KeySet.contains_insert]
      simp only [Option.map_some, Option.toList_some, List.mem_singleton, Bool.or_eq_true,
        decide_eq_true_eq]
      exact ⟨fun either => either.symm.imp_right Eq.symm, fun either => either.symm.imp_left Eq.symm⟩
  · refine exact_.offers.set (fun old found => (replaced old found).2.2) fun offer => ?_
    change KeySet.contains (recorded.foldl KeySet.insert pool.cancelOfferHash) offer = true ↔ _
    rw [KeySet.contains_insertAll]
    constructor
    · rintro (known | new)
      · exact .inl known
      · exact .inr (subset offer new)
    · rintro (known | own)
      · exact .inl known
      · exact (all offer own).symm

theorem Pool.ReservationsExact.addTx (exact_ : node.pool.ReservationsExact E) (tx : Transaction)
    (minFee : Nat) (id : Hash) (blobSize : Nat) (keptByBlock fromCore : Bool)
    (records : recordsOwn E tx minFee id blobSize keptByBlock fromCore node = true) :
    (poolStep E (.addTx tx minFee id blobSize keptByBlock fromCore)
      node).pool.ReservationsExact E := by
  change (Procedure.final (addTxWithId E tx minFee id blobSize keptByBlock fromCore
    node)).pool.ReservationsExact E
  rcases final_addTxWithId (E := E) tx minFee id blobSize keptByBlock fromCore node with
    same | ⟨txFee, middle, checks, same, ends⟩
  · rw [same]
    exact exact_
  · obtain ⟨details, sameTx, _, after⟩ := final_admitTx (E := E) tx minFee id blobSize keptByBlock
      fromCore txFee middle
    rw [ends, after, same]
    unfold recordsOwn at records
    rw [checks] at records
    dsimp only at records ⊢
    split at records
    · next admitted =>
      rw [if_pos admitted]
      simp only [Bool.and_eq_true, List.all_eq_true, Bool.or_eq_true, List.contains_iff_mem,
        Option.all_eq_true] at records
      refine exact_.enter (fun offer member => ?_) (fun offer own => ?_) fun old found => ?_
      · rw [sameTx]
        exact recordedOffers_subset tx keptByBlock fromCore member
      · rw [sameTx] at own
        exact records.1 offer own
      · rw [sameTx]
        obtain ⟨⟨names, addresses⟩, offers⟩ := records.2 old found
        exact ⟨names, addresses, offers⟩
    · next refused =>
      rw [if_neg refused]
      rw [List.all_eq_true] at records
      refine ⟨exact_.names, exact_.addresses, fun offer => ?_⟩
      change KeySet.contains ((recordedOffers E tx keptByBlock fromCore middle).foldl KeySet.insert
        node.pool.cancelOfferHash) offer = true ↔ _
      rw [KeySet.contains_insertAll]
      refine Iff.trans ?_ (exact_.offers offer)
      exact ⟨fun either => either.elim (fun known => known) (records offer), .inl⟩

/-! ## Runs -/

theorem indexes_empty {K : Type} [Key K] (keys : TxDetails → List K) :
    (∅ : KeySet K).Indexes (∅ : Container Hash TxDetails) keys := by
  intro k
  simp [KeySet.contains, Container.has]

/-- An index is empty when no transaction has a key. -/
theorem indexes_cleared {K : Type} [Key K] {set : KeySet K} {keys : TxDetails → List K}
    {stored : Container Hash TxDetails} (indexes : set.Indexes stored keys)
    (none : ∀ entry ∈ stored.toList, keys entry.2 = []) :
    set.Indexes (∅ : Container Hash TxDetails) keys := by
  intro k
  rw [indexes]
  constructor
  · rintro ⟨id, details, found, has⟩
    rw [none (id, details) ((Container.mem_toList _ _ _).mpr found)] at has
    cases has
  · rintro ⟨id, details, found, _⟩
    rw [Container.get_empty] at found
    cases found

theorem Pool.ReservationsExact.cleared (exact_ : pool.ReservationsExact E)
    (none : ∀ entry ∈ pool.transactions.toList, entry.2.tx.aliasEntry = none) :
    ({ pool with transactions := ∅, cancelOfferHash := ∅ } : Pool).ReservationsExact E where
  names := indexes_cleared exact_.names fun entry member => by
    rw [Transaction.reservedNames, none entry member]
    rfl
  addresses := indexes_cleared exact_.addresses fun entry member => by
    rw [Transaction.reservedAddresses, none entry member]
    rfl
  offers := indexes_empty _

/-- In every run whose steps release and record just what a transaction reserves, the three sets
are exact in every state reached. -/
theorem reservationsExact_of_run (reached : (poolSystem E).Reaches (KeepsReservations E) node) :
    node.pool.ReservationsExact E := by
  induction reached with
  | @start node initial =>
    rw [show node.pool = {} from initial]
    exact ⟨indexes_empty _, indexes_empty _, indexes_empty _⟩
  | @step node _ event meets exact_ =>
    cases event with
    | addTx tx minFee id blobSize keptByBlock fromCore => exact exact_.addTx _ _ _ _ _ _ meets
    | takeTx id =>
      rcases poolStep_takeTx (E := E) id node with ⟨_, same⟩ | ⟨details, found, after⟩
      · exact same ▸ exact_
      · have forgotten := exact_.forgetAll (fun entry member => by
          rw [List.mem_singleton.mp member]
          exact found) (meets details found)
        change (poolStep E (.takeTx id) node).pool.ReservationsExact E
        rw [after]
        exact ⟨forgotten.names, forgotten.addresses, forgotten.offers⟩
    | removeStuckTransactions =>
      rcases poolStep_removeStuck (E := E) node with same | ⟨median, chain, read, after⟩
      · exact same ▸ exact_
      · change (poolStep E .removeStuckTransactions node).pool.ReservationsExact E
        rw [after]
        refine exact_.forgetAll (fun entry member => ?_) (meets median chain read)
        unfold stuckTransactions at member
        obtain ⟨⟨id, details⟩, stored, copy⟩ := List.mem_flatMap.mp member
        have same : entry = (id, details) := by
          dsimp only at copy
          split at copy
          · cases copy
          · rcases List.mem_append.mp copy with first | second
            · split at first
              · exact List.mem_singleton.mp first
              · cases first
            · split at second
              · exact List.mem_singleton.mp second
              · cases second
        rw [same]
        exact (Container.mem_toList _ _ _).mp stored
    | purgeTransactions =>
      have cleared := exact_.cleared meets
      exact ⟨cleared.names, cleared.addresses, cleared.offers⟩
    | clear =>
      have cleared := exact_.cleared meets
      exact ⟨cleared.names, cleared.addresses, cleared.offers⟩
    | storage chain => exact exact_

end Reservations

/-! ## An alias that outlives its transaction -/

namespace PurgedAlias

/-- Every cancellation refers to one offer. -/
def env : Env := { Env.plain with cancelOfferTxId := fun _ => some ⟨7⟩ }

/-- A transaction of one coin that comes with a block. -/
def moving (id : Nat) (extra attachment : List PayloadItem) : Transaction where
  version := id
  vin := [.toKey
    { amount := coin
      keyOffsets := [.index 0]
      kImage := ⟨id⟩
      etcDetails := [] }]
  vout := [⟨coin, .toKey ⟨⟨id⟩, 0⟩⟩]
  extra
  signatures := [[⟨0⟩]]
  attachment

def registering : Transaction :=
  moving 101 [.extraAliasEntry
    { aliasName := "name"
      address := ⟨⟨1⟩, ⟨2⟩⟩
      textComment := ""
      viewKey := []
      sign := [] }] []

def cancelling : Transaction :=
  moving 102 [] [.txServiceAttachment
    { serviceId := bcOffersServiceId
      instruction := bcOffersServiceInstructionDel
      body := ""
      security := []
      flags := 0 }]

def events : List PoolEvent :=
  [.addTx registering 0 ⟨101⟩ 100 true false, .addTx cancelling 0 ⟨102⟩ 100 true false]

/-- The pool is purged, and the alias stays reserved although the pool is empty. -/
theorem name_outlives : ∃ events, (poolSystem env).Reachable ((poolSystem env).after {} events) ∧
    ¬((poolSystem env).after {} events).pool.ReservationsExact env := by
  refine ⟨events ++ [.purgeTransactions], System.Reachable.after (.start rfl) _, fun exact_ => ?_⟩
  have reserved : ((poolSystem env).after {}
      (events ++ [.purgeTransactions])).pool.aliasNames.contains "name" = true := by decide
  obtain ⟨id, details, found, _⟩ := (exact_.names "name").mp reserved
  have none : ((poolSystem env).after {} (events ++ [.purgeTransactions])).pool.transactions.get id =
      none := Container.get_empty id
  cases none.symm.trans found

/-- Before that, the alias and the cancellation are reserved by the transactions in the pool. -/
theorem reserved_exactly :
    ((poolSystem env).after {} events).pool.ReservationsExact env ∧
      ((poolSystem env).after {} events).pool.aliasNames.contains "name" = true ∧
      ((poolSystem env).after {} events).pool.cancelOfferHash.contains ⟨7⟩ = true := by
  refine ⟨reservationsExact_of_run (System.Reaches.after (.start rfl) ⟨?_, ?_, trivial⟩), ?_, ?_⟩
  · change recordsOwn _ _ _ _ _ _ _ _ = true
    decide
  · change recordsOwn _ _ _ _ _ _ _ _ = true
    decide
  · decide
  · decide

end PurgedAlias
end Virie
