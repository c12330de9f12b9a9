import Virie.Chainstate.PoolContents
import Virie.Chainstate.Running

/-! # The pool's index of key images

The index counts how many inputs of pool transactions use a key image, transactions that
blocks vouch for apart. Adding, taking and purging keep the count. The removal of stuck
transactions uncounts a transaction that is both outdated and expired twice, and goes
wrong when its key image is also used by a transaction that stays. -/

open Foundation

namespace Virie

/-- The uses of a key image that a pool transaction adds to the count. -/
def TxDetails.countedUses (details : TxDetails) (ki : KeyImage) : Nat :=
  if details.keptByBlock then 0 else details.tx.keyImages.count ki

/-- The uses of a key image by all pool transactions that no block vouches for. -/
def Pool.keyImageUses (pool : Pool) (ki : KeyImage) : Nat :=
  pool.transactions.total fun _ details => details.countedUses ki

/-- The index maps every key image to the number of its uses, and has no entry for number zero. -/
def Pool.KeyImagesCounted (pool : Pool) : Prop := pool.keyImagesSet.Counts pool.keyImageUses

/-! ## Stuck transactions -/

section Stuck

variable (node : Node) (median : Nat) (entry : Hash × TxDetails)

/-- A transaction outlived the pool. -/
def outlived : Bool :=
  !node.chain.alternativeChainsTxs.has entry.1 &&
    decide (node.chain.coreTime - entry.2.receiveTime > currencyMempoolTxLivetime)

/-- A transaction expired. -/
def expired : Bool :=
  !node.chain.alternativeChainsTxs.has entry.1 && entry.2.tx.isTxExpired median

/-- What the list of stuck transactions says about one of them. -/
def stuckCopies : List (Hash × TxDetails) :=
  (if outlived node entry then [entry] else []) ++ if expired node median entry then [entry] else []

/-- No key image of a transaction that is removed twice is used by one that stays, those that
blocks vouch for apart. -/
def StuckApart : Prop :=
  ∀ twice ∈ node.pool.transactions.toList, ∀ staying ∈ node.pool.transactions.toList,
    outlived node twice = true → expired node median twice = true →
    outlived node staying = false → expired node median staying = false →
    ∀ ki, twice.2.countedUses ki = 0 ∨ staying.2.countedUses ki = 0

end Stuck

/-- Transactions are added when the pool does not hold them. -/
def AddsNew (event : PoolEvent) (node : Node) : Prop :=
  match event with
  | .addTx _ _ id _ _ _ => node.pool.transactions.get id = none
  | _ => True

/-- The steps that keep the index exact: added transactions are new, and stuck transactions are
removed while none of them that is removed twice shares a key image with one that stays. -/
def CountsKeyImages (event : PoolEvent) (node : Node) : Prop :=
  AddsNew event node ∧
    (event = .removeStuckTransactions → ∀ median chain,
      getTxExpirationMedian node.chain = .ok median chain → StuckApart { node with chain } median)

section KeyImages

variable {E : Env} {pool : Pool} {node : Node}

/-! ## Single transactions -/

/-- A new transaction is counted. -/
theorem Pool.KeyImagesCounted.enter (counted : pool.KeyImagesCounted) {id : Hash}
    {details : TxDetails} (fresh : pool.transactions.get id = none) :
    (pool.enter id details).KeyImagesCounted := by
  have uses : ∀ ki, (pool.enter id details).keyImageUses ki =
      pool.keyImageUses ki + details.countedUses ki := fun ki =>
    pool.transactions.total_set_of_none details fresh _
  change (if details.keptByBlock then pool.keyImagesSet
    else (pool.insertKeyImages details.tx.toTransactionPrefix).keyImagesSet).Counts _
  cases vouched : details.keptByBlock with
  | true =>
    refine counted.congr fun ki => ?_
    rw [uses, TxDetails.countedUses, vouched, if_pos rfl, Nat.add_zero]
  | false =>
    refine (counted.upAll details.tx.keyImages).congr fun ki => ?_
    rw [uses, TxDetails.countedUses, vouched, if_neg Bool.false_ne_true]

/-- Forgetting a transaction uncounts its key images, whatever the pool holds. -/
theorem Pool.counts_forget {number : KeyImage → Nat} (counts : pool.keyImagesSet.Counts number)
    (id : Hash) (details : TxDetails) :
    (pool.forget E id details.tx details.keptByBlock).keyImagesSet.Counts
      fun ki => number ki - details.countedUses ki := by
  change (if details.keptByBlock then pool.keyImagesSet
    else (pool.removeKeyImages details.tx.toTransactionPrefix).keyImagesSet).Counts _
  unfold TxDetails.countedUses
  cases details.keptByBlock with
  | true => exact counts
  | false => exact counts.downAll _

theorem Pool.KeyImagesCounted.forget (counted : pool.KeyImagesCounted) {id : Hash}
    {details : TxDetails} (found : pool.transactions.get id = some details) :
    (pool.forget E id details.tx details.keptByBlock).KeyImagesCounted := by
  refine (Pool.counts_forget counted id details).congr fun ki => ?_
  have split : pool.keyImageUses ki =
      (pool.forget E id details.tx details.keptByBlock).keyImageUses ki +
        details.countedUses ki := pool.transactions.total_erase_of_some found _
  omega

/-! ## Removing stuck transactions -/

theorem Pool.counts_forgetAll {number : KeyImage → Nat} (entries : List (Hash × TxDetails))
    (counts : pool.keyImagesSet.Counts number) :
    (entries.foldl (fun pool entry => pool.forget E entry.1 entry.2.tx entry.2.keptByBlock)
      pool).keyImagesSet.Counts
      fun ki => number ki - (entries.map fun entry => entry.2.countedUses ki).sum := by
  induction entries generalizing pool number with
  | nil => exact counts
  | cons entry rest ih =>
    refine (ih (Pool.counts_forget counts entry.1 entry.2)).congr fun ki => ?_
    rw [List.map_cons, List.sum_cons, Nat.sub_sub]

theorem Pool.transactions_forgetAll (entries : List (Hash × TxDetails)) (pool : Pool) :
    (entries.foldl (fun pool entry => pool.forget E entry.1 entry.2.tx entry.2.keptByBlock)
      pool).transactions = (entries.map Prod.fst).foldl Container.erase pool.transactions := by
  induction entries generalizing pool with
  | nil => rfl
  | cons entry rest ih =>
    rw [List.foldl_cons, ih]
    rfl

theorem stuckTransactions_eq (node : Node) (median : Nat) :
    stuckTransactions node median =
      node.pool.transactions.toList.flatMap (stuckCopies node median) := by
  unfold stuckTransactions
  apply List.flatMap_congr
  rintro ⟨h, details⟩ _
  unfold stuckCopies outlived expired
  cases related : node.chain.alternativeChainsTxs.has h with
  | true => simp [related]
  | false => simp [related]

/-- The ids on the list are the ones of the transactions that outlived the pool or expired. -/
theorem mem_stuck_ids {median : Nat} {entry : Hash × TxDetails}
    (member : entry ∈ node.pool.transactions.toList) :
    entry.1 ∈ (stuckTransactions node median).map Prod.fst ↔
      (outlived node entry || expired node median entry) = true := by
  rw [stuckTransactions_eq, List.mem_map]
  constructor
  · rintro ⟨⟨id, details⟩, stuck, same⟩
    obtain ⟨source, stored, copy⟩ := List.mem_flatMap.mp stuck
    have whole : source = entry := by
      have copied : (id, details) = source := by
        unfold stuckCopies at copy
        rcases List.mem_append.mp copy with first | second
        · split at first
          · exact List.mem_singleton.mp first
          · cases first
        · split at second
          · exact List.mem_singleton.mp second
          · cases second
      obtain ⟨key, value⟩ := entry
      dsimp only at same
      subst same
      have here := (Container.mem_toList _ _ _).mp member
      rw [← copied] at stored ⊢
      rw [(Container.mem_toList _ _ _).mp stored] at here
      rw [Option.some.inj here]
    rw [whole] at copy
    unfold stuckCopies at copy
    rw [Bool.or_eq_true]
    by_cases old : outlived node entry = true
    · exact .inl old
    · rw [if_neg old, List.nil_append] at copy
      split at copy
      · next late => exact .inr late
      · cases copy
  · intro stuck
    refine ⟨entry, List.mem_flatMap.mpr ⟨entry, member, ?_⟩, rfl⟩
    unfold stuckCopies
    by_cases old : outlived node entry = true
    · rw [if_pos old]
      exact List.mem_append_left _ (List.mem_singleton.mpr rfl)
    · rw [Bool.eq_false_iff.mpr old, Bool.false_or] at stuck
      rw [if_pos stuck]
      exact List.mem_append_right _ (List.mem_singleton.mpr rfl)

/-- The copies on the list weigh as much as the stuck transactions and, once more, those that are
on it twice. -/
theorem sum_stuckCopies (median : Nat) (weight : Hash × TxDetails → Nat)
    (entries : List (Hash × TxDetails)) :
    ((entries.flatMap (stuckCopies node median)).map weight).sum =
      ((entries.filter fun entry => outlived node entry || expired node median entry).map
        weight).sum +
      ((entries.filter fun entry => outlived node entry && expired node median entry).map
        weight).sum := by
  induction entries with
  | nil => rfl
  | cons entry rest ih =>
    rw [List.flatMap_cons, List.map_append, List.sum_append, ih, List.filter_cons, List.filter_cons]
    unfold stuckCopies
    cases outlived node entry <;> cases expired node median entry <;>
      simp only [Bool.false_eq_true, ↓reduceIte, Bool.or_false, Bool.or_true, Bool.and_false,
        Bool.and_true, Bool.and_self, Bool.or_self, List.append_nil, List.nil_append,
        List.cons_append, List.map_cons, List.map_nil, List.sum_cons, List.sum_nil] <;>
      omega

theorem sum_filter_add (weight : Hash × TxDetails → Nat) (test : Hash × TxDetails → Bool)
    (entries : List (Hash × TxDetails)) :
    (entries.map weight).sum = ((entries.filter fun entry => !test entry).map weight).sum +
      ((entries.filter test).map weight).sum := by
  induction entries with
  | nil => rfl
  | cons entry rest ih =>
    rw [List.map_cons, List.sum_cons, ih, List.filter_cons, List.filter_cons]
    cases test entry <;>
      simp only [Bool.not_true, Bool.not_false, Bool.false_eq_true, ↓reduceIte, List.map_cons,
        List.sum_cons] <;>
      omega

/-- The weight of the twice removed transactions and of the staying ones. -/
def twiceUses (node : Node) (median : Nat) (ki : KeyImage) : Nat :=
  ((node.pool.transactions.toList.filter fun entry =>
    outlived node entry && expired node median entry).map fun entry =>
      entry.2.countedUses ki).sum

def stayingUses (node : Node) (median : Nat) (ki : KeyImage) : Nat :=
  ((node.pool.transactions.toList.filter fun entry =>
    !(outlived node entry || expired node median entry)).map fun entry =>
      entry.2.countedUses ki).sum

/-- After stuck transactions were removed, the index is exact if and only if no key image has uses
both by twice removed and by staying transactions. -/
theorem removeStuck_counted_iff (node : Node) (counted : node.pool.KeyImagesCounted)
    (median : Nat) :
    ((stuckTransactions node median).foldl (fun pool entry =>
        pool.forget E entry.1 entry.2.tx entry.2.keptByBlock) node.pool).KeyImagesCounted ↔
      ∀ ki, twiceUses node median ki = 0 ∨ stayingUses node median ki = 0 := by
  have counts := Pool.counts_forgetAll (E := E) (stuckTransactions node median) counted
  have left : ∀ ki, ((stuckTransactions node median).foldl (fun pool entry =>
      pool.forget E entry.1 entry.2.tx entry.2.keptByBlock) node.pool).keyImageUses ki =
        stayingUses node median ki := by
    intro ki
    rw [Pool.keyImageUses, Pool.transactions_forgetAll, Container.total_eraseAll, stayingUses]
    congr 2
    apply List.filter_congr
    intro entry member
    rw [decide_not, Bool.not_inj_iff, Bool.eq_iff_iff, decide_eq_true_eq]
    exact mem_stuck_ids member
  have uses : ∀ ki, node.pool.keyImageUses ki = stayingUses node median ki +
      ((node.pool.transactions.toList.filter fun entry =>
        outlived node entry || expired node median entry).map fun entry =>
          entry.2.countedUses ki).sum :=
    fun ki => sum_filter_add (fun entry => entry.2.countedUses ki) _ _
  have removed : ∀ ki, ((stuckTransactions node median).map fun entry =>
      entry.2.countedUses ki).sum + stayingUses node median ki =
        node.pool.keyImageUses ki + twiceUses node median ki := by
    intro ki
    rw [stuckTransactions_eq, sum_stuckCopies]
    rw [uses, twiceUses, stayingUses]
    omega
  have bound : ∀ ki, stayingUses node median ki ≤ node.pool.keyImageUses ki := by
    intro ki
    rw [uses]
    exact Nat.le_add_right _ _
  constructor
  · intro exact_ ki
    have same := counts.unique exact_ ki
    have split := removed ki
    have fits := bound ki
    rw [left] at same
    omega
  · intro apart
    refine counts.congr fun ki => ?_
    have split := removed ki
    have fits := bound ki
    rw [left]
    rcases apart ki with none | none
    · omega
    · omega

theorem sum_map_eq_zero_iff (weight : Hash × TxDetails → Nat)
    (entries : List (Hash × TxDetails)) :
    (entries.map weight).sum = 0 ↔ ∀ entry ∈ entries, weight entry = 0 := by
  induction entries with
  | nil => simp
  | cons entry rest ih =>
    rw [List.map_cons, List.sum_cons, Nat.add_eq_zero_iff, ih, List.forall_mem_cons]

theorem stuckApart_iff (median : Nat) :
    StuckApart node median ↔
      ∀ ki, twiceUses node median ki = 0 ∨ stayingUses node median ki = 0 := by
  constructor
  · intro apart ki
    by_contra shared
    obtain ⟨twice, staying⟩ := not_or.mp shared
    rw [twiceUses, sum_map_eq_zero_iff] at twice
    rw [stayingUses, sum_map_eq_zero_iff] at staying
    simp only [List.mem_filter, not_forall, Bool.and_eq_true, Bool.not_eq_true',
      Bool.or_eq_false_iff] at twice staying
    obtain ⟨first, ⟨firstStored, old, late⟩, firstUses⟩ := twice
    obtain ⟨second, ⟨secondStored, young, early⟩, secondUses⟩ := staying
    rcases apart first firstStored second secondStored old late young early ki with none | none
    · exact firstUses none
    · exact secondUses none
  · intro apart first firstStored second secondStored old late young early ki
    rcases apart ki with none | none
    · rw [twiceUses, sum_map_eq_zero_iff] at none
      exact .inl (none first (List.mem_filter.mpr ⟨firstStored, by rw [old, late]; rfl⟩))
    · rw [stayingUses, sum_map_eq_zero_iff] at none
      exact .inr (none second (List.mem_filter.mpr ⟨secondStored, by rw [young, early]; rfl⟩))

/-! ## Runs -/

theorem keyImagesCounted_empty : ({} : Pool).KeyImagesCounted :=
  Container.Counts.empty.congr fun _ => rfl

theorem Pool.KeyImagesCounted.addTx (counted : node.pool.KeyImagesCounted) (tx : Transaction)
    (minFee : Nat) {id : Hash} (blobSize : Nat) (keptByBlock fromCore : Bool)
    (fresh : node.pool.transactions.get id = none) :
    (poolStep E (.addTx tx minFee id blobSize keptByBlock fromCore) node).pool.KeyImagesCounted := by
  change (Procedure.final (addTxWithId E tx minFee id blobSize keptByBlock fromCore
    node)).pool.KeyImagesCounted
  rcases final_addTxWithId (E := E) tx minFee id blobSize keptByBlock fromCore node with
    same | ⟨txFee, middle, _, same, ends⟩
  · rw [same]
    exact counted
  · obtain ⟨details, _, _, after⟩ := final_admitTx (E := E) tx minFee id blobSize keptByBlock
      fromCore txFee middle
    rw [ends, after, same]
    have recorded : (node.pool.record
        (recordedOffers E tx keptByBlock fromCore middle)).KeyImagesCounted := counted
    dsimp only
    split
    · exact recorded.enter fresh
    · exact recorded

/-- In every run whose added transactions are new and in which no transaction that is removed
twice shares a key image with one that stays, the index is exact in every state reached. -/
theorem keyImagesCounted_of_run (reached : (poolSystem E).Reaches CountsKeyImages node) :
    node.pool.KeyImagesCounted := by
  induction reached with
  | @start node initial =>
    rw [show node.pool = {} from initial]
    exact keyImagesCounted_empty
  | @step node _ event meets counted =>
    obtain ⟨new, apart⟩ := meets
    cases event with
    | addTx tx minFee id blobSize keptByBlock fromCore => exact counted.addTx _ _ _ _ _ new
    | takeTx id =>
      rcases poolStep_takeTx (E := E) id node with ⟨_, same⟩ | ⟨details, found, after⟩
      · exact same ▸ counted
      · change (poolStep E (.takeTx id) node).pool.KeyImagesCounted
        rw [after]
        exact counted.forget (E := E) found
    | removeStuckTransactions =>
      rcases poolStep_removeStuck (E := E) node with same | ⟨median, chain, read, after⟩
      · exact same ▸ counted
      · change (poolStep E .removeStuckTransactions node).pool.KeyImagesCounted
        rw [after]
        have settled := (stuckApart_iff median).mp (apart rfl median chain read)
        exact (removeStuck_counted_iff { node with chain } counted median).mpr settled
    | purgeTransactions => exact keyImagesCounted_empty
    | clear => exact keyImagesCounted_empty
    | storage chain => exact counted

end KeyImages

/-! ## A double spend of which one part is stuck -/

namespace StuckDoubleSpend

/-- A checkpoint far above the blocks of the run. -/
def env : Env := { Env.plain with points := (∅ : Container Nat Hash).set 100 ⟨0⟩ }

def genesis : Block := .plain 1 0 premineAmount nullHash []

def mined (height : Nat) : Block :=
  { Block.plain (height + 1) height coin ⟨height⟩ [] with timestamp := 120 * height }

/-- A node with twelve blocks above the genesis block, all of them below the checkpoint. -/
def synced : Node :=
  (nodeSystem env anyBlock).after (addNewBlock env genesis (Node.fresh 1000000)).2
    ((List.range' 1 12).map fun height => Event.submitBlock (mined height))

/-- A transaction that spends the first coin, possibly with an expiration time. -/
def spend (id : Nat) (extra : List PayloadItem) : Transaction where
  version := id
  vin := [.toKey
    { amount := coin
      keyOffsets := [.index 0]
      kImage := ⟨5⟩
      etcDetails := [] }]
  vout := [⟨coin, .toKey ⟨⟨id⟩, 0⟩⟩]
  extra
  signatures := [[⟨0⟩]]
  attachment := []

/-- Two transactions that spend one output come in while the node is below the checkpoint. The
first of them is expired, and by the time the second one comes also outdated. -/
def events : List PoolEvent :=
  [.storage synced.chain,
    .addTx (spend 101 [.etcTxDetailsExpirationTime 1]) 0 ⟨101⟩ 100 false false,
    .storage { synced.chain with coreTime := 2000000 },
    .addTx (spend 102 []) 0 ⟨102⟩ 100 false false]

def doubled : Node := (poolSystem env).after {} events

/-- The second transaction stays, and its key image is no longer in the index. -/
theorem uncounted : ∃ events node, (poolSystem env).Reaches AddsNew node ∧
    node = (poolSystem env).after {} events ∧ ¬node.pool.KeyImagesCounted := by
  refine ⟨events ++ [.removeStuckTransactions], _, ?_, rfl, fun counted => ?_⟩
  · refine System.Reaches.after (.start rfl) ?_
    refine ⟨trivial, ?_, trivial, ?_, trivial, trivial⟩
    · change Container.get _ _ = none
      decide
    · change Container.get _ _ = none
      decide +kernel
  · have entry := counted ⟨5⟩
    have lost : ((poolSystem env).after {} (events ++ [.removeStuckTransactions])).pool.keyImagesSet.get
        ⟨5⟩ = none := by decide +kernel
    have used : ((poolSystem env).after {} (events ++ [.removeStuckTransactions])).pool.keyImageUses
        ⟨5⟩ = 1 := by decide +kernel
    rw [lost, used] at entry
    cases entry

/-- Before the removal both uses are counted. -/
theorem doubled_counted : doubled.pool.KeyImagesCounted ∧ doubled.pool.keyImageUses ⟨5⟩ = 2 := by
  refine ⟨keyImagesCounted_of_run (E := env) ?_, by decide +kernel⟩
  refine System.Reaches.after (.start rfl) ?_
  refine ⟨⟨trivial, by rintro ⟨⟩⟩, ⟨?_, by rintro ⟨⟩⟩, ⟨trivial, by rintro ⟨⟩⟩,
    ⟨?_, by rintro ⟨⟩⟩, trivial⟩
  · change Container.get _ _ = none
    decide
  · change Container.get _ _ = none
    decide +kernel

end StuckDoubleSpend
end Virie
