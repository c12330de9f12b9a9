import Virie.CachedDifficulty
import Virie.Wallet.StakeScan

/-! # Minted blocks

A block that a wallet minted on the tip of a node passes the checks that the node makes of a
stake, if it is built in time: the walk of the scan stays on the multiples of the step, the
kernel is the one the node builds, and the age rule of a wallet in step with the chain is the
rule of the node. The node allows the window of the scan and a hundred seconds between the
timestamp and the time of building, and the scan knows no such limit. -/

open Foundation

namespace Virie
namespace Wallet

/-! ## The block that is built -/

section Building

variable {S : Sending} {E : Env} {keys : AccountKeys} {chain : Chain} {outAmounts : Nat → List Nat}
  {filled : Option (List Hash × Nat × Nat)} {miner stakeholder : AccountPublicAddress}
  {nonce : String} {amount index builtAt : Nat} {txkey : Keypair} {template b : Block}
  {cxt : MiningContext} {wallet : Wallet}

/-- The time an entry of the extra field claims. -/
def claimedTime : PayloadItem → Option Nat
  | .etcTxTime v => some v
  | _ => none

theorem getActualTimestamp_eq (b : Block) :
    getActualTimestamp b =
      if isPosBlock b then (b.minerTx.extra.findSome? claimedTime).getD b.timestamp
      else b.timestamp := rfl

/-- Extra fields in which no entry claims a time. -/
def Timeless (extra : List PayloadItem) : Prop := ∀ item ∈ extra, claimedTime item = none

theorem Timeless.append {first second : List PayloadItem} (left : Timeless first)
    (right : Timeless second) : Timeless (first ++ second) := by
  intro item member
  rcases List.mem_append.mp member with early | late
  · exact left item early
  · exact right item late

theorem Timeless.of_trailing {hints : List PayloadItem}
    (own : ∀ item ∈ hints, item.isTrailing = true) : Timeless hints := by
  intro item member
  have trailing := own item member
  cases item with
  | etcTxTime v => cases trailing
  | _ => rfl

theorem Timeless.updateOrAddField {extra : List PayloadItem} (timeless : Timeless extra)
    {sameType : PayloadItem → Bool} {entry : PayloadItem} (other : claimedTime entry = none) :
    Timeless (Virie.updateOrAddField sameType entry extra) := by
  induction extra with
  | nil =>
    intro item member
    rw [List.mem_singleton.mp member]
    exact other
  | cons first rest ih =>
    have later : Timeless rest := fun item member => timeless item (List.mem_cons_of_mem _ member)
    unfold Virie.updateOrAddField
    split
    · intro item member
      rcases List.mem_cons.mp member with rfl | member
      · exact other
      · exact later item member
    · intro item member
      rcases List.mem_cons.mp member with rfl | member
      · exact timeless item List.mem_cons_self
      · exact ih later item member

/-- The outputs of a coinbase leave its inputs and signatures alone and claim no time. -/
theorem foldlM_constructTxOut {destinations : List TxDestinationEntry}
    {start final : Transaction × List Nat}
    (constructed : destinations.foldlM
      (fun state de => constructTxOut S txkey.sec 0 state.1 state.2 de) start = some final)
    (timeless : Timeless start.1.extra) :
    final.1.vin = start.1.vin ∧ final.1.signatures = start.1.signatures ∧
      Timeless final.1.extra := by
  induction destinations generalizing start with
  | nil =>
    obtain rfl := Option.some.inj constructed
    exact ⟨rfl, rfl, timeless⟩
  | cons de rest ih =>
    rw [List.foldlM_cons, Option.bind_eq_bind, Option.bind_eq_some_iff] at constructed
    obtain ⟨⟨next, cache⟩, first, later⟩ := constructed
    have grows := constructTxOut_grows first
    simp only [constructTxOut, Option.bind_eq_bind, Option.bind_eq_some_iff, Option.pure_def,
      Option.some.injEq, Prod.mk.injEq] at first
    obtain ⟨_, _, _, targets, rfl, _⟩ := first
    obtain ⟨hints, extra, own⟩ := constructTargetKeys_trailing targets
    have timelessNext : Timeless (start.1.extra ++ hints) :=
      timeless.append (Timeless.of_trailing own)
    rw [← extra] at timelessNext
    obtain ⟨vin, signatures, timelessLast⟩ := ih later timelessNext
    exact ⟨vin.trans grows.vin, signatures.trans grows.signatures, timelessLast⟩

/-- A template is on the tip, spends the output it was asked for, and claims no time. -/
theorem createPosBlockTemplate_ok
    (created : createPosBlockTemplate S E chain outAmounts filled miner stakeholder nonce amount
      index txkey = some template) :
    template.prevId = chain.db.getTopBlockId E ∧ template.flags = currencyBlockFlagPosBlock ∧
      coinstakeInput template = some
        { amount, keyOffsets := [.index index], kImage := nullKi, etcDetails := [] } ∧
      Timeless template.minerTx.extra := by
  simp only [createPosBlockTemplate, Option.bind_eq_bind, Option.bind_eq_some_iff,
    Option.guard_eq_some', Option.pure_def, Option.some.injEq] at created
  obtain ⟨_, _, _, _, ⟨txHashes, txsSize, fee⟩, _, minerTx, coinbase, _, _, rfl⟩ := created
  simp only [constructPosMinerTx, Option.bind_eq_bind, Option.bind_eq_some_iff,
    Option.guard_eq_some', Option.pure_def, Option.some.injEq] at coinbase
  obtain ⟨_, _, _, _, ⟨tx, cache⟩, outs, rfl⟩ := coinbase
  have timeless : Timeless ([PayloadItem.publicKey txkey.pub] ++
      (if nonce = "" then [] else [PayloadItem.extraUserData nonce]) ++ [.extraPadding []]) := by
    intro item member
    simp only [List.mem_append, List.mem_singleton] at member
    rcases member with (rfl | data) | rfl
    · rfl
    · split at data
      · cases data
      · rw [List.mem_singleton.mp data]
        rfl
    · rfl
  obtain ⟨vin, signatures, timelessOuts⟩ := foldlM_constructTxOut outs timeless
  refine ⟨rfl, rfl, ?_, timelessOuts.updateOrAddField rfl⟩
  simp only [coinstakeInput]
  rw [show tx.vin = _ from vin]

/-- A block that was signed spends the output of its entry and keeps the rest of what the checks
of a stake read. -/
theorem prepareAndSignPosBlock_ok {timed : Block} {entry : PosEntry} {sourceTxPubKey : PublicKey}
    {inTxOutputIndex : Nat} {outputKey : PublicKey} {txin : TxinToKey}
    (prepared : prepareAndSignPosBlock S E keys timed entry sourceTxPubKey inTxOutputIndex
      outputKey = some b) (spends : coinstakeInput timed = some txin) :
    b.minerTx.isPosCoinbase = true ∧ b.flags = timed.flags ∧ b.timestamp = timed.timestamp ∧
      b.minerTx.extra = timed.minerTx.extra ∧
      coinstakeInput b = some { txin with kImage := entry.keyimage } := by
  simp only [prepareAndSignPosBlock, spends, Option.bind_eq_bind, Option.bind_eq_some_iff,
    Option.guard_eq_some', Option.pure_def, Option.some.injEq, exists_eq_left'] at prepared
  obtain ⟨_, coinbase, _, _, derivation, _, rfl⟩ := prepared
  obtain ⟨first, place⟩ : ∃ first, timed.minerTx.vin = [first, .toKey txin] := by
    unfold coinstakeInput at spends
    split at spends
    · rename_i first input shape
      obtain rfl := Option.some.inj spends
      exact ⟨first, shape⟩
    · cases spends
  refine ⟨?_, rfl, rfl, rfl, ?_⟩
  · simp only [Transaction.isPosCoinbase, Bool.and_eq_true] at coinbase ⊢
    obtain ⟨gen, _⟩ := coinbase
    simp only [TransactionPrefix.isCoinbase, place, List.take_succ_cons, List.take_zero,
      List.cons_append, List.nil_append] at gen ⊢
    cases first with
    | gen height => exact ⟨rfl, rfl⟩
    | toKey _ => cases gen
    | multisig _ => cases gen
  · simp only [coinstakeInput, place, List.take_succ_cons, List.take_zero, List.cons_append,
      List.nil_append]

/-- A minted block is stamped with the time of its kernel and claims the time it was built at. -/
theorem buildMintedBlock_ok {templateFor : PosEntry → Option Block}
    (built : buildMintedBlock S E keys cxt templateFor wallet builtAt = some b) {entry : PosEntry}
    (place : cxt.posEntries[cxt.rsp.index]? = some entry)
    (created : ∀ {template}, templateFor entry = some template →
      template.flags = currencyBlockFlagPosBlock ∧
      coinstakeInput template = some
        { amount := entry.amount, keyOffsets := [.index entry.index], kImage := nullKi,
          etcDetails := [] } ∧
      Timeless template.minerTx.extra) :
    isPosBlock b = true ∧ b.timestamp = cxt.rsp.blockTimestamp ∧
      getActualTimestamp b = builtAt ∧
      coinstakeInput b = some
        { amount := entry.amount, keyOffsets := [.index entry.index], kImage := entry.keyimage,
          etcDetails := [] } := by
  simp only [buildMintedBlock, place, Option.bind_eq_bind, Option.bind_eq_some_iff,
    Option.guard_eq_some', Option.some.injEq, exists_eq_left'] at built
  obtain ⟨template, made, _, _, tr, _, out, _, outputKey, _, prepared⟩ := built
  obtain ⟨flags, spends, timeless⟩ := created made
  obtain ⟨coinbase, sameFlags, stamped, extra, named⟩ := prepareAndSignPosBlock_ok prepared spends
  have pos : isPosBlock b = true := by
    rw [isPosBlock, sameFlags, coinbase, Bool.and_true]
    exact (congrArg (fun flags => (flags &&& currencyBlockFlagPosBlock) != 0) flags).trans rfl
  refine ⟨pos, stamped, ?_, named⟩
  rw [getActualTimestamp_eq, if_pos pos, extra, List.findSome?_append,
    List.findSome?_eq_none_iff.mpr timeless]
  rfl

end Building

/-! ## What the node recomputes -/

section Node

variable {E : Env} {chain now : Chain} {b : Block} {basicDiff : Nat} {id proof : Hash}
  {input : TxinToKey}

/-- The checks of a proof-of-stake block on the tip of the main chain: the step of its timestamp,
the distance of the actual time, the kernel, and the age of the output it spends. -/
structure PosChecks (E : Env) (chain : Chain) (b : Block) (basicDiff : Nat) : Prop where
  timestampStep : b.timestamp % posScanStep = 0
  actualTime : actualTimestampAllowed b = true
  kernel : ∃ input sm, coinstakeInput b = some input ∧ chain.buildStakeModifier E [] 0 = .ok sm ∧
    input.amount ≠ 0 ∧
    checkHash (E.stakeKernelHash ⟨sm, b.timestamp, input.kImage⟩) (basicDiff / input.amount) = true
  age : ∃ input, coinstakeInput b = some input ∧ ∀ keys maxRelatedBlockHeight,
    getOutputKeysForInputWithChecks chain input 0 = .ok keys maxRelatedBlockHeight →
      E.minCoinstakeAge ≤ chain.db.blocks.length - maxRelatedBlockHeight - 1

/-- A block with a coinstake input is accepted when it passes these checks, has the form of a
proof-of-stake block, spends a key image for the first time and has a good input. -/
theorem validatePosBlock_ok (checks : PosChecks E chain b basicDiff)
    (pos : isPosBlock b = true) (spends : coinstakeInput b = some input)
    (unspent : chain.db.haveTxKeyimgAsSpent input.kImage = false)
    (offsets : input.keyOffsets ≠ []) (signed : b.minerTx.signatures.length = 1)
    {maxRelatedBlockHeight : Nat}
    (inputChecked : checkTxInputToKey E chain b.minerTx 1 input id
      (b.minerTx.signatures.getD 0 []) 0 = .ok () maxRelatedBlockHeight) :
    ∃ proof, validatePosBlock E chain b basicDiff id false [] 0 = .ok proof := by
  obtain ⟨other, sm, spends', modifier, weight, kernel⟩ := checks.kernel
  obtain rfl := Option.some.inj (spends.symm.trans spends')
  obtain ⟨other, spends', aged⟩ := checks.age
  obtain rfl := Option.some.inj (spends.symm.trans spends')
  obtain ⟨outputKeys, middle, scanned, required⟩ := Procedure.bind_ok.mp inputChecked
  obtain ⟨_, rfl⟩ := Procedure.require_ok.mp required
  have age := aged outputKeys _ scanned
  refine ⟨E.stakeKernelHash ⟨sm, b.timestamp, input.kImage⟩, ?_⟩
  simp only [validatePosBlock, Outcome.bind_ok, Outcome.require_ok, Outcome.demand_ok, pos, spends,
    modifier, checks.timestampStep, checks.actualTime, signed, Bool.false_or, Bool.not_eq_true',
    List.isEmpty_eq_false_iff, beq_self_eq_true, bne_iff_ne, Bool.false_eq_true, ↓reduceIte,
    Except.ok.injEq, exists_eq_left', exists_const, true_and]
  refine ⟨input, rfl, unspent, offsets, weight, kernel, ?_⟩
  rw [inputChecked]
  simp only [Outcome.bind_ok, Outcome.pure_ok, Outcome.require_ok, exists_eq_left', exists_const]
  exact ⟨decide_eq_true age, trivial⟩

/-- An accepted block passes these checks. -/
theorem posChecks_of_validatePosBlock
    (accepted : validatePosBlock E chain b basicDiff id false [] 0 = .ok proof) :
    PosChecks E chain b basicDiff := by
  simp only [validatePosBlock, Outcome.bind_ok, Outcome.require_ok, Outcome.demand_ok,
    Bool.false_eq_true, ↓reduceIte, beq_iff_eq, bne_iff_ne] at accepted
  obtain ⟨_, _, _, step, input, spends, _, _, _, time, sm, modifier, _, _, _, weight, _, kernel, _,
    _, accepted⟩ := accepted
  refine ⟨step, time, ⟨input, sm, spends, modifier, weight, kernel⟩, input, spends, ?_⟩
  intro outputKeys maxRelatedBlockHeight scanned
  have checked : checkTxInputToKey E chain b.minerTx 1 input id (b.minerTx.signatures.getD 0 []) 0 =
      Procedure.require (checkTokeyInput E chain b.minerTx 1 input id
        (b.minerTx.signatures.getD 0 []) outputKeys) maxRelatedBlockHeight :=
    Procedure.bind_of_ok scanned
  split at accepted
  · rename_i height inputChecked
    rw [checked] at inputChecked
    obtain ⟨_, rfl⟩ := Procedure.require_ok.mp inputChecked
    simp only [Outcome.bind_ok, Outcome.pure_ok, Outcome.require_ok, exists_eq_left',
      decide_eq_true_eq] at accepted
    obtain ⟨_, age, _⟩ := accepted
    exact age
  · simp only [Outcome.bind_ok, Outcome.throw_ok, false_and, exists_false] at accepted

end Node

/-! ## Minted blocks -/

section Minted

variable {S : Sending} {E : Env} {keys : AccountKeys} {attempt : MintAttempt} {entry : PosEntry}
  {i ts basicDiff : Nat} {after : Scan} {b : Block}

/-- The first multiple of the step after a start. -/
def firstScanned (start : Nat) : Nat := (start / posScanStep + 1) * posScanStep

/-- The multiples of the step in the window around the first one after a start. -/
structure InScanWindow (start ts : Nat) : Prop where
  multiple : ts % posScanStep = 0
  low : firstScanned start - posScanWindow ≤ ts
  high : ts ≤ firstScanned start + posScanWindow

/-- A start of a scan that has the window below it and above it among the words. -/
structure RoomyStart (start : Nat) : Prop where
  low : posScanWindow ≤ start
  high : start + posScanStep + posScanWindow < 2 ^ 64

/-- A wallet that knows no more blocks than a chain, and for its outputs the blocks they are in
there. -/
structure InStep (wallet : Wallet) (chain : Chain) : Prop where
  size : wallet.blockchain.length ≤ chain.db.blocks.length
  recorded : ∀ td ∈ wallet.transfers, td.ptxWalletInfo.blockHeight < wallet.blockchain.length
  kept : ∀ td ∈ wallet.transfers, ∀ out tce,
    chain.db.outputs.getSubitem td.amount td.globalOutputIndex = some out →
    chain.db.transactions.get out.txId = some tce →
      tce.keeperBlockHeight = td.ptxWalletInfo.blockHeight

theorem adjustedStarterTimestamp_eq {start : Nat} (roomy : RoomyStart start) :
    adjustedStarterTimestamp start = firstScanned start := by
  obtain ⟨low, high⟩ := roomy
  have window : posScanWindow = 600 := rfl
  have step : posScanStep ≤ start := by
    unfold posScanStep
    omega
  have spec := adjustedStarterTimestamp_spec step (by omega)
  unfold firstScanned posScanStep at *
  omega

/-- A timestamp that a roomy scan tries is one of the window and not too early. -/
theorem mem_triedOn {world : ScanWorld} {cxt : MiningContext}
    (roomy : RoomyStart world.timstampStart) :
    ts ∈ triedOn world cxt Turn.all ↔
      InScanWindow world.timstampStart ts ∧ cxt.rsp.starterTimestamp ≤ ts := by
  have first := adjustedStarterTimestamp_eq roomy
  have later : world.timstampStart < firstScanned world.timstampStart ∧
      firstScanned world.timstampStart ≤ world.timstampStart + posScanStep := by
    unfold firstScanned posScanStep
    omega
  obtain ⟨low, high⟩ := roomy
  have grid : firstScanned world.timstampStart % posScanStep = 0 := Nat.mul_mod_left _ _
  have reach : posScanStep * (posScanWindow / posScanStep) = posScanWindow := by decide
  rw [triedOn, Turn.timestamps_eq (by omega) (by omega), List.mem_filter, first,
    mem_outward_iff (by decide) (by omega), grid, reach, Bool.not_eq_true', decide_eq_false_iff_not,
    Nat.not_lt]
  exact and_congr_left fun _ =>
    ⟨fun inside => ⟨inside.1, inside.2.1, inside.2.2⟩,
      fun window => ⟨window.multiple, window.low, window.high⟩⟩

theorem nodup_triedOn {world : ScanWorld} {cxt : MiningContext}
    (roomy : RoomyStart world.timstampStart) : (triedOn world cxt Turn.all).Nodup := by
  have first := adjustedStarterTimestamp_eq roomy
  have later : world.timstampStart < firstScanned world.timstampStart ∧
      firstScanned world.timstampStart ≤ world.timstampStart + posScanStep := by
    unfold firstScanned posScanStep
    omega
  obtain ⟨low, high⟩ := roomy
  have reach : posScanStep * (posScanWindow / posScanStep) = posScanWindow := by decide
  rw [triedOn, Turn.timestamps_eq (by omega) (by omega)]
  exact (nodup_outward (by decide) (by omega)).filter _

/-- The context of an attempt that may mine has the node's difficulty, stake modifier and tip. -/
theorem MintAttempt.context_allowed (allowed : (attempt.context E).rsp.isPosAllowed = true) :
    (attempt.context E).posEntries = attempt.wallet.getPosEntries E attempt.coreTime ∧
      Procedure.answer (getCachedNextDifficulty true attempt.chain) =
        .ok (attempt.context E).basicDiff ∧
      attempt.chain.buildStakeModifier E [] 0 = .ok (attempt.context E).sm := by
  unfold MintAttempt.context fillMiningContext at allowed ⊢
  by_cases answered :
      (onGetPosMiningDetails E attempt.chain attempt.connected).status = .ok
  · simp only [answered, ne_eq, not_true_eq_false, ↓reduceIte, true_and]
    unfold onGetPosMiningDetails at answered ⊢
    cases connected : attempt.connected with
    | false =>
      rw [connected] at answered
      cases answered
    | true =>
      rw [connected] at answered
      cases pos : attempt.chain.isPosAllowed E with
      | false =>
        rw [pos] at answered
        cases answered
      | true =>
        rw [pos] at answered
        cases filled : collectPosMiningDetails E attempt.chain with
        | error reason =>
          rw [filled] at answered
          cases answered
        | ok details =>
          simp only [Bool.not_true, Bool.false_eq_true, ↓reduceIte]
          simp only [collectPosMiningDetails, Outcome.bind_ok, Outcome.pure_ok] at filled
          obtain ⟨_, difficulty, _, modifier, _, _, rfl⟩ := filled
          exact ⟨difficulty, modifier⟩
  · rw [if_pos answered] at allowed
    cases allowed

/-- An entry of the scan stands for an output that passed the wallet's own rule. -/
theorem mem_getPosEntries {wallet : Wallet} {coreTime : Nat}
    (member : entry ∈ wallet.getPosEntries E coreTime) :
    ∃ td ∈ wallet.transfers, ∃ n, entry = posEntry td n ∧
      wallet.isTransferOkayForPos E coreTime td = true := by
  unfold getPosEntries at member
  obtain ⟨⟨td, n⟩, place, chosen⟩ := List.mem_filterMap.mp member
  have owned : td ∈ wallet.transfers := (List.mem_zipIdx' place).2 ▸ List.getElem_mem _
  dsimp only at chosen
  split at chosen
  · rename_i okay
    exact ⟨td, owned, n, (Option.some.inj chosen).symm, okay⟩
  · cases chosen

theorem buildStakeModifier_of_db {chain other : Chain} (same : other.db = chain.db) :
    other.buildStakeModifier E [] 0 = chain.buildStakeModifier E [] 0 := by
  simp only [Chain.buildStakeModifier, Chain.getLastBlockOfType, Chain.enumBlockchain, same]

/-- The height that the check of an input with one index collects is the one of the transaction
its output is from. -/
theorem scannedHeight {chain : Chain} {amount index : Nat} {kImage : KeyImage}
    {outputKeys : List PublicKey} {height : Nat}
    (scanned : getOutputKeysForInputWithChecks chain
      { amount, keyOffsets := [.index index], kImage, etcDetails := [] } 0 =
        .ok outputKeys height) :
    ∃ out tce, chain.db.outputs.getSubitem amount index = some out ∧
      chain.db.transactions.get out.txId = some tce ∧ height = tce.keeperBlockHeight := by
  simp only [getOutputKeysForInputWithChecks, scanOutputkeysForIndexes, Procedure.bind_ok,
    Procedure.require_ok, Procedure.reading_ok, relativeOutputOffsetsToAbsolute, accumulateOffsets,
    Outcome.bind_ok, Outcome.pure_ok] at scanned
  obtain ⟨_, _, ⟨_, rfl⟩, _, _, ⟨⟨_, rfl, rfl⟩, rfl⟩, scanned⟩ := scanned
  simp only [scanOutputkeys, scanOutputkey, Procedure.bind_ok, Procedure.reading_ok,
    Procedure.demand_ok, Db.resolveOutput, Outcome.bind_ok, Outcome.demand_ok, Outcome.pure_ok,
    Procedure.pure_ok] at scanned
  obtain ⟨_, _, ⟨_, _, ⟨⟨out, resolved, rfl⟩, rfl⟩, tce, _, ⟨connected, rfl⟩, txOut, _,
    ⟨_, rfl⟩, checked⟩, _, _, ⟨_, rfl⟩, _, rfl⟩ := scanned
  refine ⟨out, tce, resolved, connected, ?_⟩
  cases target : txOut.target with
  | multisig _ =>
    rw [target] at checked
    exact absurd checked (by simp only [Procedure.throw_ok, not_false_eq_true])
  | toKey outtk =>
    rw [target] at checked
    simp only [Procedure.bind_ok, Procedure.require_ok, Procedure.modify_ok,
      Procedure.pure_ok] at checked
    obtain ⟨_, _, ⟨_, rfl⟩, _, _, ⟨_, rfl⟩, _, _, rfl, _, rfl⟩ := checked
    exact Nat.zero_max _

/-- A wallet in step with the chain offers outputs that are old enough for the node. -/
theorem aged_of_inStep {wallet : Wallet} {chain : Chain} {coreTime : Nat}
    (inStep : wallet.InStep chain) (member : entry ∈ wallet.getPosEntries E coreTime)
    {kImage : KeyImage} {outputKeys : List PublicKey} {height : Nat}
    (scanned : getOutputKeysForInputWithChecks chain
      { amount := entry.amount, keyOffsets := [.index entry.index], kImage, etcDetails := [] } 0 =
        .ok outputKeys height) :
    E.minCoinstakeAge ≤ chain.db.blocks.length - height - 1 := by
  obtain ⟨td, owned, n, rfl, okay⟩ := mem_getPosEntries member
  obtain ⟨out, tce, resolved, connected, rfl⟩ := scannedHeight scanned
  have height := inStep.kept td owned out tce resolved connected
  have below := inStep.recorded td owned
  have size := inStep.size
  simp only [isTransferOkayForPos, Bool.and_eq_true, Bool.not_eq_true', Bool.and_eq_false_iff,
    decide_eq_false_iff_not] at okay
  omega

/-- What an attempt reports and sends: the timestamp of its kernel is in the window, and the node
finds the block good if it is not built too late after it. -/
theorem tryMintPos_checks (roomy : RoomyStart attempt.world.timstampStart)
    (served : ServesDifficulty attempt.chain true)
    (inStep : attempt.wallet.InStep attempt.chain)
    (sameTip : attempt.chainAtBuilding.db = attempt.chain.db)
    (forward : attempt.world.timstampStart ≤ attempt.builtAt)
    (found : scanLoops E attempt.world (attempt.context E) = .ok (.found i ts) after)
    (minted : tryMintPos S E keys attempt = some b)
    (difficulty : Procedure.answer (getNextDiffConditional true attempt.chainAtBuilding) =
      .ok basicDiff) :
    InScanWindow attempt.world.timstampStart ts ∧ b.timestamp = ts ∧
      (PosChecks E attempt.chainAtBuilding b basicDiff ↔
        attempt.builtAt ≤ ts + posMacActualTimestampToMined) := by
  have allowed : (attempt.context E).rsp.isPosAllowed = true := by
    cases allowed : (attempt.context E).rsp.isPosAllowed with
    | true => rfl
    | false =>
      simp only [tryMintPos, allowed, Bool.not_false, ↓reduceIte, reduceCtorEq] at minted
  obtain ⟨entries, cached, modifier⟩ := attempt.context_allowed allowed
  -- the kernel of the scan
  obtain ⟨n, entry, place, tried, member, ended, meets⟩ : ∃ n entry,
      (attempt.context E).posEntries[n]? = some entry ∧
      ∃ tried ∈ triedOn attempt.world (attempt.context E) Turn.all,
        ScanEnd.found i ts = .found (0 + n) tried ∧
          KernelMeets E (attempt.context E) entry tried := by
    rcases scanEntries_ok found with ⟨passed, _⟩ | interrupted | kernel
    · cases passed
    · cases interrupted
    · exact kernel
  rw [Nat.zero_add] at ended
  injection ended with sameIndex sameTs
  subst sameIndex sameTs
  obtain ⟨window, _⟩ := (mem_triedOn roomy).mp member
  -- the block that is built
  have scanned : scanPos E attempt.world (attempt.context E) =
      .ok (true, { attempt.context E with
        rsp := { (attempt.context E).rsp with
          index := i, blockTimestamp := ts, status := .ok } }) := by
    rw [scanPos, found]
    rfl
  unfold tryMintPos at minted
  simp only [allowed, scanned, Bool.not_true, Bool.false_eq_true, ↓reduceIte] at minted
  obtain ⟨pos, stamped, actual, spends⟩ := buildMintedBlock_ok minted place
    fun created => (createPosBlockTemplate_ok created).2
  replace stamped : b.timestamp = ts := stamped
  refine ⟨window, stamped, fun checks => ?_, fun timely => ?_⟩
  · have time := checks.actualTime
    rw [actualTimestampAllowed, actual, Bool.and_eq_true, decide_eq_true_eq, stamped] at time
    omega
  · have basic : basicDiff = (attempt.context E).basicDiff := by
      rw [answer_getNextDiffConditional, sameTip] at difficulty
      rw [ServesDifficulty, answer_getNextDiffConditional, cached, difficulty] at served
      exact (Except.ok.inj served).symm
    have early : ts ≤ attempt.builtAt + posMacActualTimestampToMined := by
      have high := window.high
      unfold firstScanned posScanStep posScanWindow at high
      unfold posMacActualTimestampToMined
      omega
    refine ⟨stamped ▸ window.multiple, ?_,
      ⟨_, (attempt.context E).sm, spends, ?_, meets.weight, ?_⟩, _, spends, ?_⟩
    · rw [actualTimestampAllowed, actual, Bool.and_eq_true, decide_eq_true_eq, decide_eq_true_eq,
        stamped]
      omega
    · rw [buildStakeModifier_of_db sameTip]
      exact modifier
    · rw [stamped, basic]
      exact meets.meets
    · intro outputKeys height scannedInput
      have inStepNow : attempt.wallet.InStep attempt.chainAtBuilding :=
        ⟨sameTip ▸ inStep.size, inStep.recorded, sameTip ▸ inStep.kept⟩
      exact aged_of_inStep inStepNow (entries ▸ List.mem_of_getElem? place) scannedInput

/-- A scan that comes to its end without a kernel has tried each timestamp of the window once for
each entry. -/
theorem scanLoops_passed {world : ScanWorld} {cxt : MiningContext}
    (roomy : RoomyStart world.timstampStart) (passed : scanLoops E world cxt = .ok .passed after)
    (inside : i < cxt.posEntries.length) (window : InScanWindow world.timstampStart ts)
    (late : cxt.rsp.starterTimestamp ≤ ts) : after.tried.count (i, ts) = 1 := by
  have all : after.tried = (List.range' 0 cxt.posEntries.length).flatMap fun n =>
      (triedOn world cxt Turn.all).map fun ts => (n, ts) := by
    rcases scanEntries_ok passed with ⟨_, all⟩ | interrupted | ⟨_, _, _, _, _, found, _⟩
    · exact all
    · cases interrupted
    · cases found
  have nodup : after.tried.Nodup := by
    rw [all, List.nodup_flatMap]
    refine ⟨fun n _ => (nodup_triedOn roomy).map fun _ _ same => (Prod.mk.inj same).2, ?_⟩
    refine (List.nodup_range').imp fun apart pair first second => ?_
    obtain ⟨_, _, rfl⟩ := List.mem_map.mp first
    obtain ⟨_, _, same⟩ := List.mem_map.mp second
    exact apart (Prod.mk.inj same).1.symm
  refine List.count_eq_one_of_mem nodup ?_
  rw [all, List.mem_flatMap]
  exact ⟨i, List.mem_range'_1.mpr ⟨Nat.zero_le _, by omega⟩,
    List.mem_map.mpr ⟨ts, (mem_triedOn roomy).mpr ⟨window, late⟩, rfl⟩⟩

/-- **Minted blocks.** For a wallet in step with the chain, the block of a reported kernel passes
the checks of the node exactly if it is built at most the allowed distance after its timestamp; a
hundred seconds from the start of the scan on are always enough. A scan that comes to its end
without a kernel has tried each multiple of the step in its window, from the starter timestamp on,
exactly once for each entry. -/
theorem mintedBlocks_valid (roomy : RoomyStart attempt.world.timstampStart)
    (served : ServesDifficulty attempt.chain true)
    (inStep : attempt.wallet.InStep attempt.chain)
    (sameTip : attempt.chainAtBuilding.db = attempt.chain.db)
    (forward : attempt.world.timstampStart ≤ attempt.builtAt) :
    (∀ i ts after b basicDiff,
      scanLoops E attempt.world (attempt.context E) = .ok (.found i ts) after →
      tryMintPos S E keys attempt = some b →
      Procedure.answer (getNextDiffConditional true attempt.chainAtBuilding) = .ok basicDiff →
        b.timestamp = ts ∧
        (PosChecks E attempt.chainAtBuilding b basicDiff ↔
          attempt.builtAt ≤ ts + posMacActualTimestampToMined) ∧
        (attempt.builtAt ≤
            attempt.world.timstampStart + (posMacActualTimestampToMined - posScanWindow) →
          PosChecks E attempt.chainAtBuilding b basicDiff)) ∧
    (∀ after, scanLoops E attempt.world (attempt.context E) = .ok .passed after →
      ∀ i < (attempt.context E).posEntries.length, ∀ ts,
        InScanWindow attempt.world.timstampStart ts →
        (attempt.context E).rsp.starterTimestamp ≤ ts → after.tried.count (i, ts) = 1) := by
  constructor
  · intro i ts after b basicDiff found minted difficulty
    obtain ⟨window, stamped, checks⟩ :=
      tryMintPos_checks roomy served inStep sameTip forward found minted difficulty
    refine ⟨stamped, checks, fun quick => checks.mpr ?_⟩
    have low := window.low
    unfold firstScanned posScanStep posScanWindow at low
    unfold posMacActualTimestampToMined posScanWindow at quick
    unfold posMacActualTimestampToMined
    omega
  · intro after passed i inside ts window late
    exact scanLoops_passed roomy passed inside window late

end Minted

namespace SlowScan

/-- The coinbase whose output the wallet mines with. -/
def source : Transaction where
  version := 50
  vin := [.gen 1]
  vout := [⟨5, .toKey ⟨⟨9⟩, 0⟩⟩]
  extra := []
  signatures := []
  attachment := []

def blockIds : List Hash := (List.range 12).map fun height => ⟨100 + height⟩

/-- Twelve blocks of proof of work. -/
def chain : Chain where
  db :=
    { blocks := (List.range 12).map fun height =>
        bareBlockInfo (.plain (100 + height) height 5 ⟨99 + height⟩ [])
      transactions := Container.set ∅ ⟨50⟩ ⟨source, 1, [0], [false]⟩
      outputs := ArrayContainer.pushBackItem ∅ 5 ⟨⟨50⟩, 0⟩ }

/-- The wallet knows all blocks and owns the output of the second one. -/
def wallet : Wallet := { Wallet.new with
  blockchain := blockIds
  transfers := [
    { ptxWalletInfo := ⟨1, 0, source⟩
      internalOutputIndex := 0
      spentHeight := 0
      flags := {}
      globalOutputIndex := 0
      keyImage := ⟨3⟩ }] }

/-- A scan whose first refresh takes a time. -/
def world (refresh : Nat) : ScanWorld where
  timstampStart := 1600000000
  timstampLastIdleCall := 1600000000
  coreTime _ := 1600000002
  idleConditionCb _ := true
  coreTimeAfterIdle _ := 1600000002 + refresh
  stop _ := false

def keys : AccountKeys := ⟨⟨⟨5⟩, ⟨6⟩⟩, ⟨7⟩, ⟨8⟩⟩

def attempt (refresh : Nat) : MintAttempt where
  connected := true
  chain
  wallet
  coreTime := 1600000000
  world := world refresh
  chainAtBuilding := chain
  walletAtBuilding := wallet
  builtAt := 1600000002 + refresh
  outAmounts _ := [1]
  fillBlockTemplate := some ([], 0, 0)
  minerAddress := ⟨⟨5⟩, ⟨6⟩⟩
  minerTextInfo := ""
  txkey := ⟨⟨1⟩, ⟨1⟩⟩

theorem roomy : RoomyStart 1600000000 := ⟨by decide, by decide⟩

theorem served : ServesDifficulty chain true := by
  apply servesDifficulty_of_coherent
  intro pos
  cases pos with
  | true => exact .inl rfl
  | false => exact .inl rfl

theorem inStep : wallet.InStep chain where
  size := by decide
  recorded := by decide
  kept := by
    intro td member out tce resolved connected
    obtain rfl := List.mem_singleton.mp member
    have output : chain.db.outputs.getSubitem 5 0 = some ⟨⟨50⟩, 0⟩ := rfl
    obtain rfl := Option.some.inj (output.symm.trans resolved)
    have entry : chain.db.transactions.get ⟨50⟩ = some ⟨source, 1, [0], [false]⟩ := rfl
    obtain rfl := Option.some.inj (entry.symm.trans connected)
    rfl

theorem reports_of_answer (refresh ts : Nat) (answered : (Procedure.answer (scanLoops .plain
      (attempt refresh).world ((attempt refresh).context .plain))).toOption =
        some (.found 0 ts)) :
    ∃ after, scanLoops .plain (attempt refresh).world ((attempt refresh).context .plain) =
      .ok (.found 0 ts) after := by
  cases ran : scanLoops .plain (attempt refresh).world ((attempt refresh).context .plain) with
  | ok ended after =>
    rw [ran] at answered
    exact ⟨after, by rw [Option.some.inj answered]⟩
  | error reason after =>
    rw [ran] at answered
    cases answered

theorem difficulty : Procedure.answer (getNextDiffConditional true chain) = .ok 1 := by
  rw [answer_getNextDiffConditional]
  rfl

end SlowScan

open SlowScan

/-- A quick scan: the block is minted and passes the checks. -/
theorem mintedBlocks_valid_quick :
    ∃ b, tryMintPos plainSending .plain keys (attempt 3) = some b ∧ PosChecks .plain chain b 1 := by
  obtain ⟨after, reported⟩ :=
    reports_of_answer 3 1600000005 (by decide +kernel)
  obtain ⟨b, minted⟩ : ∃ b, tryMintPos plainSending .plain keys (attempt 3) = some b :=
    Option.isSome_iff_exists.mp (by decide +kernel)
  have valid := (mintedBlocks_valid (S := plainSending) roomy served
    inStep rfl (by decide)).1 0 1600000005 after b 1 reported minted difficulty
  exact ⟨b, minted, valid.2.2 (by decide)⟩

/-- A refresh of twelve minutes in the middle of a scan, and the node refuses the block. -/
theorem mintedBlocks_late :
    ¬ ∀ (attempt : MintAttempt) (i ts : Nat) (after : Scan) (b : Block) (basicDiff : Nat),
      RoomyStart attempt.world.timstampStart → ServesDifficulty attempt.chain true →
      attempt.wallet.InStep attempt.chain → attempt.chainAtBuilding.db = attempt.chain.db →
      attempt.world.timstampStart ≤ attempt.builtAt →
      scanLoops .plain attempt.world (attempt.context .plain) = .ok (.found i ts) after →
      tryMintPos plainSending .plain keys attempt = some b →
      Procedure.answer (getNextDiffConditional true attempt.chainAtBuilding) = .ok basicDiff →
        PosChecks .plain attempt.chainAtBuilding b basicDiff := by
  intro always
  obtain ⟨after, reported⟩ :=
    reports_of_answer 720 1600000005 (by decide +kernel)
  obtain ⟨b, minted, late⟩ : ∃ b, tryMintPos plainSending .plain keys (attempt 720) = some b ∧
      actualTimestampAllowed b = false := by
    have refused : (tryMintPos plainSending .plain keys (attempt 720)).map actualTimestampAllowed =
        some false := by
      decide +kernel
    exact Option.map_eq_some_iff.mp refused
  have checks := always (attempt 720) 0 1600000005 after b 1 roomy served inStep rfl
    (by decide) reported minted difficulty
  exact absurd checks.actualTime (by rw [late]; exact Bool.false_ne_true)

end Wallet
end Virie
