import Virie.Foundation.Outward
import Virie.PayloadReading
import Virie.Storage.MainChain
import Virie.Wallet.Contracts

/-! # Minting

A wallet mines with the outputs it owns. It asks the node for the difficulty, the stake modifier
and the tip, walks the timestamps around its clock outward for every output that is old enough,
and stops at the first kernel that meets the difficulty. The block is a template of the node with
the timestamp of the kernel; its coinbase says when it was really built. -/

open Foundation

namespace Virie

def posScanWindow : Nat := 60 * 10
def walletPosMintCheckHeightInterval : Nat := 1
def walletDefaultTxSpendableAge : Nat := 10

/-- The states of an answer; `none` is the empty text of a fresh one. -/
inductive CoreRpcStatus where
  | none
  | ok
  | notFound
  | disconnected
  | failed
deriving DecidableEq, Inhabited

/-- An output that is offered to the scan. -/
structure PosEntry where
  amount : Nat
  index : Nat
  keyimage : KeyImage
  walletIndex : Nat
  blockTimestamp : Nat
deriving DecidableEq, Inhabited

/-- What a scan knows of the tip, and what it found. -/
structure ScanPosResponse where
  status : CoreRpcStatus
  index : Nat
  blockTimestamp : Nat
  starterTimestamp : Nat
  lastBlockHash : Hash
  isPosAllowed : Bool
deriving DecidableEq, Inhabited

structure MiningContext where
  posEntries : List PosEntry
  rsp : ScanPosResponse
  basicDiff : Nat
  sm : StakeModifier
deriving DecidableEq, Inhabited

structure PosMiningDetails where
  sm : StakeModifier
  starterTimestamp : Nat
  posBasicDifficulty : Nat
  status : CoreRpcStatus
  lastBlockHash : Hash
  posMiningAllowed : Bool
deriving DecidableEq, Inhabited

/-! ## The node's answers -/

section Node

variable (S : Sending) (E : Env) (chain : Chain)

def Chain.isPosAllowed : Bool := decide (chain.db.getTopBlockHeight ≥ E.posMinimumHeigh)

def getLastTimestampsCheckWindowMedian : ChainM Nat :=
  getLastNBlocksTimestampsMedian blockchainTimestampCheckWindow

/-- The difficulty, the stake modifier and the least timestamp of the next block. -/
def collectPosMiningDetails : Outcome PosMiningDetails := do
  let posBasicDifficulty ← Procedure.answer (getCachedNextDifficulty true chain)
  let sm ← chain.buildStakeModifier E [] 0
  let starterTimestamp ← Procedure.answer (getLastTimestampsCheckWindowMedian chain)
  pure
    { sm, starterTimestamp, posBasicDifficulty
      status := .ok
      lastBlockHash := chain.db.getTopBlockId E
      posMiningAllowed := true }

/-- What the node tells a miner about its tip. -/
def onGetPosMiningDetails (connected : Bool) : PosMiningDetails :=
  if !connected then { (default : PosMiningDetails) with status := .disconnected }
  else if !chain.isPosAllowed E then { (default : PosMiningDetails) with status := .notFound }
  else
    match collectPosMiningDetails E chain with
    | .ok details => details
    | .error _ =>
      { (default : PosMiningDetails) with posMiningAllowed := true, status := .failed }

/-- The coinbase of a template that spends an output. Its key image is not known to the node. -/
def constructPosMinerTx (outAmounts : Nat → List Nat) (height medianSize currentBlockSize fee : Nat)
    (minerAddress stakeholderAddress : AccountPublicAddress) (extraNonce : String)
    (amount index : Nat) (txkey : Keypair) : Option Transaction := do
  let blockReward ← getBlockReward true medianSize currentBlockSize height
  let rewards := (outAmounts (addU64 blockReward fee)).map fun amount =>
    ({ amount, addr := [minerAddress], minimumSigs := 0 } : TxDestinationEntry)
  let destinations := rewards ++ [{ amount, addr := [stakeholderAddress], minimumSigs := 0 }]
  guard (destinations.length ≤ currencyTxMaxAllowedOuts ∨ height = 0)
  let userData := if extraNonce = "" then [] else [PayloadItem.extraUserData extraNonce]
  let (tx, _) ← destinations.foldlM
    (fun (tx, derivCache) de => constructTxOut S txkey.sec 0 tx derivCache de)
    (({ version := currentTransactionVersion
        vin := [.gen height, .toKey
          { amount, keyOffsets := [.index index], kImage := nullKi, etcDetails := [] }]
        vout := []
        extra := [.publicKey txkey.pub] ++ userData ++ [.extraPadding []]
        signatures := [[nullSig]]
        attachment := [] } : Transaction), [])
  pure { tx with
    extra := updateOrAddField isUnlockTime
      (.etcTxDetailsUnlockTime (height + currencyMinedMoneyUnlockWindow)) tx.extra }

/-- A proof-of-stake template on the tip of a chain. Its time is left to the miner. -/
def createPosBlockTemplate (outAmounts : Nat → List Nat)
    (fillBlockTemplate : Option (List Hash × Nat × Nat))
    (minerAddress stakeholderAddress : AccountPublicAddress) (exNonce : String)
    (amount index : Nat) (txkey : Keypair) : Option Block := do
  let difficulty ← (Procedure.answer (getCachedNextDifficulty true chain)).toOption
  guard (difficulty ≠ 0)
  let (txHashes, txsSize, fee) ← fillBlockTemplate
  let minerTx ← constructPosMinerTx S outAmounts chain.db.blocks.length
    (chain.db.currentBlockCumulSzLimit / 2) txsSize fee minerAddress stakeholderAddress exNonce
    amount index txkey
  guard (getObjectBlobsize E minerTx.toTransactionPrefix < currencyCoinbaseBlobReservedSize - 100)
  pure
    { majorVersion := currentBlockMajorVersion
      minorVersion := currentBlockMinorVersion
      timestamp := 0
      prevId := chain.db.getTopBlockId E
      nonce := 0
      flags := currencyBlockFlagPosBlock
      minerTx
      txHashes }

end Node

namespace Wallet

/-! ## Outputs to mine with -/

section Entries

variable (E : Env) (wallet : Wallet) (coreTime : Nat)

def isTransferUnlocked (td : TransferDetails) : Bool :=
  !td.flags.blocked &&
    isTxSpendtimeUnlocked td.ptxWalletInfo.tx.getTxUnlockTime wallet.blockchain.length coreTime &&
    !decide (td.ptxWalletInfo.blockHeight + walletDefaultTxSpendableAge > wallet.blockchain.length)

/-- A height above the blockchain wraps to a large age. -/
def isTransferOkayForPos (tr : TransferDetails) : Bool :=
  tr.isSpendable && wallet.isTransferUnlocked coreTime tr &&
    !(decide (tr.ptxWalletInfo.blockHeight ≤ wallet.blockchain.length) &&
      decide (wallet.blockchain.length - tr.ptxWalletInfo.blockHeight ≤ E.minCoinstakeAge))

/-- The entry of the transfer with number `i`. -/
def posEntry (tr : TransferDetails) (i : Nat) : PosEntry where
  amount := tr.amount
  index := tr.globalOutputIndex
  keyimage := tr.keyImage
  walletIndex := i
  blockTimestamp := tr.ptxWalletInfo.blockTimestamp

def getPosEntries : List PosEntry :=
  wallet.transfers.zipIdx.filterMap fun (tr, i) =>
    if wallet.isTransferOkayForPos E coreTime tr then some (posEntry tr i) else none

def fillMiningContext (details : PosMiningDetails) : MiningContext :=
  let posEntries := wallet.getPosEntries E coreTime
  if details.status ≠ .ok then
    { (default : MiningContext) with
      posEntries, rsp := { (default : ScanPosResponse) with status := .notFound } }
  else
    { posEntries
      basicDiff := details.posBasicDifficulty
      sm := details.sm
      rsp :=
        { (default : ScanPosResponse) with
          lastBlockHash := details.lastBlockHash
          status := .ok
          isPosAllowed := details.posMiningAllowed
          starterTimestamp := details.starterTimestamp } }

end Entries

/-! ## The scan -/

/-- The first timestamp of a scan: the next multiple of the step after its start. -/
def adjustedStarterTimestamp (timstampStart : Nat) : Nat :=
  let adjusted := subU64 timstampStart posScanStep
  addU64 (subU64 (posScanStep * 2) (adjusted % posScanStep)) adjusted

/-- Where the loop over timestamps stands: its distance from the first, and on which side. -/
structure Turn where
  goPast : Bool
  step : Nat
deriving DecidableEq

namespace Turn

def nextTurn (turn : Turn) : Turn :=
  if turn.step = 0 then { turn with step := turn.step + posScanStep }
  else if turn.goPast then { turn with goPast := false }
  else { goPast := true, step := turn.step + posScanStep }

def timestamp (turn : Turn) (adjusted : Nat) : Nat :=
  if turn.goPast then subU64 adjusted turn.step else addU64 adjusted turn.step

/-- The turns of the loop from one on, up to a number of them. -/
def upTo : Nat → Turn → List Turn
  | 0, _ => []
  | limit + 1, turn => if turn.step ≤ posScanWindow then turn :: upTo limit turn.nextTurn else []

/-- The turns of the loop, which makes far fewer than the limit. -/
def all : List Turn := upTo (2 * posScanWindow + 2) ⟨true, 0⟩

end Turn

/-- What a scan meets outside: the clock when it starts, and for each turn the clock at its check,
the answer of the idle callback, the clock after it, and whether the miner is to stop. -/
structure ScanWorld where
  timstampStart : Nat
  timstampLastIdleCall : Nat
  coreTime : Nat → Nat
  idleConditionCb : Nat → Bool
  coreTimeAfterIdle : Nat → Nat
  stop : Nat → Bool

/-- The progress of a scan. The entries and timestamps it has `tried` are no part of the source:
they say which kernels were checked. -/
structure Scan where
  timstampLastIdleCall : Nat
  turns : Nat
  tried : List (Nat × Nat)

/-- How the loops of a scan end. The caller sees the same status in the last two cases. -/
inductive ScanEnd where
  | found (index blockTimestamp : Nat)
  | passed
  | interrupted
deriving DecidableEq

section Scan

variable (E : Env) (world : ScanWorld) (cxt : MiningContext)

/-- The check of the top block, at most once in an interval; whether the scan goes on. -/
def idleCheck : Procedure Scan Bool := do
  let scan ← get
  let n := scan.turns
  if subU64 (world.coreTime n) scan.timstampLastIdleCall > walletPosMintCheckHeightInterval then
    if world.idleConditionCb n then
      set { scan with turns := n + 1, timstampLastIdleCall := world.coreTimeAfterIdle n }
      pure true
    else pure false
  else
    set { scan with turns := n + 1 }
    pure true

/-- Check the kernel of an entry at a timestamp. An output without an amount has no weight, and
the division raises an exception. -/
def tryKernel (i : Nat) (entry : PosEntry) (ts : Nat) : Procedure Scan Bool := do
  let sk : StakeKernel := ⟨cxt.sm, ts, entry.keyimage⟩
  let coindaysWeight := entry.amount
  if coindaysWeight = 0 then throw .thrown
  modify fun scan => { scan with tried := scan.tried ++ [(i, ts)] }
  pure (checkHash (E.stakeKernelHash sk) (cxt.basicDiff / coindaysWeight))

/-- The turns of one entry. -/
def scanTurns (i : Nat) (entry : PosEntry) : List Turn → Procedure Scan ScanEnd
  | [] => pure .passed
  | turn :: rest => do
    let n ← Procedure.reading fun scan => pure scan.turns
    let goesOn ← idleCheck world
    if !goesOn then pure .interrupted
    else
      let ts := turn.timestamp (adjustedStarterTimestamp world.timstampStart)
      if ts < cxt.rsp.starterTimestamp then scanTurns i entry rest
      else if world.stop n then pure .interrupted
      else do
        let checkHashRes ← tryKernel E cxt i entry ts
        if checkHashRes then pure (.found i ts) else scanTurns i entry rest

/-- The entries from number `i` on. -/
def scanEntries : Nat → List PosEntry → Procedure Scan ScanEnd
  | _, [] => pure .passed
  | i, entry :: rest => do
    let ended ← scanTurns E world cxt i entry Turn.all
    if ended = .passed then scanEntries (i + 1) rest else pure ended

/-- The loops of a scan, from its first reading of the clock. -/
def scanLoops : EStateM.Result Stop Scan ScanEnd :=
  scanEntries E world cxt 0 cxt.posEntries ⟨world.timstampLastIdleCall, 0, []⟩

def scanPos : Outcome (Bool × MiningContext) :=
  match Procedure.answer (scanLoops E world cxt) with
  | .ok (.found i ts) =>
    pure (true, { cxt with
      rsp := { cxt.rsp with index := i, blockTimestamp := ts, status := .ok } })
  | .ok _ => pure (false, { cxt with rsp := { cxt.rsp with status := .notFound } })
  | .error reason => throw reason

end Scan

/-! ## The block -/

section Building

variable (S : Sending) (E : Env) (keys : AccountKeys)

/-- Name the key image of the spent output and sign the block with the key of the output. -/
def prepareAndSignPosBlock (b : Block) (posInfo : PosEntry) (sourceTxPubKey : PublicKey)
    (inTxOutputIndex : Nat) (outputKey : PublicKey) : Option Block := do
  guard (b.minerTx.isPosCoinbase = true)
  let txin ← coinstakeInput b
  let named : Block := { b with
    minerTx := { b.minerTx with
      vin := b.minerTx.vin.take 1 ++ [.toKey { txin with kImage := posInfo.keyimage }] } }
  guard (b.minerTx.signatures.map List.length = [txin.keyOffsets.length])
  let posCoinDerivation ← S.generateKeyDerivation sourceTxPubKey keys.viewSecretKey
  let derivedSecretEphemeralKey :=
    S.deriveSecretKey posCoinDerivation inTxOutputIndex keys.spendSecretKey
  let signature := S.generateRingSignature (getBlockHash E named) posInfo.keyimage [outputKey]
    derivedSecretEphemeralKey 0
  pure { named with minerTx := { named.minerTx with signatures := [signature] } }

def singleKey : TxoutTarget → Option PublicKey
  | .toKey target => some target.key
  | .multisig _ => none

/-- The block of a found kernel, built from a template at a time of the clock. -/
def buildMintedBlock (cxt : MiningContext) (template : PosEntry → Option Block) (wallet : Wallet)
    (coreTime : Nat) : Option Block := do
  let entry ← cxt.posEntries[cxt.rsp.index]?
  let b ← template entry
  guard (cxt.rsp.lastBlockHash = b.prevId)
  let tr ← wallet.transfers[entry.walletIndex]?
  let out ← tr.output?
  let outputKey ← singleKey out.target
  let timed : Block := { b with
    timestamp := cxt.rsp.blockTimestamp
    minerTx := { b.minerTx with extra := b.minerTx.extra ++ [.etcTxTime coreTime] } }
  prepareAndSignPosBlock S E keys timed entry tr.ptxWalletInfo.tx.getTxPubKeyFromExtra
    tr.internalOutputIndex outputKey

end Building

/-! ## A minting attempt -/

/-- What an attempt to mint starts from and meets: the node, the wallet and the clock when the
details are asked for, the world of the scan, and node, wallet and clock when the block is
built. -/
structure MintAttempt where
  connected : Bool
  chain : Chain
  wallet : Wallet
  coreTime : Nat
  world : ScanWorld
  chainAtBuilding : Chain
  walletAtBuilding : Wallet
  builtAt : Nat
  outAmounts : Nat → List Nat
  fillBlockTemplate : Option (List Hash × Nat × Nat)
  minerAddress : AccountPublicAddress
  minerTextInfo : String
  txkey : Keypair

def MintAttempt.context (attempt : MintAttempt) (E : Env) : MiningContext :=
  attempt.wallet.fillMiningContext E attempt.coreTime
    (onGetPosMiningDetails E attempt.chain attempt.connected)

/-- The block that an attempt sends to the node. -/
def tryMintPos (S : Sending) (E : Env) (keys : AccountKeys) (attempt : MintAttempt) :
    Option Block :=
  let cxt := attempt.context E
  if !cxt.rsp.isPosAllowed then none
  else
    match scanPos E attempt.world cxt with
    | .ok (_, cxt) =>
      if cxt.rsp.status = .ok then
        let template := fun entry : PosEntry =>
          createPosBlockTemplate S E attempt.chainAtBuilding attempt.outAmounts
            attempt.fillBlockTemplate attempt.minerAddress keys.accountAddress
            attempt.minerTextInfo entry.amount entry.index attempt.txkey
        buildMintedBlock S E keys cxt template attempt.walletAtBuilding attempt.builtAt
      else none
    | .error _ => none

end Wallet
end Virie
