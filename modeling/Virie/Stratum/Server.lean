import Virie.AddressSpelling
import Virie.Construction
import Virie.Difficulty
import Virie.Foundation.Runs

/-! # The stratum server

All workers mine on one block template that the server asks the core for: on a timer, when
the chain changes, when a worker logs in or asks for work, and after a found block. A share
names the header hash it was mined for; one that meets the difficulty of the network makes
the template a block, which is handed to the core. Every handler runs under one lock, so the
server processes its events one at a time. -/

open Foundation

namespace Virie
namespace Stratum

def nullPubAddr : AccountPublicAddress := ⟨nullPkey, nullPkey⟩

/-- The one user name that is no address: `miner`. -/
def workerAllowedUsername : List UInt8 := [109, 105, 110, 101, 114]

/-- What the core answers to a submitted block. -/
structure BlockVerificationContext where
  returned : Bool
  addedToMainChain : Bool
  verificationFailed : Bool
  markedAsOrphaned : Bool
  alreadyExists : Bool
  addedToAltchain : Bool
deriving DecidableEq, Inhabited

/-- The core in some state of its own: its tip, what it puts into templates, and what it does
with a block. -/
structure Core (σ : Type) where
  topBlockId : σ → Hash
  blocksCount : σ → Nat
  coreTime : σ → Nat
  /-- The difficulty of the next proof-of-work block. -/
  nextDifficulty : σ → Nat
  medianSize : σ → Nat
  /-- The chosen transactions of the pool, their size and their fees. -/
  fillBlockTemplate : σ → Option (List Hash × Nat × Nat)
  /-- The amounts of the outputs a reward is split into. -/
  outAmounts : Nat → List Nat
  isSynchronized : σ → Bool
  handleIncomingBlock : Block → σ → BlockVerificationContext × σ

/-! ## Block templates -/

structure BlockTemplate where
  b : Block
  difficulty : Nat
  height : Nat
deriving DecidableEq, Inhabited

section Template

variable {σ : Type} (S : Sending) (E : Env) (C : Core σ)

/-- The coinbase of a template. All outputs go to the miner. -/
def constructMinerTx (height medianSize currentBlockSize fee : Nat)
    (minerAddress : AccountPublicAddress) (txkey : Keypair) : Option Transaction := do
  let blockReward ← getBlockReward false medianSize currentBlockSize height
  let destinations := (C.outAmounts (addU64 blockReward fee)).map fun amount =>
    ({ amount, addr := [minerAddress], minimumSigs := 0 } : TxDestinationEntry)
  guard (destinations.length ≤ currencyTxMaxAllowedOuts ∨ height = 0)
  let (tx, _) ← destinations.foldlM
    (fun (tx, derivCache) de => constructTxOut S txkey.sec 0 tx derivCache de)
    (({ version := currentTransactionVersion
        vin := [.gen height]
        vout := []
        extra := [.publicKey txkey.pub, .extraPadding []]
        signatures := []
        attachment := [] } : Transaction), [])
  pure { tx with
    extra := updateOrAddField isUnlockTime
      (.etcTxDetailsUnlockTime (height + currencyMinedMoneyUnlockWindow)) tx.extra }

/-- A template on the tip of the core. What was filled in stays also when the call fails. -/
def createBlockTemplate (core : σ) (minerAddress : AccountPublicAddress) (txkey : Keypair) :
    Bool × BlockTemplate :=
  let b : Block :=
    { majorVersion := currentBlockMajorVersion
      minorVersion := currentBlockMinorVersion
      timestamp := C.coreTime core
      prevId := C.topBlockId core
      nonce := 0
      flags := 0
      minerTx := { version := 0, vin := [], vout := [], extra := [], signatures := [],
                   attachment := [] }
      txHashes := [] }
  let difficulty := C.nextDifficulty core
  if difficulty = 0 then (false, ⟨b, 0, 0⟩)
  else
    let height := C.blocksCount core
    match C.fillBlockTemplate core with
    | none => (false, ⟨b, difficulty, height⟩)
    | some (txHashes, txsSize, fee) =>
      match constructMinerTx S C height (C.medianSize core) txsSize fee minerAddress txkey with
      | none => (false, ⟨{ b with txHashes }, difficulty, height⟩)
      | some minerTx =>
        (decide (getObjectBlobsize E minerTx.toTransactionPrefix <
            currencyCoinbaseBlobReservedSize - 100),
          ⟨{ b with txHashes, minerTx }, difficulty, height⟩)

/-- The blob that a block is hashed from: header, root of the transactions and their number. -/
structure HashingBlob where
  header : BlockHeader
  treeHash : Hash
  txCount : Nat
deriving DecidableEq

instance : Inhabited HashingBlob := ⟨⟨⟨0, 0, 0, nullHash, 0, 0⟩, nullHash, 0⟩⟩

def getBlockHashingBlob (b : Block) : HashingBlob :=
  ⟨b.toBlockHeader, getTxTreeHash E b, b.txHashes.length + 1⟩

/-- The blob with its nonce set to zero. -/
def HashingBlob.zeroNonce (blob : HashingBlob) : HashingBlob :=
  { blob with header := { blob.header with nonce := 0 } }

def HashingBlob.hash (blob : HashingBlob) : Hash :=
  E.blockBlobHash blob.header blob.treeHash blob.txCount

end Template

/-! ## State -/

/-- The job data of the server, the one address and the period of refreshes. -/
structure Config where
  blockTemplate : Block
  blockTemplateHashBlob : HashingBlob
  blockTemplateEthash : Hash
  blockchainLastBlockId : Hash
  blockTemplateHeight : Nat
  blockTemplateUpdateTs : Nat
  prevBlockTemplateEthash : Hash
  networkDifficulty : Nat
  minerAddr : AccountPublicAddress
  blockTemplateUpdatePeriodMs : Nat

/-- The server before its first template. -/
def Config.initial (minerAddr : AccountPublicAddress) (blockTemplateUpdatePeriodMs : Nat) :
    Config where
  blockTemplate := default
  blockTemplateHashBlob := default
  blockTemplateEthash := nullHash
  blockchainLastBlockId := nullHash
  blockTemplateHeight := 0
  blockTemplateUpdateTs := 0
  prevBlockTemplateEthash := nullHash
  networkDifficulty := 0
  minerAddr
  blockTemplateUpdatePeriodMs

/-- A found block as it was pushed to the core: the state of the core, what the share handler
computed, and the address chosen by then. -/
structure Find (σ : Type) where
  core : σ
  block : Block
  pow : Hash
  difficulty : Nat
  chosen : Option AccountPublicAddress

/-- The server with the core and the clock. The last four fields are no fields of the source:
they record the address first set, the last template, and templates and blocks so far. -/
structure Server (σ : Type) where
  core : σ
  now : Nat
  config : Config
  chosen : Option AccountPublicAddress
  current : Option BlockTemplate
  created : List (Option AccountPublicAddress × BlockTemplate)
  finds : List (Find σ)

section Handlers

variable {σ : Type} (S : Sending) (E : Env) (C : Core σ) (cnFastHash : List UInt8 → Hash)

/-- A template has to be refreshed: the tip is another one, or the period is over. -/
def updateDue (s : Server σ) : Bool :=
  C.topBlockId s.core != s.config.blockchainLastBlockId ||
    decide (s.config.blockTemplateUpdatePeriodMs ≤ s.now - s.config.blockTemplateUpdateTs)

/-- A template as it arrives. The one before is cleared even when the call fails. -/
def receiveTemplate (template : BlockTemplate) (s : Server σ) : Server σ :=
  { s with config := { s.config with
      blockTemplate := template.b
      blockTemplateHeight := template.height } }

/-- The other job data of a template. -/
def adoptTemplate (template : BlockTemplate) (s : Server σ) : Server σ :=
  let blob := (getBlockHashingBlob E template.b).zeroNonce
  { s with
    config := { s.config with
      networkDifficulty := template.difficulty
      blockchainLastBlockId := C.topBlockId s.core
      blockTemplateHashBlob := blob
      prevBlockTemplateEthash := s.config.blockTemplateEthash
      blockTemplateEthash := blob.hash E
      blockTemplateUpdateTs := s.now }
    current := some template
    created := s.created ++ [(s.chosen, template)] }

/-- Refresh the template when that is due. Every caller leaves `enforceUpdate` off. -/
def updateBlockTemplate (enforceUpdate : Bool) (txkey : Keypair) (s : Server σ) :
    Bool × Server σ :=
  if !enforceUpdate && !updateDue C s then (false, s)
  else
    match createBlockTemplate S E C s.core s.config.minerAddr txkey with
    | (false, template) => (false, receiveTemplate template s)
    | (true, template) => (true, adoptTemplate E C template (receiveTemplate template s))

/-- Give a worker its work, after a refresh if the core is synchronized. -/
def updateWork (txkey : Keypair) (s : Server σ) : Server σ :=
  if C.isSynchronized s.core then (updateBlockTemplate S E C false txkey s).2 else s

/-- Hand the template with a nonce to the core. -/
def pushFound (nonce : Nat) (pow : Hash) (s : Server σ) : BlockVerificationContext × Server σ :=
  let found := { s.config.blockTemplate with nonce }
  let (bvc, core) := C.handleIncomingBlock found s.core
  (bvc, { s with
    core
    config := { s.config with blockTemplate := found }
    finds := s.finds ++ [⟨s.core, found, pow, s.config.networkDifficulty, s.chosen⟩] })

/-- The proof of work of a share. -/
def sharePow (nonce : Nat) (s : Server σ) : Hash :=
  E.ethash (getBlockHeight s.config.blockTemplate) s.config.blockTemplateEthash nonce

/-- A share names the current work and meets both difficulties. -/
def findsBlock (workerDifficulty nonce : Nat) (blockEthash : Hash) (s : Server σ) : Bool :=
  C.isSynchronized s.core && blockEthash == s.config.blockTemplateEthash &&
    checkHash (sharePow E nonce s) workerDifficulty &&
    checkHash (sharePow E nonce s) s.config.networkDifficulty

/-- The core took the block as the new tip. -/
def BlockVerificationContext.added (bvc : BlockVerificationContext) : Bool :=
  bvc.returned && !bvc.verificationFailed && !bvc.addedToAltchain && bvc.addedToMainChain &&
    !bvc.alreadyExists && !bvc.markedAsOrphaned

/-- A submitted share. Shares that find no block change nothing but statistics. -/
def handleWork (workerDifficulty nonce : Nat) (blockEthash : Hash) (txkey : Keypair)
    (s : Server σ) : Server σ :=
  if findsBlock E C workerDifficulty nonce blockEthash s then
    let (bvc, s) := pushFound C nonce (sharePow E nonce s) s
    if bvc.added then (updateBlockTemplate S E C false txkey s).2 else s
  else s

/-- Read an address into a null one. Keys that are refused stay in it. -/
def getAccountAddressFromStr (addrStr : List UInt8) : Bool × AccountPublicAddress :=
  match Base58.decodeAddr cnFastHash addrStr with
  | none => (false, nullPubAddr)
  | some (tag, blob) =>
    if blob.length < addrBlobSize ∨ blob.length > addrBlobSize + bcPaymentIdServiceSizeMax then
      (false, nullPubAddr)
    else if tag ≠ currencyPublicAddressBase58Prefix ∧
        tag ≠ currencyPublicIntegAddressBase58Prefix then (false, nullPubAddr)
    else
      match Wire.accountPublicAddress.fromBlob false
        (if tag = currencyPublicAddressBase58Prefix then blob else blob.take addrBlobSize) with
      | none => (false, nullPubAddr)
      | some addr => (E.checkKey addr.spendPublicKey && E.checkKey addr.viewPublicKey, addr)

/-- The answer to a login, and the state after it. The address of the user name is set before
the answer is known to be an error. -/
def answerLogin (userStr : List UInt8) (s : Server σ) : Bool × Server σ :=
  if userStr = workerAllowedUsername then (decide (s.config.minerAddr ≠ nullPubAddr), s)
  else
    let (r, address) := getAccountAddressFromStr E cnFastHash userStr
    let error := !r || decide (s.config.minerAddr ≠ nullPubAddr ∧ address ≠ s.config.minerAddr)
    (!error, { s with
      config := { s.config with minerAddr := address }
      chosen := if error then s.chosen else s.chosen.or (some address) })

/-- A login. A successful one is followed by work. -/
def handleLogin (userStr : List UInt8) (txkey : Keypair) (s : Server σ) : Bool × Server σ :=
  match answerLogin E cnFastHash userStr s with
  | (false, s) => (false, s)
  | (true, s) => (true, updateWork S E C txkey s)

end Handlers

/-! ## Runs -/

/-- What happens to the server. The core changes by itself as well; the difficulty of a worker
is whatever it was set to. -/
inductive Event (σ : Type) where
  | coreChange (core : σ)
  | tick (now : Nat)
  | periodicUpdate (txkey : Keypair)
  | blockchainUpdate (txkey : Keypair)
  | login (userStr : List UInt8) (txkey : Keypair)
  | getWork (txkey : Keypair)
  | submitWork (workerDifficulty nonce : Nat) (blockEthash : Hash) (txkey : Keypair)

section Runs

variable {σ : Type} (S : Sending) (E : Env) (C : Core σ) (cnFastHash : List UInt8 → Hash)

def step (event : Event σ) (s : Server σ) : Server σ :=
  match event with
  | .coreChange core => { s with core }
  | .tick now => { s with now }
  | .periodicUpdate txkey =>
    if C.isSynchronized s.core && decide (s.config.blockTemplateUpdatePeriodMs ≤
        s.now - s.config.blockTemplateUpdateTs) then (updateBlockTemplate S E C false txkey s).2
    else s
  | .blockchainUpdate txkey => updateWork S E C txkey s
  | .login userStr txkey => (handleLogin S E C cnFastHash userStr txkey s).2
  | .getWork txkey => updateWork S E C txkey s
  | .submitWork workerDifficulty nonce blockEthash txkey =>
    handleWork S E C workerDifficulty nonce blockEthash txkey s

/-- The server starts with the address of the command line, if there is one. -/
def initial (core : σ) (now : Nat) (minerAddr : AccountPublicAddress)
    (blockTemplateUpdatePeriodMs : Nat) : Server σ where
  core
  now
  config := .initial minerAddr blockTemplateUpdatePeriodMs
  chosen := if minerAddr = nullPubAddr then none else some minerAddr
  current := none
  created := []
  finds := []

def system : System (Event σ) (Server σ) where
  start s := ∃ core now minerAddr period, s = initial core now minerAddr period
  step := step S E C cnFastHash

/-- A refresh that is due gets its template. -/
def UpdateSucceeds (txkey : Keypair) (s : Server σ) : Prop :=
  updateDue C s = true → (createBlockTemplate S E C s.core s.config.minerAddr txkey).1 = true

/-- Every template the event asks for is created, and a share that finds a block finds it on a
template. -/
def TemplatesReady (event : Event σ) (s : Server σ) : Prop :=
  match event with
  | .coreChange _ => True
  | .tick _ => True
  | .periodicUpdate txkey => UpdateSucceeds S E C txkey s
  | .blockchainUpdate txkey => UpdateSucceeds S E C txkey s
  | .login userStr txkey => UpdateSucceeds S E C txkey (answerLogin E cnFastHash userStr s).2
  | .getWork txkey => UpdateSucceeds S E C txkey s
  | .submitWork workerDifficulty nonce blockEthash txkey =>
    findsBlock E C workerDifficulty nonce blockEthash s = true →
      s.current ≠ none ∧ UpdateSucceeds S E C txkey (pushFound C nonce (sharePow E nonce s) s).2

end Runs

/-- A small core for concrete runs: its state is the height, and height 13 has no template. -/
def Core.plain : Core Nat where
  topBlockId height := ⟨height⟩
  blocksCount height := height
  coreTime _ := 0
  nextDifficulty _ := 1
  medianSize _ := 0
  fillBlockTemplate height := if height = 13 then none else some ([], 0, 0)
  outAmounts _ := [1]
  isSynchronized _ := true
  handleIncomingBlock _ height := (⟨true, true, false, false, false, false⟩, height + 1)

/-! ## Refreshes -/

section Refreshes

variable {σ : Type} {S : Sending} {E : Env} {C : Core σ} {cnFastHash : List UInt8 → Hash}
  {s : Server σ} {txkey : Keypair}

/-- What a created template consists of. -/
theorem createBlockTemplate_ok {core : σ} {minerAddress : AccountPublicAddress}
    {template : BlockTemplate}
    (created : createBlockTemplate S E C core minerAddress txkey = (true, template)) :
    template.difficulty = C.nextDifficulty core ∧ template.height = C.blocksCount core ∧
      ∃ medianSize size fee, constructMinerTx S C template.height medianSize size fee
        minerAddress txkey = some template.b.minerTx := by
  unfold createBlockTemplate at created
  dsimp only at created
  split at created
  · cases created
  · cases filled : C.fillBlockTemplate core with
    | none =>
      rw [filled] at created
      cases created
    | some content =>
      obtain ⟨txHashes, txsSize, fee⟩ := content
      rw [filled] at created
      dsimp only at created
      cases coinbase : constructMinerTx S C (C.blocksCount core) (C.medianSize core) txsSize fee
          minerAddress txkey with
      | none =>
        rw [coinbase] at created
        cases created
      | some minerTx =>
        rw [coinbase] at created
        obtain ⟨_, rfl⟩ := Prod.mk.inj created
        exact ⟨rfl, rfl, _, _, _, coinbase⟩

/-- A refresh leaves everything, or adopts a template that was created for the address set. -/
theorem updateBlockTemplate_cases (succeeds : UpdateSucceeds S E C txkey s) :
    (updateBlockTemplate S E C false txkey s).2 = s ∧ updateDue C s = false ∨
      ∃ template, createBlockTemplate S E C s.core s.config.minerAddr txkey = (true, template) ∧
        (updateBlockTemplate S E C false txkey s).2 =
          adoptTemplate E C template (receiveTemplate template s) := by
  unfold updateBlockTemplate
  cases due : updateDue C s with
  | false => exact .inl ⟨rfl, rfl⟩
  | true =>
    right
    have ready := succeeds due
    cases made : createBlockTemplate S E C s.core s.config.minerAddr txkey with
    | mk r template =>
      rw [made] at ready
      cases ready
      exact ⟨template, rfl, rfl⟩

/-- A property of the server that adopting a created template keeps is kept by every refresh. -/
theorem updateWork_keeps {I : Server σ → Prop} (succeeds : UpdateSucceeds S E C txkey s)
    (adopts : ∀ template,
      createBlockTemplate S E C s.core s.config.minerAddr txkey = (true, template) →
      I (adoptTemplate E C template (receiveTemplate template s)))
    (holds : I s) :
    I (updateBlockTemplate S E C false txkey s).2 ∧ I (updateWork S E C txkey s) := by
  have refreshed : I (updateBlockTemplate S E C false txkey s).2 := by
    rcases updateBlockTemplate_cases succeeds with ⟨same, _⟩ | ⟨template, created, adopted⟩
    · rw [same]
      exact holds
    · rw [adopted]
      exact adopts template created
  refine ⟨refreshed, ?_⟩
  unfold updateWork
  split
  · exact refreshed
  · exact holds

end Refreshes

/-- A server whose miner address is known from the command line. -/
def startedServer : Server Nat := initial 12 0 ⟨⟨5⟩, ⟨6⟩⟩ 30000

/-- The server with its first template. -/
def servingServer : Server Nat :=
  step plainSending .plain .plain (fun _ => nullHash) (.blockchainUpdate ⟨⟨1⟩, ⟨1⟩⟩) startedServer

theorem startedServer_start :
    (system plainSending .plain .plain fun _ => nullHash).start startedServer :=
  ⟨12, 0, ⟨⟨5⟩, ⟨6⟩⟩, 30000, rfl⟩

end Stratum
end Virie
