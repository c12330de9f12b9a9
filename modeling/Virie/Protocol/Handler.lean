import Virie.Synchronization

/-! # The protocol handler

A node and its peers exchange notifications. Each is handled in one call, which may answer it,
request ids of blocks or blocks from the peer, ask for a callback or drop the connection. The
core and the rest of the server are a state of their own, which other connections change
between the calls. -/

open Foundation

namespace Virie.Protocol

/-! ## Addresses -/

structure NetAddress where
  ip : Nat
  port : Nat
deriving DecidableEq, Inhabited

instance : Key NetAddress :=
  Key.ofInjective (fun address => (address.ip, address.port)) fun a b same => by
    obtain ⟨_, _⟩ := a
    obtain ⟨_, _⟩ := b
    simpa using same

def p2pIpBlocktime : Nat := 60 * 60 * 24
def p2pIpFailsBeforBlock : Nat := 2
def p2pAllowedBlocklistMaxSize : Nat := 2

/-- What the server remembers of addresses. Only blocked ones are ever allowed in spite of that. -/
structure AddressBook where
  now : Nat
  offlineMode : Bool
  blockedIps : Container NetAddress Nat
  allowedBlockedIps : KeySet NetAddress
  ipFailsScore : Container NetAddress Nat
  allowedBlocked : ∀ address, allowedBlockedIps.contains address = true →
    blockedIps.has address = true

namespace AddressBook

def empty (now : Nat) : AddressBook :=
  ⟨now, false, ∅, ∅, ∅, fun address listed => by
    rw [KeySet.contains, Container.has, Container.get_empty] at listed
    exact listed⟩

def blockAddress (address : NetAddress) (book : AddressBook) : AddressBook :=
  { book with
    blockedIps := book.blockedIps.set address book.now
    allowedBlocked := fun other listed => by
      rw [Container.has, Container.get_set]
      split
      · rfl
      · exact book.allowedBlocked other listed }

def addressBlocked (book : AddressBook) (address : NetAddress) : Bool :=
  book.blockedIps.has address

def addressAllowedToOutgoing (book : AddressBook) (address : NetAddress) : Bool :=
  book.allowedBlockedIps.contains address

/-- Count a fail of an address. After too many of them the address is blocked. -/
def addAddressFail (address : NetAddress) (book : AddressBook) : AddressBook :=
  let fails := (book.ipFailsScore.get address).getD 0 + 1
  if fails > p2pIpFailsBeforBlock then
    blockAddress address { book with ipFailsScore := book.ipFailsScore.set address 0 }
  else { book with ipFailsScore := book.ipFailsScore.set address fails }

/-- Whether to connect to an address. A few blocked ones are allowed again, and one whose time is
over is forgotten. -/
def isAddressAllowed (address : NetAddress) (book : AddressBook) : Bool × AddressBook :=
  if book.offlineMode then (false, book)
  else match found : book.blockedIps.get address with
    | none => (true, book)
    | some since =>
      if book.now - since > p2pIpBlocktime then
        (true,
          { book with
            blockedIps := book.blockedIps.erase address
            allowedBlockedIps := Container.erase book.allowedBlockedIps address
            allowedBlocked := fun other listed => by
              rw [KeySet.contains_erase, Bool.and_eq_true, Bool.not_eq_true',
                decide_eq_false_iff_not] at listed
              rw [Container.has, Container.get_erase_of_ne _ listed.1]
              exact book.allowedBlocked other listed.2 })
      else if book.allowedBlockedIps.contains address then (true, book)
      else if book.allowedBlockedIps.size < p2pAllowedBlocklistMaxSize then
        (true,
          { book with
            allowedBlockedIps := book.allowedBlockedIps.insert address
            allowedBlocked := fun other listed => by
              rw [KeySet.contains_insert, Bool.or_eq_true, decide_eq_true_eq] at listed
              rcases listed with rfl | listed
              · rw [Container.has, found]
                rfl
              · exact book.allowedBlocked other listed })
      else (false, book)

def clearBlocklist (book : AddressBook) : AddressBook :=
  { AddressBook.empty book.now with
    offlineMode := book.offlineMode
    ipFailsScore := book.ipFailsScore }

end AddressBook

/-! ## Notifications -/

structure BlockCompleteEntry (Blob : Type) where
  block : Blob
  txs : List Blob

structure NotifyNewBlock (Blob : Type) where
  b : BlockCompleteEntry Blob
  currentBlockchainHeight : UInt64
  hop : Nat

structure RequestGetObjects where
  txs : List Hash
  blocks : List Hash

structure ResponseGetObjects (Blob : Type) where
  txs : List Blob
  blocks : List (BlockCompleteEntry Blob)
  missedIds : List Hash
  currentBlockchainHeight : UInt64

/-- What is sent to the peer of a connection. -/
inductive Notification (Blob : Type) where
  | requestChain (blockIds : List Hash)
  | responseChainEntry (entry : ResponseChainEntry)
  | requestGetObjects (arg : RequestGetObjects)
  | responseGetObjects (rsp : ResponseGetObjects Blob)

namespace Notification

variable {Blob : Type}

/-- The peer is asked for ids of blocks. -/
def asksChain : Notification Blob → Bool
  | .requestChain _ => true
  | _ => false

/-- The peer is asked for blocks. -/
def asksObjects : Notification Blob → Bool
  | .requestGetObjects _ => true
  | _ => false

end Notification

/-- What a peer tells of its chain in a handshake and from time to time. -/
structure CoreSyncData where
  currentHeight : UInt64
  topId : Hash
  lastCheckpointHeight : UInt64
  coreTime : UInt64
  clientVersion : String

/-! ## Connections -/

inductive ConnectionState where
  | beforHandshake
  | synchronizing
  | idle
  | normal
deriving DecidableEq, Inhabited

structure ConnectionContext where
  address : NetAddress
  isIncome : Bool
  state : ConnectionState
  remoteBlockchainHeight : UInt64
  lastResponseHeight : UInt64
  timeDelta : UInt64
  remoteVersion : String
  neededObjects : List BlockContextInfo
  requestedObjects : KeySet Hash
  callbackRequestCount : Int

/-- The flags a block submission returns, with the distance of a stored branch to the top. -/
structure BlockVerdict extends BlockVerificationContext where
  heightDifference : Nat

/-- What the handler asks of the core and of the clock, whose states are `σ`. -/
structure Core (σ Blob : Type) where
  haveBlock : σ → Hash → Bool
  currentBlockchainSize : σ → UInt64
  topCheckpointHeight : σ → UInt64
  coreTime : σ → UInt64
  stopSignal : σ → Bool
  shortChainHistory : σ → List Hash
  findBlockchainSupplement : σ → List Hash → Option ResponseChainEntry
  handleGetObjects : σ → RequestGetObjects → Bool × ResponseGetObjects Blob
  parseAndValidateBlockFromBlob : Blob → Option Block
  parseBlock : Blob → Option Block
  preValidateBlock : Block → Hash → σ → BlockVerificationContext × σ
  handleIncomingTx : Blob → Bool → σ → TxVerificationContext × σ
  handleIncomingBlock : Block → Bool → σ → BlockVerdict × σ
  onSynchronized : σ → σ
  addTimeDeltaAndCheckTimeSync : UInt64 → σ → Bool × σ
  stopFromTimeSync : σ → Bool × σ

/-- What the connections of a server share. -/
structure Shared (σ : Type) where
  core : σ
  book : AddressBook
  wantStop : Bool
  haveBeenSynchronized : Bool
  maxHeightSeen : UInt64
  coreInitalHeight : UInt64
  blocksIdQue : KeySet Hash

/-- A connection with what was sent to its peer and what it still waits for: requests that the
peer has not answered, and callbacks that are queued. -/
structure Session (σ Blob : Type) where
  context : ConnectionContext
  shared : Shared σ
  posted : List (Notification Blob)
  outstanding : List (Notification Blob)
  callbacks : Nat
  closed : Bool

namespace Session

variable {σ Blob : Type}

def dropConnection (s : Session σ Blob) : Session σ Blob := { s with closed := true }

/-- Send a notification. A request is outstanding until it is answered. -/
def postNotify (n : Notification Blob) (s : Session σ Blob) : Session σ Blob :=
  { s with
    posted := s.posted ++ [n]
    outstanding := if n.asksChain || n.asksObjects then s.outstanding ++ [n] else s.outstanding }

def requestCallback (s : Session σ Blob) : Session σ Blob :=
  { s with
    context := { s.context with callbackRequestCount := s.context.callbackRequestCount + 1 }
    callbacks := s.callbacks + 1 }

/-- An answer of a peer settles the first request of its kind. -/
def settle (kind : Notification Blob → Bool) (s : Session σ Blob) : Session σ Blob :=
  { s with outstanding := s.outstanding.eraseP kind }

def withState (state : ConnectionState) (s : Session σ Blob) : Session σ Blob :=
  { s with context := { s.context with state } }

def withCore (core : σ) (s : Session σ Blob) : Session σ Blob :=
  { s with shared := { s.shared with core } }

def addressBlocked (s : Session σ Blob) : Bool := s.shared.book.addressBlocked s.context.address

/-- Count a fail of the peer's address and drop the connection, unless the address is one of the
blocked ones that are allowed. -/
def failAddress (s : Session σ Blob) : Session σ Blob :=
  let book := s.shared.book.addAddressFail s.context.address
  let s := { s with shared := { s.shared with book } }
  if book.addressAllowedToOutgoing s.context.address then s else s.dropConnection

/-- Set a connection aside that delivers what another one has delivered before. -/
def setIdle (s : Session σ Blob) : Session σ Blob :=
  { s with
    context := { s.context with state := .idle, neededObjects := [], requestedObjects := ∅ } }

end Session

section Handlers

variable {σ Blob : Type} (E : Env) (C : Core σ Blob)

/-! ## Requests to the peer -/

def blocksSynchronizingDefaultCount : Nat := 200
def blocksSynchronizingDefaultSize : UInt64 := 2000000

def onConnectionSynchronized (s : Session σ Blob) : Session σ Blob :=
  if s.shared.haveBeenSynchronized then s
  else
    { s with
      shared :=
        { s.shared with haveBeenSynchronized := true, core := C.onSynchronized s.shared.core } }

def postRequestChain (s : Session σ Blob) : Session σ Blob :=
  s.postNotify (.requestChain (C.shortChainHistory s.shared.core))

/-- The ids to request next, and the needed objects behind them. The blocks that the node has are
passed over if asked for. -/
def takeNeeded (known : Hash → Bool) (checkHavingBlocks : Bool) :
    List BlockContextInfo → Nat → UInt64 → List Hash × List BlockContextInfo
  | [], _, _ => ([], [])
  | info :: rest, count, requestedCumulativeSize =>
    if count < blocksSynchronizingDefaultCount &&
        requestedCumulativeSize < blocksSynchronizingDefaultSize then
      if checkHavingBlocks && known info.h then
        takeNeeded known checkHavingBlocks rest count requestedCumulativeSize
      else
        let taken := takeNeeded known checkHavingBlocks rest (count + 1)
          (requestedCumulativeSize + UInt64.ofNat info.cumulSize)
        (info.h :: taken.1, taken.2)
    else ([], info :: rest)

/-- Request the next needed blocks or, when none is needed, more ids. With all ids of the peer the
connection is synchronized; then the height of the last id must fit the height of the peer. -/
def requestMissingObjects (checkHavingBlocks : Bool) (s : Session σ Blob) : Session σ Blob :=
  if s.context.neededObjects ≠ [] then
    let taken := takeNeeded (C.haveBlock s.shared.core) checkHavingBlocks
      s.context.neededObjects 0 0
    Session.postNotify (.requestGetObjects ⟨[], taken.1⟩)
      { s with
        context :=
          { s.context with
            neededObjects := taken.2
            requestedObjects := taken.1.foldl KeySet.insert s.context.requestedObjects } }
  else if s.context.lastResponseHeight < s.context.remoteBlockchainHeight - 1 then
    postRequestChain C s
  else if s.context.lastResponseHeight = s.context.remoteBlockchainHeight - 1 ∧
      s.context.requestedObjects.isEmpty then
    onConnectionSynchronized C (s.withState .normal)
  else s

/-! ## Callbacks and heights of peers -/

def onCallback (s : Session σ Blob) : Session σ Blob :=
  let prevRequestCount := s.context.callbackRequestCount
  let s :=
    { s with context := { s.context with callbackRequestCount := prevRequestCount - 1 } }
  if prevRequestCount > 0 then
    if s.context.state = .synchronizing then postRequestChain C s else s
  else s

/-- The peer's top block is unknown: start to synchronize, unless the peer knows of checkpoints
above the chain. -/
def startSynchronization (hshd : CoreSyncData) (s : Session σ Blob) : Bool × Session σ Blob :=
  let core := s.shared.core
  if hshd.lastCheckpointHeight ≠ 0 ∧ C.topCheckpointHeight core < hshd.lastCheckpointHeight ∧
      C.currentBlockchainSize core < hshd.lastCheckpointHeight then (false, s)
  else
    let s := s.withState .synchronizing
    let s := Session.requestCallback
      { s with context := { s.context with remoteBlockchainHeight := hshd.currentHeight } }
    (true,
      { s with
        shared :=
          { s.shared with
            maxHeightSeen := max s.shared.maxHeightSeen hshd.currentHeight
            coreInitalHeight :=
              if s.shared.coreInitalHeight = 0 then C.currentBlockchainSize core
              else s.shared.coreInitalHeight } })

/-- Compare the clocks for an outgoing connection. It is answered whether the daemon stops for
that. -/
def stopsForTime (s : Session σ Blob) : Bool × Session σ Blob :=
  if s.context.isIncome then (false, s)
  else
    let (inTime, core) := C.addTimeDeltaAndCheckTimeSync s.context.timeDelta s.shared.core
    if inTime then (false, s.withCore core)
    else
      let (stops, core) := C.stopFromTimeSync core
      (stops, s.withCore core)

def processPayloadSyncData (hshd : CoreSyncData) (isInital : Bool) (s : Session σ Blob) :
    Bool × Session σ Blob :=
  let s := { s with context := { s.context with remoteVersion := hshd.clientVersion } }
  if s.context.state = .beforHandshake ∧ !isInital then (true, s)
  else
    let timeDelta := C.coreTime s.shared.core - hshd.coreTime
    let (stops, s) := stopsForTime C { s with context := { s.context with timeDelta } }
    if stops then (true, s)
    else if s.context.state = .synchronizing then (true, s)
    else if s.shared.blocksIdQue.contains hshd.topId || C.haveBlock s.shared.core hshd.topId then
      let s := s.withState .normal
      (true, if isInital then onConnectionSynchronized C s else s)
    else startSynchronization C hshd s

/-- The first message of a peer, or its answer to the first message. -/
def handleHandshake (hshd : CoreSyncData) (s : Session σ Blob) : Session σ Blob :=
  let (processed, s) := processPayloadSyncData C hshd true s
  if processed then s else s.dropConnection

def handleTimedSync (hshd : CoreSyncData) (s : Session σ Blob) : Session σ Blob :=
  let (processed, s) := processPayloadSyncData C hshd false s
  if processed then s else s.dropConnection

/-- The answer to a timed sync. A refusal of its data is ignored. -/
def handleTimedSyncAnswer (hshd : CoreSyncData) (s : Session σ Blob) : Session σ Blob :=
  (processPayloadSyncData C hshd false s).2

/-! ## New blocks and transactions -/

/-- Process transactions in turn, up to the first that fails its verification. -/
def processTxs (keptByBlock : Bool) : List Blob → σ → Bool × σ
  | [], core => (true, core)
  | txBlob :: rest, core =>
    let (tvc, core) := C.handleIncomingTx txBlob keptByBlock core
    if tvc.verificationFailed then (false, core) else processTxs keptByBlock rest core

/-- Process a new block that is neither queued nor stored. Relaying it to other peers does not
concern this connection. -/
def processNewBlock (arg : NotifyNewBlock Blob) (b : Block) (s : Session σ Blob) :
    Session σ Blob :=
  let (prevalidated, core) := C.preValidateBlock b (getBlockHash E b) s.shared.core
  let s := s.withCore core
  if prevalidated.verificationFailed then s.dropConnection
  else
    let (verified, core) := processTxs C true arg.b.txs core
    let s := s.withCore core
    if !verified then s.dropConnection
    else
      let (bvc, core) := C.handleIncomingBlock b true core
      let s := s.withCore core
      if bvc.verificationFailed then s.dropConnection
      else if bvc.addedToMainChain || bvc.addedToAltchain && bvc.heightDifference < 2 then s
      else if bvc.markedAsOrphaned then postRequestChain C (s.withState .synchronizing)
      else s

def handleNotifyNewBlock (arg : NotifyNewBlock Blob) (s : Session σ Blob) : Session σ Blob :=
  if s.addressBlocked then s
  else if s.context.state ≠ .normal then s
  else match C.parseBlock arg.b.block with
    | none => s.dropConnection
    | some b =>
      let blockId := getBlockHash E b
      if s.shared.blocksIdQue.contains blockId then s
      else if C.haveBlock s.shared.core blockId then s
      else processNewBlock E C arg b s

def handleNotifyNewTransactions (txs : List Blob) (s : Session σ Blob) : Session σ Blob :=
  if s.addressBlocked then s
  else if s.context.state ≠ .normal then s
  else
    let (verified, core) := processTxs C false txs s.shared.core
    let s := s.withCore core
    if verified then s else s.dropConnection

/-! ## Requests of the peer -/

def handleRequestGetObjects (arg : RequestGetObjects) (s : Session σ Blob) : Session σ Blob :=
  let (handled, rsp) := C.handleGetObjects s.shared.core arg
  let s := if handled then s else s.dropConnection
  s.postNotify (.responseGetObjects rsp)

def handleRequestChain (blockIds : List Hash) (s : Session σ Blob) : Session σ Blob :=
  match C.findBlockchainSupplement s.shared.core blockIds with
  | some r => s.postNotify (.responseChainEntry r)
  | none => s

/-! ## Responses of the peer -/

/-- The node or the handler is about to stop. -/
def Session.stopFlag (s : Session σ Blob) : Bool := C.stopSignal s.shared.core || s.shared.wantStop

/-- The first pass over delivered blocks: each must be a requested one, with as many transactions
as it lists. It is answered whether to go on. -/
def checkBlocks : Nat → List (BlockCompleteEntry Blob) → Session σ Blob → Bool × Session σ Blob
  | _, [], s => (true, s)
  | count, entry :: rest, s =>
    if s.stopFlag C then (false, s.dropConnection)
    else match C.parseAndValidateBlockFromBlob entry.block with
      | none => (false, s.failAddress)
      | some b =>
        let id := getBlockHash E b
        if count + 1 = 2 ∧ C.haveBlock s.shared.core id then (false, s.setIdle)
        else if !s.context.requestedObjects.contains id then (false, s.dropConnection)
        else if b.txHashes.length ≠ entry.txs.length then (false, s.dropConnection)
        else checkBlocks (count + 1) rest
          { s with
            context :=
              { s.context with
                requestedObjects := Container.erase s.context.requestedObjects id } }

/-- Process the transactions of a delivered block. -/
def processBlockTxs : List Blob → Session σ Blob → Bool × Session σ Blob
  | [], s => (true, s)
  | txBlob :: rest, s =>
    if s.stopFlag C then (false, s.dropConnection)
    else
      let (tvc, core) := C.handleIncomingTx txBlob true s.shared.core
      let s := s.withCore core
      if tvc.verificationFailed then (false, s.dropConnection) else processBlockTxs rest s

/-- Process a block in its serialized form. -/
def handleIncomingBlockBlob (blob : Blob) (core : σ) : BlockVerdict × σ :=
  match C.parseBlock blob with
  | none => (⟨⟨false, true, false, false, false⟩, 0⟩, core)
  | some b => C.handleIncomingBlock b false core

/-- The second pass: process each block with its transactions. -/
def processBlocks : Nat → List (BlockCompleteEntry Blob) → Session σ Blob → Bool × Session σ Blob
  | _, [], s => (true, s)
  | count, entry :: rest, s =>
    if s.stopFlag C then (false, s.dropConnection)
    else
      let (verified, s) := processBlockTxs C entry.txs s
      if !verified then (false, s)
      else
        let (bvc, core) := handleIncomingBlockBlob C entry.block s.shared.core
        let s := s.withCore core
        if count > 2 ∧ bvc.alreadyExists then (false, s.setIdle)
        else if bvc.verificationFailed then (false, s.failAddress)
        else if bvc.markedAsOrphaned then (false, s.failAddress)
        else processBlocks (count + 1) rest s

def handleResponseGetObjects (arg : ResponseGetObjects Blob) (s : Session σ Blob) :
    Session σ Blob :=
  if s.addressBlocked then s
  else if s.context.lastResponseHeight > arg.currentBlockchainHeight then s.dropConnection
  else
    let s :=
      { s with
        context := { s.context with remoteBlockchainHeight := arg.currentBlockchainHeight } }
    let (checked, s) := checkBlocks E C 0 arg.blocks s
    if !checked then s
    else if !s.context.requestedObjects.isEmpty then s.dropConnection
    else
      let (processed, s) := processBlocks C 0 arg.blocks s
      if processed then requestMissingObjects C true s else s

/-- Note the heights of a response, and the listed blocks that the node does not have. -/
def noteChainEntry (arg : ResponseChainEntry) (s : Session σ Blob) : Session σ Blob :=
  { s with
    context :=
      { s.context with
        remoteBlockchainHeight := UInt64.ofNat arg.totalHeight
        lastResponseHeight :=
          UInt64.ofNat arg.startHeight + UInt64.ofNat arg.blockIds.length - 1
        neededObjects := s.context.neededObjects ++
          arg.blockIds.filter fun info => !C.haveBlock s.shared.core info.h } }

/-- A last height above the peer's height is only reported. -/
def handleResponseChainEntry (arg : ResponseChainEntry) (s : Session σ Blob) : Session σ Blob :=
  if s.addressBlocked then s
  else match arg.blockIds.head? with
    | none => s.failAddress
    | some first =>
      if !C.haveBlock s.shared.core first.h then s.failAddress
      else requestMissingObjects C false (noteChainEntry C arg s)

/-! ## Runs of a connection -/

/-- What happens to a connection: a queued callback is called, a message of the peer arrives, or
others act on what is shared, or close the connection. -/
inductive Event (σ Blob : Type) where
  | callback
  | handshake (hshd : CoreSyncData)
  | timedSync (hshd : CoreSyncData)
  | timedSyncAnswer (hshd : CoreSyncData)
  | notifyNewBlock (arg : NotifyNewBlock Blob)
  | notifyNewTransactions (txs : List Blob)
  | requestGetObjects (arg : RequestGetObjects)
  | responseGetObjects (arg : ResponseGetObjects Blob)
  | requestChain (blockIds : List Hash)
  | responseChainEntry (arg : ResponseChainEntry)
  | others (shared : Shared σ)
  | close

/-- The connection after an event. A closed connection handles nothing. -/
def react (event : Event σ Blob) (s : Session σ Blob) : Session σ Blob :=
  if s.closed then s
  else match event with
    | .callback =>
      if s.callbacks = 0 then s else onCallback C { s with callbacks := s.callbacks - 1 }
    | .handshake hshd => handleHandshake C hshd s
    | .timedSync hshd => handleTimedSync C hshd s
    | .timedSyncAnswer hshd => handleTimedSyncAnswer C hshd s
    | .notifyNewBlock arg => handleNotifyNewBlock E C arg s
    | .notifyNewTransactions txs => handleNotifyNewTransactions C txs s
    | .requestGetObjects arg => handleRequestGetObjects C arg s
    | .responseGetObjects arg =>
      handleResponseGetObjects E C arg (s.settle Notification.asksObjects)
    | .requestChain blockIds => handleRequestChain C blockIds s
    | .responseChainEntry arg => handleResponseChainEntry C arg (s.settle Notification.asksChain)
    | .others shared => { s with shared }
    | .close => s.dropConnection

/-- A new connection. -/
def Session.Opened (s : Session σ Blob) : Prop :=
  s.context.state = .beforHandshake ∧ s.context.neededObjects = [] ∧
    s.context.requestedObjects = ∅ ∧ s.context.callbackRequestCount = 0 ∧ s.posted = [] ∧
    s.outstanding = [] ∧ s.callbacks = 0 ∧ s.closed = false

/-- A connection and what happens to it. -/
def sessionSystem : System (Event σ Blob) (Session σ Blob) where
  start := Session.Opened
  step := react E C

end Handlers
end Virie.Protocol
