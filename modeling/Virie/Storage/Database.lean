import Virie.Format

/-! # The main-chain containers

The containers of the blockchain database and the procedures that write them one
transaction at a time: spent marks, the output index and the alias registry, each
with its inverse. -/

open Foundation

namespace Virie

/-- The containers that hold the main chain. -/
structure Db where
  blocks : List BlockExtendedInfo := []
  blocksIndex : Container Hash Nat := ∅
  transactions : Container Hash TransactionChainEntry := ∅
  spentKeys : Container KeyImage Nat := ∅
  outputs : ArrayContainer Nat GlobalOutputEntry := ∅
  multisigOuts : Container Hash MsOutputEntry := ∅
  aliases : Container String (List ExtraAliasEntryBase) := ∅
  addrToAlias : Container AccountPublicAddress (KeySet String) := ∅
  perBlockGindexIncs : Container Nat (List GindexIncrement) := ∅
  currentBlockCumulSzLimit : Nat := 0

/-- A procedure on the database. -/
abbrev DbM (α : Type) := Procedure Db α

namespace Db

variable (db : Db)

def getCurrentBlockchainSize : Nat := db.blocks.length

def getTopBlockHeight : Nat := db.blocks.length - 1

def getTopBlockId (E : Env) : Hash :=
  match db.blocks.getLast? with
  | some bei => getBlockHash E bei.bl
  | none => nullHash

def getBlockIdByHeight (E : Env) (height : Nat) : Hash :=
  match db.blocks[height]? with
  | some bei => getBlockHash E bei.bl
  | none => nullHash

def haveTxKeyimgAsSpent (keyIm : KeyImage) : Bool := db.spentKeys.has keyIm

/-- Whether a key image was spent below a height. -/
def haveTxKeyimgAsSpentBefore (keyIm : KeyImage) (beforeHeight : Nat) : Bool :=
  match db.spentKeys.get keyIm with
  | some height => decide (height < beforeHeight)
  | none => false

end Db

/-! ## Spent marks -/

def setSpentFlag (txId : Hash) (n : Nat) (spent : Bool) : DbM Unit := do
  let db ← get
  let tce ← Procedure.demand .refused (db.transactions.get txId)
  Procedure.require (decide (n < tce.spentFlags.length))
  set { db with
    transactions := db.transactions.set txId
      { tce with spentFlags := tce.spentFlags.set n spent } }

/-- Mark the output a ring member refers to. -/
def updateSpentTxFlagsForInput (amount : Nat) (o : TxoutRef) (spent : Bool) : DbM Unit :=
  match o with
  | .byId ref => setSpentFlag ref.txId ref.n spent
  | .index globalIndex => do
    let db ← get
    let out ← Procedure.demand .refused (db.outputs.getSubitem amount globalIndex)
    setSpentFlag out.txId out.outNo spent

/-- Mark the output of an input that refers to just one. -/
def updateSpentTxFlagsForDirect (input : TxinToKey) (spent : Bool) : DbM Unit :=
  match input.keyOffsets with
  | [direct] => updateSpentTxFlagsForInput input.amount direct spent
  | _ => pure ()

/-- Mark a multisig output as spent at a height, or as unspent for height zero. An output
that is already marked is only reported. -/
def updateSpentTxFlagsForMultisig (multisigId : Hash) (spentHeight : Nat) : DbM Unit := do
  let db ← get
  let ms ← Procedure.demand .refused (db.multisigOuts.get multisigId)
  set { db with multisigOuts := db.multisigOuts.set multisigId { ms with spentHeight } }
  setSpentFlag ms.txId ms.outNo (spentHeight != 0)

/-- Spend one input: record its key image or mark its multisig output. -/
def addTransactionInput (blHeight : Nat) : Txin → DbM Unit
  | .gen _ => pure ()
  | .toKey input => do
    let db ← get
    Procedure.require (!db.spentKeys.has input.kImage)
    set { db with spentKeys := db.spentKeys.set input.kImage blHeight }
    updateSpentTxFlagsForDirect input true
  | .multisig input => updateSpentTxFlagsForMultisig input.multisigOutId blHeight

/-- Undo the spending of one input. -/
def purgeTransactionInput (strictCheck : Bool) : Txin → DbM Unit
  | .gen _ => pure ()
  | .toKey input => do
    let db ← get
    Procedure.require (db.spentKeys.has input.kImage || !strictCheck)
    set { db with spentKeys := db.spentKeys.erase input.kImage }
    updateSpentTxFlagsForDirect input false
  | .multisig input => updateSpentTxFlagsForMultisig input.multisigOutId 0

/-- Undo the inputs of a transaction in order; without the strict check a failing input
is skipped. -/
def purgeTransactionKeyimagesFromBlockchain (strictCheck : Bool) (vin : List Txin) : DbM Unit :=
  Procedure.forEach (fun input =>
    if strictCheck then purgeTransactionInput strictCheck input
    else do
      let _ ← Procedure.attempt (purgeTransactionInput strictCheck input)
      pure ()) vin

/-! ## The output index -/

section Outputs

variable (E : Env) (tx : TransactionPrefix) (txId : Hash)

/-- Index one output and return its global index; multisig outputs have none. -/
def pushOutput (i : Nat) (out : TxOut) : DbM Nat := do
  let db ← get
  match out.target with
  | .toKey _ =>
    set { db with outputs := db.outputs.pushBackItem out.amount ⟨txId, i⟩ }
    pure (db.outputs.getItemSize out.amount)
  | .multisig _ =>
    let multisigOutId := getMultisigOutId E tx i
    Procedure.require (multisigOutId != nullHash)
    Procedure.require (!db.multisigOuts.has multisigOutId)
    set { db with multisigOuts := db.multisigOuts.set multisigOutId ⟨txId, i, 0⟩ }
    pure 0

def popOutput (i : Nat) (out : TxOut) : DbM Unit := do
  let db ← get
  match out.target with
  | .toKey _ =>
    let backItem ← Procedure.demand .refused (db.outputs.items out.amount).getLast?
    Procedure.require (backItem.txId == txId)
    Procedure.require (backItem.outNo == i)
    set { db with outputs := db.outputs.popBackItem out.amount }
  | .multisig _ =>
    let multisigOutId := getMultisigOutId E tx i
    Procedure.require (multisigOutId != nullHash)
    Procedure.require (db.multisigOuts.has multisigOutId)
    set { db with multisigOuts := db.multisigOuts.erase multisigOutId }

/-- Index the outputs from number `i` on. -/
def pushOutputsFrom (i : Nat) : List TxOut → DbM (List Nat)
  | [] => pure []
  | out :: rest => do
    let globalIndex ← pushOutput E tx txId i out
    let others ← pushOutputsFrom (i + 1) rest
    pure (globalIndex :: others)

/-- Remove the outputs from number `i` on, the last one first. -/
def popOutputsFrom (i : Nat) : List TxOut → DbM Unit
  | [] => pure ()
  | out :: rest => do
    popOutputsFrom (i + 1) rest
    popOutput E tx txId i out

def pushTransactionToGlobalOutsIndex : DbM (List Nat) := pushOutputsFrom E tx txId 0 tx.vout

def popTransactionFromGlobalIndex : DbM Unit := popOutputsFrom E tx txId 0 tx.vout

end Outputs

/-- The outputs to keys of each amount that a transaction adds. -/
def appendPerBlockIncrementsForTx (tx : TransactionPrefix) (gindices : Container Nat Nat) :
    Container Nat Nat :=
  tx.vout.foldl (fun counts out =>
    match out.target with
    | .toKey _ => counts.modify out.amount 0 (· + 1)
    | .multisig _ => counts) gindices

def pushBlockToPerBlockIncrements (height : Nat) (gindices : Container Nat Nat) (db : Db) : Db :=
  { db with
    perBlockGindexIncs := db.perBlockGindexIncs.set height
      (gindices.toList.map fun entry => ⟨entry.1, entry.2⟩) }

def popBlockFromPerBlockIncrements (height : Nat) (db : Db) : Db :=
  { db with perBlockGindexIncs := db.perBlockGindexIncs.erase height }

/-! ## Aliases -/

/-- Add a name to the names of an address. -/
def addAliasOfAddress (address : AccountPublicAddress) (name : String) (db : Db) : Db :=
  { db with
    addrToAlias := db.addrToAlias.set address
      (((db.addrToAlias.get address).getD ∅).insert name) }

/-- Store the remaining names of an address, or drop the address with its last name. -/
def storeAliasesOfAddress (address : AccountPublicAddress) (names : KeySet String) (db : Db) : Db :=
  { db with
    addrToAlias :=
      if names.isEmpty then db.addrToAlias.erase address
      else db.addrToAlias.set address names }

/-- Take a name from an address. -/
def removeAliasOfAddress (address : AccountPublicAddress) (name : String) (db : Db) : Db :=
  match db.addrToAlias.get address with
  | some names => storeAliasesOfAddress address (names.erase name) db
  | none => db

def storeAliasHistory (name : String) (history : List ExtraAliasEntryBase) (db : Db) : Db :=
  { db with
    aliases := if history.isEmpty then db.aliases.erase name else db.aliases.set name history }

/-- Register a name, or hand it over when its owner signed the update. -/
def putAliasInfo (E : Env) (ai : ExtraAliasEntry) : DbM Unit := do
  Procedure.require (ai.aliasName != "")
  let db ← get
  let history := (db.aliases.get ai.aliasName).getD []
  match history.getLast? with
  | none =>
    set { db with aliases := db.aliases.set ai.aliasName [ai.toExtraAliasEntryBase] }
    modify (addAliasOfAddress ai.address ai.aliasName)
  | some owner =>
    let sign ← Procedure.demand .refused (if ai.sign.length = 1 then ai.sign.getLast? else none)
    Procedure.require
      (E.checkSignature (getSignBuffHashForAliasUpdate E ai) owner.address.spendPublicKey sign)
    modify (removeAliasOfAddress owner.address ai.aliasName)
    modify fun db => { db with
      aliases := db.aliases.set ai.aliasName (history ++ [ai.toExtraAliasEntryBase]) }
    modify (addAliasOfAddress ai.address ai.aliasName)

/-- Undo the last registration or update of a name. -/
def popAliasInfo (ai : ExtraAliasEntry) : DbM Unit := do
  Procedure.require (ai.aliasName != "")
  let db ← get
  let history := (db.aliases.get ai.aliasName).getD []
  let owner ← Procedure.demand .refused history.getLast?
  Procedure.require ((db.addrToAlias.get owner.address).all (KeySet.contains · ai.aliasName))
  modify (removeAliasOfAddress owner.address ai.aliasName)
  modify (storeAliasHistory ai.aliasName history.dropLast)
  match history.dropLast.getLast? with
  | some previous => modify (addAliasOfAddress previous.address ai.aliasName)
  | none => pure ()

/-- Undo the alias entry of a transaction, if it has one. -/
def unprocessBlockchainTxExtra (tx : TransactionPrefix) : DbM Unit := do
  let ei ← Procedure.demand .refused tx.parseAndValidateTxExtra
  match ei.namedAlias with
  | some entry => popAliasInfo entry
  | none => pure ()

end Virie
