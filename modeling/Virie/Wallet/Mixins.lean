import Virie.RingOffsets
import Virie.Wallet.State

/-! # Outputs to mix with

A node offers outputs of an amount to mix with: it draws numbers below a limit until it has enough
outputs or has tried them all. The wallet sorts what it gets, leaves its own output out, takes as
many as it wants, and puts its own in place. -/

open Foundation

namespace Virie

def currencyToKeyOutRelaxed : Nat := 0

/-- An output to mix with. -/
structure OutEntry where
  globalAmountIndex : Nat
  outKey : PublicKey
deriving DecidableEq

namespace Chain

variable (chain : Chain)

/-! ## The node -/

/-- The output with an index, if it can be mixed with. -/
def addOutToGetRandomOuts (amount mixCount : Nat) (useOnlyForcedToMix : Bool) (i : Nat) :
    Option OutEntry := do
  let out ← chain.db.outputs.getSubitem amount i
  let entry ← chain.db.transactions.get out.txId
  let txOut ← entry.tx.vout[out.outNo]?
  match txOut.target with
  | .multisig _ => none
  | .toKey outtk =>
    if entry.spentFlags.length ≠ entry.tx.vout.length then none
    else if entry.spentFlags[out.outNo]? = some true then none
    else if !chain.isTxSpendtimeUnlocked entry.tx.getTxUnlockTime then none
    else if outtk.mixAttr = currencyToKeyOutForcedNoMix then none
    else if useOnlyForcedToMix ∧ outtk.mixAttr = currencyToKeyOutRelaxed then none
    else if outtk.mixAttr ≠ currencyToKeyOutRelaxed ∧ mixCount < outtk.mixAttr then none
    else some ⟨i, outtk.key⟩

/-- The end of the outputs among the first ones that are old enough. -/
def endOfAllowed (amount : Nat) : Nat → Nat
  | 0 => 0
  | i + 1 =>
    match (chain.db.outputs.getSubitem amount i).bind fun out =>
        chain.db.transactions.get out.txId with
    | none => 0
    | some entry =>
      if entry.keeperBlockHeight + currencyMinedMoneyUnlockWindow ≤
          chain.db.getCurrentBlockchainSize then i + 1
      else endOfAllowed amount i

def findEndOfAllowedIndex (amount : Nat) : Nat :=
  chain.endOfAllowed amount (chain.db.outputs.getItemSize amount)

/-- Draw until there are enough outputs or all have been tried; `used` are those that were tried.
Without draws left the loop has not ended. -/
def drawOuts (add : Nat → Option OutEntry) (upIndexLimit outsCount : Nat) :
    List Nat → List Nat → List OutEntry → Option (List OutEntry × List Nat)
  | draws, used, outs =>
    if outs.length = outsCount ∨ upIndexLimit ≤ used.length then some (outs, draws)
    else
      match draws with
      | [] => none
      | draw :: draws =>
        let i := draw % upIndexLimit
        if i ∈ used then drawOuts add upIndexLimit outsCount draws used outs
        else drawOuts add upIndexLimit outsCount draws (i :: used) (outs ++ (add i).toList)

/-- The outputs of an amount to mix with, and the draws that are left. -/
def getRandomOutsForAmount (draws : List Nat) (amount outsCount : Nat) (useForcedMixOuts : Bool) :
    Option (List OutEntry × List Nat) :=
  if chain.db.outputs.getItemSize amount = 0 then some ([], draws)
  else
    let upIndexLimit := chain.findEndOfAllowedIndex amount
    let add := chain.addOutToGetRandomOuts amount outsCount useForcedMixOuts
    if outsCount ≤ upIndexLimit then drawOuts add upIndexLimit outsCount draws [] []
    else some ((List.range upIndexLimit).filterMap add, draws)

def getRandomOutsForAmounts (outsCount : Nat) (useForcedMixOuts : Bool) :
    List Nat → List Nat → Option (List (List OutEntry))
  | _, [] => some []
  | draws, amount :: amounts => do
    let (outs, draws) ← chain.getRandomOutsForAmount draws amount outsCount useForcedMixOuts
    let rest ← getRandomOutsForAmounts outsCount useForcedMixOuts draws amounts
    pure (outs :: rest)

end Chain

/-! ## The wallet -/

/-- Take outputs to mix with until there are enough, without the real one. -/
def pasteMixins (fakeOutputsCount globalOutputIndex : Nat) :
    List OutEntry → List (TxoutRef × PublicKey) → List (TxoutRef × PublicKey)
  | [], outputs => outputs
  | daemonOe :: rest, outputs =>
    if globalOutputIndex = daemonOe.globalAmountIndex then
      pasteMixins fakeOutputsCount globalOutputIndex rest outputs
    else
      let outputs := outputs ++ [(.index daemonOe.globalAmountIndex, daemonOe.outKey)]
      if fakeOutputsCount ≤ outputs.length then outputs
      else pasteMixins fakeOutputsCount globalOutputIndex rest outputs

/-- A ring member stands before an index. -/
def comesBefore (globalOutputIndex : Nat) (entry : TxoutRef × PublicKey) : Bool :=
  match entry.1 with
  | .index i => decide (i < globalOutputIndex)
  | .byId _ => true

/-- The source for a transfer and the outputs that were offered for it. A transfer of another kind
than to a key is an exception. -/
def prepareTxSource (fakeOutputsCount : Nat) (td : Wallet.TransferDetails) (outs : List OutEntry) :
    Option TxSourceEntry := do
  let out ← td.output?
  match out.target with
  | .multisig _ => none
  | .toKey outtk =>
    let sorted := outs.mergeSort fun a b => decide (a.globalAmountIndex ≤ b.globalAmountIndex)
    let outputs := pasteMixins fakeOutputsCount td.globalOutputIndex sorted []
    let front := outputs.takeWhile (comesBefore td.globalOutputIndex)
    let back := outputs.dropWhile (comesBefore td.globalOutputIndex)
    pure {
      outputs := front ++ (.index td.globalOutputIndex, outtk.key) :: back
      realOutput := front.length
      realOutTxKey := td.ptxWalletInfo.tx.getTxPubKeyFromExtra
      realOutputInTxIndex := td.internalOutputIndex
      amount := td.amount
      multisigId := nullHash
      msSigsCount := 0
      msKeysCount := 0
      separatelySignedTxComplete := false }

/-- The sources for some transfers. What the node offers is refused if there is too little of it. -/
def prepareTxSources (fakeOutputsCount : Nat) (selected : List Wallet.TransferDetails)
    (offer : List Nat → Nat → Option (List (List OutEntry))) : Option (List TxSourceEntry) :=
  if fakeOutputsCount = 0 then
    selected.mapM fun td => prepareTxSource fakeOutputsCount td []
  else do
    let outs ← offer (selected.map fun td => td.amount) (fakeOutputsCount + 1)
    if outs.length ≠ selected.length then none
    else if outs.any fun amountOuts => decide (amountOuts.length < fakeOutputsCount + 1) then none
    else
      (selected.zip outs).mapM fun entry => prepareTxSource fakeOutputsCount entry.1 entry.2

end Virie
