import Virie.Storage.Inputs

/-! # Signing a multisig input

The participants of a multisig output sign one after the other. Each signature goes to the
position of its participant's key; with the last one that is needed the unused positions are
removed. The node matches the remaining signatures with the keys in order. A participant who
signs once more afterwards is still placed by the position of the key, which by then may hold
the signature of another participant. -/

open Foundation

namespace Virie

structure Keypair where
  pub : PublicKey
  sec : SecretKey
deriving DecidableEq, Inhabited

structure AccountKeys where
  accountAddress : AccountPublicAddress
  spendSecretKey : SecretKey
  viewSecretKey : SecretKey
deriving DecidableEq, Inhabited

def nullSig : Signature := ⟨0⟩

/-- The key functions a participant signs with. -/
structure Signing where
  generateKeyDerivation : PublicKey → SecretKey → Option KeyDerivation
  derivePublicKey : KeyDerivation → Nat → PublicKey → Option PublicKey
  deriveSecretKey : KeyDerivation → Nat → SecretKey → SecretKey
  secretKeyToPublicKey : SecretKey → Option PublicKey
  generateSignature : Hash → PublicKey → SecretKey → Signature

/-- The one-time keys of an account for an output of a transaction. -/
def Signing.deriveEphemeralKeyHelper (S : Signing) (ack : AccountKeys) (txPublicKey : PublicKey)
    (realOutputIndex : Nat) : Option Keypair := do
  let recvDerivation ← S.generateKeyDerivation txPublicKey ack.viewSecretKey
  let pub ← S.derivePublicKey recvDerivation realOutputIndex ack.accountAddress.spendPublicKey
  pure ⟨pub, S.deriveSecretKey recvDerivation realOutputIndex ack.spendSecretKey⟩

/-- A secret key belongs to its public key. -/
def Signing.Matching (S : Signing) (pub : PublicKey) (sec : SecretKey) : Prop :=
  S.secretKeyToPublicKey sec = some pub

/-- Idealised signatures: a signature verifies for its key and its message and for no other, and
derived one-time keys match when the keys of the account do. -/
structure Signing.Ideal (S : Signing) (E : Env) : Prop where
  verifies : ∀ {pub sec}, S.Matching pub sec → ∀ message hash key,
    E.checkSignature hash key (S.generateSignature message pub sec) = true ↔
      hash = message ∧ key = pub
  nonnull : ∀ {pub sec}, S.Matching pub sec → ∀ message,
    S.generateSignature message pub sec ≠ nullSig
  derives : ∀ {txPublicKey view derivation pub sec derived}, S.Matching pub sec →
    S.generateKeyDerivation txPublicKey view = some derivation → ∀ index,
    S.derivePublicKey derivation index pub = some derived →
    S.Matching derived (S.deriveSecretKey derivation index sec)

/-- The keys of an account belong together. -/
def AccountKeys.Own (S : Signing) (keys : AccountKeys) : Prop :=
  S.Matching keys.accountAddress.spendPublicKey keys.spendSecretKey

/-- The multisig input at an index. -/
def TransactionPrefix.multisigInput (tx : TransactionPrefix) (index : Nat) : Option TxinMultisig :=
  tx.vin[index]?.bind fun
    | .multisig input => some input
    | _ => none

section Signing

variable (E : Env) (S : Signing)

/-- The number and the target of the multisig output with an id. -/
def findMultisigOut (sourceTx : TransactionPrefix) (multisigOutId : Hash) :
    Option (Nat × TxoutMultisig) :=
  (List.range sourceTx.vout.length).findSome? fun i =>
    match sourceTx.vout[i]?.map TxOut.target with
    | some (.multisig out) =>
      if multisigOutId = getMultisigOutId E sourceTx i then some (i, out) else none
    | _ => none

/-- The positions the participants share: without the last one where the extra signature of a
separately signed transaction stands. -/
def allocatedSigsForParticipants (extraSignatureExpected : Bool) (sigs : List Signature) : Nat :=
  if extraSignatureExpected then sigs.length - 1 else sigs.length

def nonNullSigs (sigs : List Signature) : List Signature := sigs.filter fun sig => sig != nullSig

/-- Sign a multisig input for one participant; the answer says whether it is fully signed. -/
def signMultisigInputInTx (msInputIndex : Nat) (sourceTx : Transaction) (keys : AccountKeys) :
    Procedure Transaction Bool := do
  let tx ← get
  let msIn ← Procedure.demand .refused (tx.multisigInput msInputIndex)
  let (msOutIndex, outMs) ←
    Procedure.demand .refused (findMultisigOut E sourceTx.toTransactionPrefix msIn.multisigOutId)
  let pair ← Procedure.demand .refused
    (S.deriveEphemeralKeyHelper keys sourceTx.getTxPubKeyFromExtra msOutIndex)
  let participantIndex := outMs.keys.idxOf pair.pub
  Procedure.require (decide (participantIndex < outMs.keys.length))
  let sigs ← Procedure.demand .refused tx.signatures[msInputIndex]?
  Procedure.require (!sigs.isEmpty)
  let allocated := allocatedSigsForParticipants (needToCheckExtraSign tx msInputIndex) sigs
  -- after the input is fully signed this refuses only positions behind the kept signatures
  Procedure.require (decide (participantIndex < allocated))
  let txHashForSignature := preparePrefixHashForSign E tx msInputIndex
    (getTransactionHash E tx.toTransactionPrefix)
  Procedure.require (txHashForSignature != nullHash)
  let placed := sigs.set participantIndex (S.generateSignature txHashForSignature pair.pub pair.sec)
  set { tx with signatures := tx.signatures.set msInputIndex placed }
  let nonNullSigsCount := (nonNullSigs (placed.take allocated)).length
  Procedure.require (decide (nonNullSigsCount ≤ outMs.minimumSigs))
  if nonNullSigsCount = outMs.minimumSigs then
    set { tx with signatures := tx.signatures.set msInputIndex (nonNullSigs placed) }
    pure true
  else pure false

/-- The signatures a new transaction reserves for a multisig input: one for each key, and for a
complete separately signed transaction the one of its transaction key. -/
def reservedSignatures (msKeysCount : Nat) (separatelySignedTxComplete : Bool) (txkey : Keypair)
    (txPrefixHash : Hash) : List Signature :=
  List.replicate msKeysCount nullSig ++
    if separatelySignedTxComplete then
      [S.generateSignature txPrefixHash txkey.pub txkey.sec]
    else []

/-! ## What the node checks -/

/-- The signatures of a multisig input, matched with the keys of its output. -/
def msKeyScan (tx : Transaction) (inIndex : Nat) (txin : TxinMultisig) (target : TxoutMultisig)
    (txPrefixHash : Hash) : Bool :=
  match tx.signatures[inIndex]? with
  | none => false
  | some inputSignatures =>
    checkMultisigSignatures E (preparePrefixHashForSign E tx inIndex txPrefixHash) target.keys
      (inputSignatures.take txin.sigsCount)

/-- The number of the signatures and the extra signature of the last input. -/
def msExtraSign (tx : Transaction) (inIndex : Nat) (txin : TxinMultisig) (txPrefixHash : Hash) :
    Bool :=
  match tx.signatures[inIndex]? with
  | none => false
  | some inputSignatures =>
    txin.sigsCount + (if needToCheckExtraSign tx inIndex then 1 else 0) == inputSignatures.length &&
      (!needToCheckExtraSign tx inIndex || (inputSignatures.getLast?.map fun last =>
        E.checkSignature txPrefixHash tx.getTxPubKeyFromExtra last) == some true)

/-- The signatures of a multisig input pass, except that the last input of an incomplete
separately signed transaction has no extra signature yet. -/
def msSignaturesAccepted (tx : Transaction) (inIndex : Nat) (txin : TxinMultisig)
    (target : TxoutMultisig) (complete : Bool) : Prop :=
  msKeyScan E tx inIndex txin target (getTransactionHash E tx.toTransactionPrefix) = true ∧
    (needToCheckExtraSign tx inIndex = complete →
      msExtraSign E tx inIndex txin (getTransactionHash E tx.toTransactionPrefix) = true)

/-! ## Runs of calls -/

section Runs

variable (msInputIndex : Nat) (sourceTx : Transaction)

/-- A property holds now and after every further successful call. -/
def Throughout (holds : Transaction → Prop) : List AccountKeys → Transaction → Prop
  | [], tx => holds tx
  | keys :: later, tx => holds tx ∧ ∀ full after,
      signMultisigInputInTx E S msInputIndex sourceTx keys tx = .ok full after →
        Throughout holds later after

/-- Every further successful call is made in a state that suits it. -/
def EachCall (suits : Transaction → AccountKeys → Prop) : List AccountKeys → Transaction → Prop
  | [], _ => True
  | keys :: later, tx => ∀ full after,
      signMultisigInputInTx E S msInputIndex sourceTx keys tx = .ok full after →
        suits tx keys ∧ EachCall suits later after

/-- What holds of the rest of a run from the first call on that reports the input fully signed. -/
def OnceSigned (rest : List AccountKeys → Transaction → Prop) :
    List AccountKeys → Transaction → Prop
  | [], _ => True
  | keys :: later, tx => ∀ full after,
      signMultisigInputInTx E S msInputIndex sourceTx keys tx = .ok full after →
        if full then rest later after else OnceSigned rest later after

/-- The signatures before the position of a participant verify for the keys at their positions. -/
def positionsKept (outNo : Nat) (target : TxoutMultisig) (tx : Transaction) (keys : AccountKeys) :
    Prop :=
  ∀ pair sigs, S.deriveEphemeralKeyHelper keys sourceTx.getTxPubKeyFromExtra outNo = some pair →
    tx.signatures[msInputIndex]? = some sigs →
    ∀ position < target.keys.idxOf pair.pub, ∀ key sig, target.keys[position]? = some key →
      sigs[position]? = some sig →
      E.checkSignature (preparePrefixHashForSign E tx msInputIndex
        (getTransactionHash E tx.toTransactionPrefix)) key sig = true

end Runs

end Signing

end Virie
