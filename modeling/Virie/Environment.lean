import Virie.Types
import Virie.Foundation.Procedure

/-! # What the core takes from outside

Hash functions, signature checks, the proof-of-work function and the service
registry enter as one record of functions, together with the checkpoints and the
runtime configuration. A theorem that needs hashes to be free of collisions says for
which of them. -/

open Foundation

namespace Virie

/-- A call the blockchain made to its attachment services. -/
inductive ServiceCall where
  | push (attachment : TxServiceAttachment) (index : Nat) (tx : Transaction) (height : Nat)
      (blockId : Hash) (timestamp : Nat)
  | pop (attachment : TxServiceAttachment) (index : Nat) (tx : Transaction) (height : Nat)
      (timestamp : Nat)
deriving DecidableEq

/-- The functions and parameters a node runs with. -/
structure Env where
  /-- The hash of a serialized transaction prefix. -/
  prefixHash : TransactionPrefix → Hash
  prefixBlobsize : TransactionPrefix → Nat
  attachmentHash : List PayloadItem → Hash
  attachmentBlobsize : List PayloadItem → Nat
  /-- The hash of a one-time key and the multisig output it belongs to. -/
  multisigIdHash : PublicKey → TxOut → Hash
  aliasEntryHash : ExtraAliasEntry → Hash
  treeHash : List Hash → Hash
  /-- The hash of a header, a transaction tree root and a transaction count. -/
  blockBlobHash : BlockHeader → Hash → Nat → Hash
  /-- The proof-of-work function of a height, a block hash and a nonce. -/
  ethash : Nat → Hash → Nat → Hash
  stakeKernelHash : StakeKernel → Hash
  checkKey : PublicKey → Bool
  validateKeyImage : KeyImage → Bool
  checkSignature : Hash → PublicKey → Signature → Bool
  checkRingSignature : Hash → KeyImage → List PublicKey → List Signature → Bool
  /-- The services' answer to an attachment, given the calls they have received. -/
  validateEntry : List ServiceCall → TxServiceAttachment → Nat → Transaction → Bool
  /-- The transaction a cancellation body refers to, when the body can be read. -/
  cancelOfferTxId : String → Option Hash
  /-- Checkpoints by height. -/
  points : Container Nat Hash
  posStarterKernelHash : Hash
  posMinimumHeigh : Nat
  minCoinstakeAge : Nat
  aliasValidationPubkey : PublicKey

/-- A small environment for concrete runs: the version of a transaction is its id, the nonce of
a block is its id, every proof of work is good and every signature is accepted. -/
def Env.plain : Env where
  prefixHash tx := ⟨tx.version⟩
  prefixBlobsize _ := 100
  attachmentHash attachments := ⟨attachments.length⟩
  attachmentBlobsize attachments := 10 * attachments.length
  multisigIdHash key out := ⟨1000 + key.val + out.amount⟩
  aliasEntryHash _ := ⟨1⟩
  treeHash hashes := ⟨hashes.length⟩
  blockBlobHash header _ _ := ⟨header.nonce⟩
  ethash _ _ _ := ⟨0⟩
  stakeKernelHash _ := ⟨0⟩
  checkKey _ := true
  validateKeyImage _ := true
  checkSignature _ _ _ := true
  checkRingSignature _ _ _ _ := true
  validateEntry _ _ _ _ := true
  cancelOfferTxId _ := none
  points := ∅
  posStarterKernelHash := ⟨0⟩
  posMinimumHeigh := 10
  minCoinstakeAge := 10
  aliasValidationPubkey := ⟨0⟩

/-- A proof-of-work block for concrete runs, with an id, a height and the output of its coinbase. -/
def Block.plain (id height reward : Nat) (prevId : Hash) (txHashes : List Hash) : Block where
  majorVersion := 1
  minorVersion := 0
  timestamp := 0
  prevId
  nonce := id
  flags := 0
  minerTx :=
    { version := id
      vin := [.gen height]
      vout := [⟨reward, .toKey ⟨⟨id⟩, 0⟩⟩]
      extra := [.etcTxDetailsUnlockTime (height + 10)]
      signatures := []
      attachment := [] }
  txHashes

end Virie
