import Virie.Serialization.Laws

/-! # Blobs of transactions and blocks

A transaction or a block is read back from its blob. The other direction fails: the archive goes
on when a variable-length number is not read completely, so that a blob may lack its last fields
or spell a number in several ways. A blob is the one of its transaction exactly when all its
numbers are read completely. -/

open Foundation

namespace Virie

/-! ## From values to blobs and back -/

/-- Only a transaction of a known version is written. -/
theorem version_of_written {tx : Transaction} {out : List UInt8}
    (written : Wire.transaction.write tx = some out) : tx.version ≤ currentTransactionVersion := by
  simp only [Wire.transaction, Wire.transactionPrefix, Codec.imap, Codec.seq, Codec.guarded,
    Option.bind_eq_bind, Option.bind_eq_some_iff, Option.ite_none_right_eq_some,
    Bool.not_eq_true', decide_eq_false_iff_not, Nat.not_lt] at written
  obtain ⟨_, ⟨_, ⟨known, _⟩, _⟩, _⟩ := written
  exact known

theorem version_of_block_written {b : Block} {out : List UInt8}
    (written : Wire.block.write b = some out) :
    b.minerTx.version ≤ currentTransactionVersion := by
  simp only [Wire.block, Codec.imap, Codec.seq, Option.bind_eq_bind, Option.bind_eq_some_iff]
    at written
  obtain ⟨_, _, _, ⟨_, minerTx, _⟩, _⟩ := written
  exact version_of_written minerTx

/-- A transaction of a known version is written to a blob and read back from it. A block of a known
version is read back from what is written of it, and it is written if its miner transaction is of
a known version. -/
theorem blobs_readBack :
    (∀ tx : Transaction, tx.Fits → tx.version ≤ currentTransactionVersion →
      ∃ txBlob, txToBlob tx = some txBlob ∧ parseAndValidateTxFromBlob txBlob = some tx) ∧
    (∀ b : Block, b.Fits → b.majorVersion ≤ currentBlockMajorVersion →
      (∀ bBlob, blockToBlob b = some bBlob → parseAndValidateBlockFromBlob bBlob = some b) ∧
      (b.minerTx.version ≤ currentTransactionVersion → ∃ bBlob, blockToBlob b = some bBlob)) := by
  refine ⟨fun tx fits known => ?_, fun b fits known => ⟨fun bBlob written => ?_, fun known' => ?_⟩⟩
  · obtain ⟨txBlob, written, read⟩ := Wire.lawful_transaction.fromBlob_toBlob ⟨fits, known⟩
    exact ⟨txBlob, written, read false⟩
  · obtain ⟨other, writtenToo, read⟩ := Wire.lawful_block.fromBlob_toBlob
      ⟨fits, known, version_of_block_written written⟩
    have same : bBlob = other := Option.some.inj (written.symm.trans writtenToo)
    rw [same]
    exact read false
  · obtain ⟨bBlob, written, _⟩ := Wire.lawful_block.fromBlob_toBlob ⟨fits, known, known'⟩
    exact ⟨bBlob, written⟩

namespace FirstBlock

/-- A block at height one with its miner transaction. -/
def minerTx : Transaction :=
  { version := 1, vin := [.gen 1], vout := [⟨500, .toKey ⟨⟨7⟩, 0⟩⟩], extra := [.publicKey ⟨9⟩]
    signatures := [], attachment := [] }

def block : Block :=
  { majorVersion := 1, minorVersion := 0, timestamp := 300, prevId := ⟨1⟩, nonce := 12, flags := 0
    minerTx, txHashes := [⟨5⟩] }

theorem minerTx_fits : minerTx.Fits := by
  simp [minerTx, Transaction.Fits, TransactionPrefix.Fits, FitsList, Txin.Fits, TxOut.Fits,
    TxoutTarget.Fits, TxoutToKey.Fits, PublicKey.Fits, PayloadItem.Fits]

theorem block_fits : block.Fits :=
  ⟨by simp [block, BlockHeader.Fits, Hash.Fits], minerTx_fits,
    by simp [block, FitsList, Hash.Fits]⟩

theorem block_readBack :
    (∃ txBlob, txToBlob minerTx = some txBlob ∧ parseAndValidateTxFromBlob txBlob = some minerTx) ∧
      ∃ bBlob, blockToBlob block = some bBlob ∧
        parseAndValidateBlockFromBlob bBlob = some block := by
  refine ⟨blobs_readBack.1 minerTx minerTx_fits (by decide), ?_⟩
  obtain ⟨read, write⟩ := blobs_readBack.2 block block_fits (by decide)
  obtain ⟨bBlob, written⟩ := write (by decide)
  exact ⟨bBlob, written, read bBlob written⟩

end FirstBlock

/-! ## From blobs to values and back -/

/-- Every variable-length number of a transaction blob is read up to its last byte, without
overflow and without a needless zero byte. -/
def varintsComplete (txBlob : List UInt8) : Bool := (Wire.transaction.fromBlob true txBlob).isSome

/-- An accepted blob is the one its transaction is written to exactly when all its numbers are
read completely. -/
theorem txBlob_canonical_iff {txBlob : List UInt8} {tx : Transaction}
    (accepted : parseAndValidateTxFromBlob txBlob = some tx) :
    txToBlob tx = some txBlob ↔ varintsComplete txBlob = true :=
  Wire.lawful_transaction.toBlob_fromBlob_iff accepted

namespace EmptyTransaction

/-- A transaction without inputs, outputs, signatures and attachments. -/
def tx : Transaction :=
  { version := 1, vin := [], vout := [], extra := [], signatures := [], attachment := [] }

def blob : List UInt8 := [1, 0, 0, 0, 0, 0]

theorem accepted : parseAndValidateTxFromBlob blob = some tx := by decide

/-- Its blob is the one it is written to. -/
theorem blob_canonical : txToBlob tx = some blob :=
  (txBlob_canonical_iff accepted).mpr (by decide)

/-- The same bytes without the number of attachments, and with a first number in two bytes whose
last byte is zero, are read as a transaction that is not written to them. -/
theorem shortBlob_accepted :
    parseAndValidateTxFromBlob [1, 0, 0, 0, 0] = some tx ∧ txToBlob tx ≠ some [1, 0, 0, 0, 0] ∧
      parseAndValidateTxFromBlob [129, 0, 0, 0, 0, 0, 0] = some tx ∧
      txToBlob tx ≠ some [129, 0, 0, 0, 0, 0, 0] := by
  decide +kernel

end EmptyTransaction

end Virie
