import Virie.Format
import Virie.Serialization.Laws
import Virie.TreeHash

/-! # What the id of a block commits to

The hashing blob of a block is its serialized header, the root of the tree of its transaction ids
and the number of these ids. Blocks of a known version with the same blob have the same header, the
same coinbase id and the same list of transaction hashes, as long as no two pairs hashed for the
roots collide. The serialization of a header of an unknown version stops behind the version, and
the blob is made of what was written until then. -/

open Foundation

namespace Virie

open TreeHash

/-- The serialized header as `t_serializable_object_to_blob` returns it, whether the serialization
succeeds or not. -/
def headerToBlob (header : BlockHeader) : List UInt8 :=
  if header.majorVersion > currentBlockMajorVersion then Codec.writeUint 1 header.majorVersion
  else (Wire.blockHeader.write header).getD []

section Blob

variable (E : Env) (cnFastHash : Hash → Hash → Hash)

/-- The leaves of the transaction tree: the coinbase first. -/
def treeLeaves (b : Block) : List Hash :=
  getTransactionHash E b.minerTx.toTransactionPrefix :: b.txHashes

/-- `get_block_hashing_blob`. -/
def blockHashingBlob (b : Block) : Option (List UInt8) := do
  let treeRootHash ← treeHash cnFastHash (treeLeaves E b)
  pure (headerToBlob b.toBlockHeader ++ Codec.writeUint 32 treeRootHash.val ++
    writeVarint ((b.txHashes.length + 1) % 2 ^ 64))

/-- The pairs of hashes that `tree_hash` hashes for a list of leaves. -/
def hashedPairs (hashes : List Hash) : List (Hash × Hash) :=
  match treeHash MerkleTree.node (hashes.map MerkleTree.leaf) with
  | some tree => tree.pairs cnFastHash
  | none => []

/-- Hashes have 32 bytes. -/
structure HashSized : Prop where
  ids : ∀ tx, (getTransactionHash E tx).Fits
  nodes : ∀ a b, (cnFastHash a b).Fits

end Blob

section Commitment

variable {E : Env} {cnFastHash : Hash → Hash → Hash} {a b : Block} {hashes others : List Hash}

/-- The root determines a list of leaves of known length. -/
theorem leaves_of_treeHash (any : 1 ≤ hashes.length) (word : hashes.length < 2 ^ 64)
    (alike : hashes.length = others.length)
    (free : MerkleTree.CollisionFree cnFastHash (hashedPairs cnFastHash hashes)
      (hashedPairs cnFastHash others))
    (same : treeHash cnFastHash hashes = treeHash cnFastHash others) : hashes = others := by
  obtain ⟨tree, run, leaves, root, shape⟩ := treeHash_tree cnFastHash any word
  obtain ⟨tree', run', leaves', root', shape'⟩ := treeHash_tree cnFastHash (alike ▸ any)
    (alike ▸ word)
  rw [hashedPairs, run, hashedPairs, run'] at free
  rw [root, root'] at same
  rw [← alike, shape] at shape'
  have equal := MerkleTree.eq_of_root (Option.some.inj shape') free (Option.some.inj same)
  rw [← leaves, ← leaves', equal]

/-- The root has 32 bytes. -/
theorem treeHash_fits (sized : HashSized E cnFastHash) (fits : ∀ h ∈ hashes, h.Fits)
    {root : Hash} (any : 1 ≤ hashes.length) (word : hashes.length < 2 ^ 64)
    (computed : treeHash cnFastHash hashes = some root) : root.Fits := by
  obtain ⟨tree, _, leaves, result, _⟩ := treeHash_tree cnFastHash any word
  rw [result] at computed
  rw [← Option.some.inj computed]
  cases tree with
  | leaf value => exact fits value (leaves ▸ List.mem_singleton_self value)
  | node left right => exact sized.nodes _ _

/-- The blob of a block of a known version starts with its header, which is read back. -/
theorem read_headerToBlob (fits : a.toBlockHeader.Fits)
    (known : a.majorVersion ≤ currentBlockMajorVersion) (rest : List UInt8) :
    Wire.blockHeader.read true (headerToBlob a.toBlockHeader ++ rest) =
      some (a.toBlockHeader, rest) := by
  obtain ⟨out, written, read⟩ := Wire.lawful_blockHeader.roundTrip a.toBlockHeader ⟨fits, known⟩
  rw [headerToBlob, if_neg (Nat.not_lt.2 known), written]
  exact read true rest

theorem hashingBlob_inj (sized : HashSized E cnFastHash) (fitsA : a.Fits) (fitsB : b.Fits)
    (roomA : a.txHashes.length + 1 < 2 ^ 64) (roomB : b.txHashes.length + 1 < 2 ^ 64)
    (knownA : a.majorVersion ≤ currentBlockMajorVersion)
    (knownB : b.majorVersion ≤ currentBlockMajorVersion)
    (same : blockHashingBlob E cnFastHash a = blockHashingBlob E cnFastHash b) :
    a.toBlockHeader = b.toBlockHeader ∧ a.txHashes.length = b.txHashes.length ∧
      treeHash cnFastHash (treeLeaves E a) = treeHash cnFastHash (treeLeaves E b) := by
  obtain ⟨rootA, -, computedA⟩ := @treeHash_eq _ cnFastHash (treeLeaves E a)
    (Nat.succ_pos _) roomA
  obtain ⟨rootB, -, computedB⟩ := @treeHash_eq _ cnFastHash (treeLeaves E b)
    (Nat.succ_pos _) roomB
  have fitsRootA : rootA.Fits := treeHash_fits sized
    (List.forall_mem_cons.2 ⟨sized.ids _, fitsA.2.2.2⟩) (Nat.succ_pos _) roomA computedA
  have fitsRootB : rootB.Fits := treeHash_fits sized
    (List.forall_mem_cons.2 ⟨sized.ids _, fitsB.2.2.2⟩) (Nat.succ_pos _) roomB computedB
  simp only [blockHashingBlob, computedA, computedB, Option.bind_eq_bind, Option.bind_some,
    Option.pure_def, Option.some.injEq, List.append_assoc] at same
  have headerA := read_headerToBlob fitsA.1 knownA
    (Codec.writeUint 32 rootA.val ++ writeVarint ((a.txHashes.length + 1) % 2 ^ 64))
  rw [same, read_headerToBlob fitsB.1 knownB] at headerA
  obtain ⟨header, rest⟩ := Prod.mk.inj (Option.some.inj headerA)
  have root := Codec.readUint_writeUint fitsRootA
    (writeVarint ((a.txHashes.length + 1) % 2 ^ 64))
  rw [← rest, Codec.readUint_writeUint fitsRootB] at root
  obtain ⟨roots, counts⟩ := Prod.mk.inj (Option.some.inj root)
  have read : ∀ n : Nat,
      readVarint 64 0 0 (writeVarint (n % 2 ^ 64)) = (.complete, n % 2 ^ 64, []) := fun n => by
    have written := @readVarint_writeVarint 64 0 0 (n % 2 ^ 64) [] (by decide)
      (Nat.mod_lt n (Nat.two_pow_pos 64)) (fun wrong => absurd rfl wrong)
    rwa [List.append_nil, Nat.zero_add, Nat.pow_zero, Nat.mul_one] at written
  have count := read (a.txHashes.length + 1)
  rw [← counts, read, Nat.mod_eq_of_lt roomA, Nat.mod_eq_of_lt roomB] at count
  have equal : b.txHashes.length + 1 = a.txHashes.length + 1 :=
    (Prod.mk.inj (Prod.mk.inj count).2).1
  refine ⟨header.symm, by omega, ?_⟩
  have rootEq : rootB = rootA := by
    cases rootA
    cases rootB
    exact congrArg Hash.mk roots
  rw [computedA, computedB, rootEq]

/-- `tree_hash` has a result for every number of leaves that a `size_t` counts, the root of a tree
with the leaves in their order, and the result determines lists of one length. The blob of a block
of a known version determines the header, the coinbase id and the transaction hashes. -/
theorem blockId_commits (sized : HashSized E cnFastHash) :
    (∀ hashes : List Hash, 1 ≤ hashes.length → hashes.length < 2 ^ 64 →
      ∃ tree : MerkleTree Hash, tree.leaves = hashes ∧
        treeHash cnFastHash hashes = some (tree.root cnFastHash)) ∧
    (∀ hashes others : List Hash, 1 ≤ hashes.length → hashes.length < 2 ^ 64 →
      hashes.length = others.length →
      MerkleTree.CollisionFree cnFastHash (hashedPairs cnFastHash hashes)
        (hashedPairs cnFastHash others) →
      treeHash cnFastHash hashes = treeHash cnFastHash others → hashes = others) ∧
    ∀ a b : Block, a.Fits → b.Fits →
      a.txHashes.length + 1 < 2 ^ 64 → b.txHashes.length + 1 < 2 ^ 64 →
      a.majorVersion ≤ currentBlockMajorVersion → b.majorVersion ≤ currentBlockMajorVersion →
      MerkleTree.CollisionFree cnFastHash (hashedPairs cnFastHash (treeLeaves E a))
        (hashedPairs cnFastHash (treeLeaves E b)) →
      blockHashingBlob E cnFastHash a = blockHashingBlob E cnFastHash b →
      a.toBlockHeader = b.toBlockHeader ∧
        getTransactionHash E a.minerTx.toTransactionPrefix =
          getTransactionHash E b.minerTx.toTransactionPrefix ∧
        a.txHashes = b.txHashes := by
  refine ⟨fun hashes any word => ?_, fun hashes others any word => leaves_of_treeHash any word, ?_⟩
  · obtain ⟨tree, _, leaves, root, _⟩ := treeHash_tree cnFastHash any word
    exact ⟨tree, leaves, root⟩
  · intro a b fitsA fitsB roomA roomB knownA knownB free same
    obtain ⟨header, lengths, roots⟩ :=
      hashingBlob_inj sized fitsA fitsB roomA roomB knownA knownB same
    have leaves : treeLeaves E a = treeLeaves E b :=
      leaves_of_treeHash (Nat.succ_pos _) roomA (congrArg Nat.succ lengths) free roots
    obtain ⟨coinbase, hashes⟩ := List.cons.inj leaves
    exact ⟨header, coinbase, hashes⟩

end Commitment

namespace UnknownVersion

/-- Blocks of an unknown version with different nonces. -/
def block (nonce : Nat) : Block :=
  { majorVersion := 2, minorVersion := 0, timestamp := 300, prevId := ⟨1⟩, nonce, flags := 0
    minerTx :=
      { version := 1, vin := [.gen 1], vout := [], extra := [], signatures := [], attachment := [] }
    txHashes := [] }

/-- Only the version of their headers gets into the blob, which is the same for both. -/
theorem blob_same :
    (∀ cnFastHash, blockHashingBlob Env.plain cnFastHash (block 1) =
      blockHashingBlob Env.plain cnFastHash (block 2)) ∧
    (∀ cnFastHash, (blockHashingBlob Env.plain cnFastHash (block 1)).isSome = true) ∧
    (block 1).toBlockHeader ≠ (block 2).toBlockHeader :=
  ⟨fun _ => rfl, fun _ => rfl, by decide⟩

end UnknownVersion

namespace SignedCoinbase

/-- A hash of 32 bytes for concrete runs, and ids of 32 bytes. -/
def mix (a b : Hash) : Hash := ⟨(3 * a.val + 5 * b.val) % 256 ^ 32⟩

def environment : Env := { Env.plain with prefixHash := fun tx => ⟨tx.version % 256 ^ 32⟩ }

theorem environment_sized : HashSized environment mix where
  ids _ := Nat.mod_lt _ (by decide)
  nodes _ _ := Nat.mod_lt _ (by decide)

/-- Blocks with one transaction beside the coinbase, which carries signatures that its id leaves
out. -/
def block (signatures : List (List Signature)) : Block :=
  { majorVersion := 1, minorVersion := 0, timestamp := 300, prevId := ⟨1⟩, nonce := 12, flags := 0
    minerTx :=
      { version := 1, vin := [.gen 1], vout := [], extra := [], signatures, attachment := [] }
    txHashes := [⟨5⟩] }

theorem block_fits {signatures : List (List Signature)}
    (fits : FitsList (FitsList Signature.Fits) signatures) : (block signatures).Fits := by
  refine ⟨by simp [block, BlockHeader.Fits, Hash.Fits], ⟨?_, fits, ?_⟩, ?_⟩
  · simp [block, TransactionPrefix.Fits, FitsList, Txin.Fits]
  · simp [block, FitsList]
  · simp [block, FitsList, Hash.Fits]

/-- Two of them have one blob, and the same header, coinbase id and transaction hashes. -/
theorem block_commits :
    (block []).toBlockHeader = (block [[⟨7⟩]]).toBlockHeader ∧
      getTransactionHash environment (block []).minerTx.toTransactionPrefix =
        getTransactionHash environment (block [[⟨7⟩]]).minerTx.toTransactionPrefix ∧
      (block []).txHashes = (block [[⟨7⟩]]).txHashes := by
  have pairs : hashedPairs mix (treeLeaves environment (block [])) = [(⟨1⟩, ⟨5⟩)] := rfl
  have pairs' : hashedPairs mix (treeLeaves environment (block [[⟨7⟩]])) = [(⟨1⟩, ⟨5⟩)] := rfl
  refine (blockId_commits environment_sized).2.2 (block []) (block [[⟨7⟩]]) (block_fits ?_)
    (block_fits ?_) (by decide) (by decide) (by decide) (by decide) ?_ rfl
  · simp [FitsList]
  · simp [FitsList, Signature.Fits]
  · rw [pairs, pairs']
    simp [MerkleTree.CollisionFree]

end SignedCoinbase
end Virie
