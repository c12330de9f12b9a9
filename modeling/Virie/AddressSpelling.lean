import Virie.Addresses.Base58
import Virie.Environment
import Virie.Serialization.Laws

/-! # The spelling of addresses

An address is spelled in base 58: a tag, the two keys, for an integrated address the payment
id, and a checksum. Every part has one spelling, with one exception: an address with an
empty payment id is accepted both as a standard and as an integrated address. -/

open Foundation

namespace Virie

def currencyPublicAddressBase58Prefix : Nat := 99
def currencyPublicIntegAddressBase58Prefix : Nat := 240
def bcPaymentIdServiceSizeMax : Nat := 128

namespace Base58

def addrChecksumSize : Nat := 4

/-- The first bytes of the hash of some data. -/
def addrChecksum (cnFastHash : List UInt8 → Hash) (buf : List UInt8) : List UInt8 :=
  (Codec.writeUint 32 (cnFastHash buf).val).take addrChecksumSize

def encodeAddr (cnFastHash : List UInt8 → Hash) (tag : Nat) (data : List UInt8) : List UInt8 :=
  let buf := writeVarint tag ++ data
  encode (buf ++ addrChecksum cnFastHash buf)

/-- The tag and the data of an address. The reader of the tag counts the bytes that it read,
also when they end before the tag does. -/
def decodeAddr (cnFastHash : List UInt8 → Hash) (addr : List UInt8) :
    Option (Nat × List UInt8) := do
  let addrData ← decode addr
  if addrData.length ≤ addrChecksumSize then none
  else
    let checksum := addrData.drop (addrData.length - addrChecksumSize)
    let addrData := addrData.take (addrData.length - addrChecksumSize)
    if addrChecksum cnFastHash addrData ≠ checksum then none
    else
      match readVarint 64 0 0 addrData with
      | (.complete, tag, rest) => some (tag, rest)
      | (.truncated, tag, _) => if addrData.isEmpty then none else some (tag, [])
      | (.overflow, _, _) => none
      | (.nonCanonical, _, _) => none

end Base58

section Addresses

variable (E : Env) (cnFastHash : List UInt8 → Hash)

/-- The bytes of the two keys. -/
def addressBlob (addr : AccountPublicAddress) : List UInt8 :=
  (Wire.accountPublicAddress.toBlob addr).getD []

def getAccountAddressAsStr (addr : AccountPublicAddress) : List UInt8 :=
  Base58.encodeAddr cnFastHash currencyPublicAddressBase58Prefix (addressBlob addr)

def getAccountAddressAndPaymentIdAsStr (addr : AccountPublicAddress) (paymentId : List UInt8) :
    List UInt8 :=
  Base58.encodeAddr cnFastHash currencyPublicIntegAddressBase58Prefix
    (addressBlob addr ++ paymentId)

/-- The size of the two keys. -/
def addrBlobSize : Nat := 64

/-- Read an address. A standard address leaves the payment id of the caller as it is. -/
def getAccountAddressAndPaymentIdFromStr (paymentId addrStr : List UInt8) :
    Option (AccountPublicAddress × List UInt8) := do
  let (tag, blob) ← Base58.decodeAddr cnFastHash addrStr
  if blob.length < addrBlobSize then none
  else if blob.length > addrBlobSize + bcPaymentIdServiceSizeMax then none
  else do
    let (paymentId, blob) ←
      (if tag = currencyPublicAddressBase58Prefix then some (paymentId, blob)
      else if tag = currencyPublicIntegAddressBase58Prefix then
        some (blob.drop addrBlobSize, blob.take addrBlobSize)
      else none)
    let addr ← Wire.accountPublicAddress.fromBlob false blob
    if E.checkKey addr.spendPublicKey && E.checkKey addr.viewPublicKey then some (addr, paymentId)
    else none

end Addresses

section Spelling

variable {E : Env} {cnFastHash : List UInt8 → Hash} {addrStr : List UInt8}

/-! ## Tags and checksums -/

/-- Data behind a tag come after all bytes of the tag. -/
theorem decodeAddr_some {tag : Nat} {data : List UInt8} (nonempty : data ≠ [])
    (run : Base58.decodeAddr cnFastHash addrStr = some (tag, data)) :
    Base58.decode addrStr = some (writeVarint tag ++ data ++
      Base58.addrChecksum cnFastHash (writeVarint tag ++ data)) := by
  simp only [Base58.decodeAddr, Option.bind_eq_bind, Option.bind_eq_some_iff,
    Option.ite_none_left_eq_some, ne_eq, not_not] at run
  obtain ⟨addrData, decoded, _, checksum, run⟩ := run
  have canonical : addrData.take (addrData.length - Base58.addrChecksumSize) =
      writeVarint tag ++ data := by
    split at run
    · next whole =>
      cases run
      obtain ⟨v, rfl, bytes, _⟩ := writeVarint_of_complete whole
      rwa [Nat.zero_add, Nat.pow_zero, Nat.mul_one]
    · split at run
      · cases run
      · cases run
        exact absurd rfl nonempty
    · cases run
    · cases run
  rw [decoded, ← canonical, checksum, List.take_append_drop]

/-- An address that is decoded to some data is the one that its tag and data are encoded to. -/
theorem encodeAddr_of_decodeAddr {tag : Nat} {data : List UInt8} (nonempty : data ≠ [])
    (run : Base58.decodeAddr cnFastHash addrStr = some (tag, data)) :
    Base58.encodeAddr cnFastHash tag data = addrStr :=
  Base58.encode_of_decode (decodeAddr_some nonempty run)

/-- An encoded address is decoded to its tag and data. -/
theorem decodeAddr_encodeAddr {tag : Nat} (small : tag < 2 ^ 64) (data : List UInt8) :
    Base58.decodeAddr cnFastHash (Base58.encodeAddr cnFastHash tag data) = some (tag, data) := by
  have checksum : ∀ buf, (Base58.addrChecksum cnFastHash buf).length = Base58.addrChecksumSize := by
    intro buf
    rw [Base58.addrChecksum, List.length_take, Codec.writeUint_length]
    rfl
  have read := @readVarint_writeVarint 64 0 0 tag data (by decide) small
    fun zero => absurd rfl zero
  have positive := List.length_pos_iff.mpr (writeVarint_ne_nil tag)
  rw [Nat.zero_add, Nat.pow_zero, Nat.mul_one] at read
  rw [Base58.encodeAddr, Base58.decodeAddr, Base58.decode_encode]
  simp only [Option.bind_eq_bind, Option.bind_some, List.length_append, checksum,
    Nat.add_sub_cancel]
  rw [if_neg (by omega), ← List.length_append, List.take_left, List.drop_left, if_neg (by simp)]
  rw [read]

/-! ## Keys and payment ids -/

theorem addressBlob_of_fromBlob {blob : List UInt8} {addr : AccountPublicAddress}
    (read : Wire.accountPublicAddress.fromBlob false blob = some addr) :
    addressBlob addr = blob := by
  have checked : Wire.accountPublicAddress.fromBlob true blob = some addr := read
  have written := (Wire.lawful_accountPublicAddress.toBlob_fromBlob_iff read).mpr
    (by rw [checked]; rfl)
  rw [addressBlob, written]
  rfl

/-- What an accepted address is decoded to. -/
theorem fromStr_some {paymentId paymentId' : List UInt8} {addr : AccountPublicAddress}
    (run : getAccountAddressAndPaymentIdFromStr E cnFastHash paymentId addrStr =
      some (addr, paymentId')) :
    (Base58.decodeAddr cnFastHash addrStr =
        some (currencyPublicAddressBase58Prefix, addressBlob addr) ∧ paymentId' = paymentId) ∨
      Base58.decodeAddr cnFastHash addrStr =
        some (currencyPublicIntegAddressBase58Prefix, addressBlob addr ++ paymentId') := by
  simp only [getAccountAddressAndPaymentIdFromStr, Option.bind_eq_bind, Option.bind_eq_some_iff,
    Option.ite_none_left_eq_some, Option.ite_none_right_eq_some, Option.some.injEq,
    Prod.mk.injEq] at run
  obtain ⟨⟨tag, blob⟩, decoded, _, _, ⟨rest, keys⟩, split, read, parsed, _, rfl, rfl⟩ := run
  by_cases standard : tag = currencyPublicAddressBase58Prefix
  · rw [if_pos standard, Option.some.injEq, Prod.mk.injEq] at split
    obtain ⟨rfl, rfl⟩ := split
    left
    rw [addressBlob_of_fromBlob parsed, decoded, standard]
    exact ⟨rfl, rfl⟩
  · rw [if_neg standard, Option.ite_none_right_eq_some, Option.some.injEq, Prod.mk.injEq] at split
    obtain ⟨integrated, rfl, rfl⟩ := split
    right
    rw [addressBlob_of_fromBlob parsed, List.take_append_drop, decoded]
    exact congrArg (fun tag => some (tag, blob)) integrated

theorem addressBlob_ne_nil (addr : AccountPublicAddress) : addressBlob addr ≠ [] := by
  intro empty
  have length := congrArg List.length empty
  cases length

/-- An accepted string is what the address is printed as: the integrated spelling with its payment
id, or the standard spelling of an address that was read without one. -/
theorem printed_of_accepted {paymentId paymentId' : List UInt8} {addr : AccountPublicAddress}
    (run : getAccountAddressAndPaymentIdFromStr E cnFastHash paymentId addrStr =
      some (addr, paymentId')) :
    (getAccountAddressAsStr cnFastHash addr = addrStr ∧ paymentId' = paymentId) ∨
      getAccountAddressAndPaymentIdAsStr cnFastHash addr paymentId' = addrStr := by
  rcases fromStr_some run with ⟨decoded, same⟩ | decoded
  · exact .inl ⟨encodeAddr_of_decodeAddr (addressBlob_ne_nil addr) decoded, same⟩
  · exact .inr (encodeAddr_of_decodeAddr
      (List.append_ne_nil_of_left_ne_nil (addressBlob_ne_nil addr) _) decoded)

/-- Addresses have one spelling, up to the two of an address with an empty payment id. -/
theorem addresses_spelledOnce (E : Env) (cnFastHash : List UInt8 → Hash) :
    (∀ s, Base58.decode (Base58.encode s) = some s) ∧
    (∀ enc s, Base58.decode enc = some s → Base58.encode s = enc) ∧
    (∀ addrStr addr paymentId,
      getAccountAddressAndPaymentIdFromStr E cnFastHash [] addrStr = some (addr, paymentId) →
      (paymentId ≠ [] → getAccountAddressAndPaymentIdAsStr cnFastHash addr paymentId = addrStr) ∧
      (paymentId = [] → getAccountAddressAsStr cnFastHash addr = addrStr ∨
        getAccountAddressAndPaymentIdAsStr cnFastHash addr [] = addrStr)) ∧
    ∀ first second addr paymentId, paymentId ≠ [] →
      getAccountAddressAndPaymentIdFromStr E cnFastHash [] first = some (addr, paymentId) →
      getAccountAddressAndPaymentIdFromStr E cnFastHash [] second = some (addr, paymentId) →
      first = second := by
  have integrated : ∀ addrStr addr paymentId, paymentId ≠ [] →
      getAccountAddressAndPaymentIdFromStr E cnFastHash [] addrStr = some (addr, paymentId) →
      getAccountAddressAndPaymentIdAsStr cnFastHash addr paymentId = addrStr := by
    intro addrStr addr paymentId nonempty run
    rcases printed_of_accepted run with ⟨_, empty⟩ | printed
    · exact absurd empty nonempty
    · exact printed
  refine ⟨Base58.decode_encode, fun _ _ => Base58.encode_of_decode, ?_, ?_⟩
  · intro addrStr addr paymentId run
    refine ⟨fun nonempty => integrated addrStr addr paymentId nonempty run, ?_⟩
    rintro rfl
    exact (printed_of_accepted run).imp_left And.left
  · intro first second addr paymentId nonempty runFirst runSecond
    rw [← integrated first addr paymentId nonempty runFirst]
    exact integrated second addr paymentId nonempty runSecond

end Spelling

/-! ## Two spellings of an address with an empty payment id -/

namespace EmptyPaymentId

def address : AccountPublicAddress := ⟨⟨5⟩, ⟨7⟩⟩

/-- A hash that tells the size of the data. -/
def hash (buf : List UInt8) : Hash := ⟨buf.length⟩

theorem standard_accepted : getAccountAddressAndPaymentIdFromStr .plain hash []
    (getAccountAddressAsStr hash address) = some (address, []) := by
  decide +kernel

theorem integrated_accepted : getAccountAddressAndPaymentIdFromStr .plain hash []
    (getAccountAddressAndPaymentIdAsStr hash address []) = some (address, []) := by
  decide +kernel

/-- Both spellings are accepted and denote the same. -/
theorem spelledTwice :
    ¬ ∀ (E : Env) (cnFastHash : List UInt8 → Hash) (first second : List UInt8)
        (addr : AccountPublicAddress) (paymentId : List UInt8),
      getAccountAddressAndPaymentIdFromStr E cnFastHash [] first = some (addr, paymentId) →
      getAccountAddressAndPaymentIdFromStr E cnFastHash [] second = some (addr, paymentId) →
      first = second := by
  intro claim
  have same := claim .plain hash _ _ address [] standard_accepted integrated_accepted
  exact absurd same (by decide +kernel)

end EmptyPaymentId

namespace ShortPaymentId

open EmptyPaymentId

/-- An integrated address with a payment id of two bytes. -/
def addrStr : List UInt8 :=
  ("h9LgK1sbK191111111111111111111111111111111111114VBDYShM111111111111111111111111111111" ++
    "1111111W8zxJyd").toList.map fun c => UInt8.ofNat c.toNat

theorem accepted : getAccountAddressAndPaymentIdFromStr .plain hash [] addrStr =
    some (address, [1, 2]) := by
  decide

/-- The address is printed as it was read. -/
theorem printed : getAccountAddressAndPaymentIdAsStr hash address [1, 2] = addrStr :=
  ((addresses_spelledOnce .plain hash).2.2.1 addrStr address [1, 2] accepted).1 (by decide)

end ShortPaymentId
end Virie
