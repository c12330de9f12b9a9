import Virie.Storage.Transactions
import Virie.Foundation.Sorting

/-! # The offers service

The market keeps a table of offers. Service attachments of transactions add offers, update them
and cancel them; the attachments of a block that leaves the chain are handled in reverse. An
update puts a new offer into the table and links the old one to it by the text of the new id. -/

open Foundation

namespace Virie

def bcOffersServiceInstructionAdd : String := "ADD"
def bcOffersServiceInstructionUpd : String := "UPD"

/-- Thirty days in seconds. -/
def offerMaximumLifeTime : Nat := 60 * 60 * 24 * 30

/-! ## Offers and instructions -/

structure OfferDetails where
  offerType : Nat
  amountPrimary : Nat
  amountTarget : Nat
  bonus : String
  target : String
  primary : String
  locationCountry : String
  locationCity : String
  contacts : String
  comment : String
  paymentTypes : String
  dealOption : String
  category : String
  expirationTime : Nat
deriving DecidableEq, Inhabited

/-- An offer with what its transaction says about it. -/
structure OfferDetailsEx extends OfferDetails where
  txHash : Hash
  txOriginalHash : Hash
  indexInTx : Nat
  timestamp : Nat
  fee : Nat
  /-- The key that signs updates and cancellations. -/
  security : PublicKey
  stopped : Bool
deriving DecidableEq, Inhabited

structure OfferDetailsExWithHash extends OfferDetailsEx where
  h : Hash
  /-- The id of the offer that updated this one, empty without an update. -/
  nxtOffer : String
deriving DecidableEq, Inhabited

structure CancelOffer where
  txId : Hash
  offerIndex : Nat
  sig : Signature
deriving DecidableEq, Inhabited

structure UpdateOffer where
  txId : Hash
  offerIndex : Nat
  sig : Signature
  of : OfferDetails
deriving DecidableEq, Inhabited

inductive OffersAttachment where
  | offerDetails (od : OfferDetails)
  | updateOffer (uo : UpdateOffer)
  | cancelOffer (co : CancelOffer)
deriving DecidableEq, Inhabited

/-- The id under which a query or an instruction names an offer. -/
structure OfferId where
  txId : Hash
  index : Nat
deriving DecidableEq, Inhabited

/-- The formats that the service reads and writes: the compression of bodies, the texts of
instructions, the hashes that are signed, and the texts of ids. -/
structure OfferFormats where
  unpack : String → Option String
  loadOfferDetails : String → Option OfferDetails
  loadUpdateOffer : String → Option UpdateOffer
  loadCancelOffer : String → Option CancelOffer
  /-- The hash of the blob that an update or a cancellation signs. -/
  updateSigHash : UpdateOffer → Hash
  cancelSigHash : CancelOffer → Hash
  podToHex : Hash → String
  parseTpodFromHexString : String → Option Hash

/-- The text of an id is not empty and is read back. -/
structure OfferFormats.Spells (F : OfferFormats) : Prop where
  parse_hex : ∀ h, F.parseTpodFromHexString (F.podToHex h) = some h
  hex_ne : ∀ h, F.podToHex h ≠ ""

/-- The first eight bytes of the hash, the lowest byte first, are combined with the index. -/
def offerIdFromHashAndIndex (txId : Hash) (index : Nat) : Hash :=
  ⟨txId.val ^^^ (List.range 8).foldl
    (fun mask byte => mask + index / 256 ^ byte % 256 * 256 ^ (31 - byte)) 0⟩

/-- The id under which the offer is kept. -/
def OfferId.hash (oid : OfferId) : Hash := offerIdFromHashAndIndex oid.txId oid.index

/-! ## The service -/

/-- The offers by id. -/
abbrev OffersContainer := Container Hash OfferDetailsExWithHash

structure OffersService where
  offers : OffersContainer
  lastTrimedHeight : Nat
  disabled : Bool

/-- An attachment in its place: its number among the service attachments of its transaction. -/
structure ServiceEntry where
  attachment : TxServiceAttachment
  index : Nat
  tx : Transaction

namespace ServiceEntry

/-- The id of the offer that an entry adds. -/
def ownId (E : Env) (entry : ServiceEntry) : Hash :=
  offerIdFromHashAndIndex (getTransactionHash E entry.tx.toTransactionPrefix) entry.index

/-- The offer that an entry adds, with the last of its keys. Every service attachment of the
transaction pays the same part of the fee; the transaction has at least this one. -/
def newOffer (E : Env) (entry : ServiceEntry) (od : OfferDetails) (timestamp : Nat)
    (security : PublicKey) : OfferDetailsExWithHash :=
  { od with
    txHash := getTransactionHash E entry.tx.toTransactionPrefix
    txOriginalHash := nullHash
    indexInTx := entry.index
    timestamp
    fee := entry.tx.getTxFee / (serviceAttachments entry.tx).length
    security
    stopped := false
    h := entry.ownId E
    nxtOffer := "" }

end ServiceEntry

section Handling

variable (E : Env) (F : OfferFormats)

/-- The table refuses a second offer with an id without a word. -/
def putOfferToContainer (offer : OfferDetailsExWithHash) (offers : OffersContainer) :
    OffersContainer :=
  if offers.has offer.h then offers else offers.set offer.h offer

def validateModifyOrderSignature (odeh : OfferDetailsExWithHash) (sigHash : Hash)
    (sig : Signature) : Bool :=
  !odeh.stopped && E.checkSignature sigHash odeh.security sig

/-- The offer that a valid cancellation cancels. -/
def validateCancelOrder (co : CancelOffer) (offers : OffersContainer) :
    Option OfferDetailsExWithHash := do
  let oit ← offers.get (offerIdFromHashAndIndex co.txId co.offerIndex)
  if validateModifyOrderSignature E oit (F.cancelSigHash co) co.sig then some oit else none

/-! ### Pushing -/

/-- The table after a pushed instruction, `none` when the instruction is refused. -/
def handlePush (entry : ServiceEntry) (timestamp : Nat) (offers : OffersContainer) :
    OffersAttachment → Option OffersContainer
  | .offerDetails od => do
    let security ← entry.attachment.security.getLast?
    some (putOfferToContainer (entry.newOffer E od timestamp security) offers)
  | .updateOffer uo => do
    let offerId := offerIdFromHashAndIndex uo.txId uo.offerIndex
    let it ← offers.get offerId
    if validateModifyOrderSignature E it (F.updateSigHash uo) uo.sig then
      let security ← entry.attachment.security.getLast?
      -- the new offer keeps the timestamp of the first one
      let newOff := entry.newOffer E uo.of it.timestamp security
      let offers := putOfferToContainer newOff offers
      some (offers.set offerId { it with nxtOffer := F.podToHex newOff.h, stopped := true })
    else none
  | .cancelOffer co => do
    let it ← validateCancelOrder E F co offers
    some (offers.set (offerIdFromHashAndIndex co.txId co.offerIndex) { it with stopped := true })

/-! ### Popping -/

/-- The table after a popped instruction, `none` when the instruction is refused. -/
def handlePop (entry : ServiceEntry) (offers : OffersContainer) :
    OffersAttachment → Option OffersContainer
  | .offerDetails _ => some (offers.erase (entry.ownId E))
  | .updateOffer uo => do
    let oid := entry.ownId E
    let originalOid := offerIdFromHashAndIndex uo.txId uo.offerIndex
    let _ ← offers.get oid
    let originalIt ← offers.get originalOid
    some ((offers.set originalOid { originalIt with stopped := false, nxtOffer := "" }).erase oid)
  | .cancelOffer co => do
    let offerId := offerIdFromHashAndIndex co.txId co.offerIndex
    let oit ← offers.get offerId
    if oit.stopped then some (offers.set offerId { oit with stopped := false }) else none

/-! ### Trimming -/

/-- The life of an offer is over; machine words wrap around. -/
def offerOutlived (currentTime timestamp : Nat) : Bool :=
  decide (addU64 timestamp offerMaximumLifeTime < currentTime)

/-- Drop the oldest offers up to the first one that is still alive. -/
def trimOffers (currentTime : Nat) (offers : OffersContainer) : OffersContainer :=
  let index := offers.toList.mergeSort fun a b => decide (a.2.timestamp ≤ b.2.timestamp)
  ((index.takeWhile fun offer => offerOutlived currentTime offer.2.timestamp).map Prod.fst).foldl
    Container.erase offers

/-- Offers are trimmed once a day. -/
def trimDaily (h currentTime : Nat) (service : OffersService) : OffersService :=
  if service.lastTrimedHeight ≠ h ∧ h % currencyBlocksPerDay = 0 then
    { service with
      offers := trimOffers currentTime service.offers
      lastTrimedHeight := h }
  else service

/-! ### Entries -/

/-- The instruction of an attachment, when its text is one. -/
def loadInstruction (instruction jsonBuff : String) : Option OffersAttachment :=
  if instruction = bcOffersServiceInstructionAdd then
    (F.loadOfferDetails jsonBuff).map .offerDetails
  else if instruction = bcOffersServiceInstructionUpd then
    (F.loadUpdateOffer jsonBuff).map .updateOffer
  else if instruction = bcOffersServiceInstructionDel then
    (F.loadCancelOffer jsonBuff).map .cancelOffer
  else none

/-- A refused instruction leaves the table as it is. -/
def OffersService.handleEntryPush (entry : ServiceEntry) (timestamp : Nat)
    (service : OffersService) : OffersService :=
  if service.disabled then service
  else
    match F.unpack entry.attachment.body with
    | none => service
    | some jsonBuff =>
      let pushed := (loadInstruction F entry.attachment.instruction jsonBuff).bind
        (handlePush E F entry timestamp service.offers)
      { service with offers := pushed.getD service.offers }

/-- The offers are trimmed after the instruction, whether it was refused or not. -/
def OffersService.handleEntryPop (entry : ServiceEntry) (h currentTime : Nat)
    (service : OffersService) : OffersService :=
  if service.disabled then service
  else
    match F.unpack entry.attachment.body with
    | none => service
    | some jsonBuff =>
      let popped := (loadInstruction F entry.attachment.instruction jsonBuff).bind
        (handlePop E entry service.offers)
      trimDaily h currentTime { service with offers := popped.getD service.offers }

/-! ### Transactions -/

/-- The service attachments of a transaction that are for the offers service, in their places. -/
def offerEntries (tx : Transaction) : List ServiceEntry :=
  ((serviceAttachments tx).zipIdx.filter fun a => a.1.serviceId == bcOffersServiceId).map
    fun a => ⟨a.1, a.2, tx⟩

def OffersService.processTxAttachments (tx : Transaction) (timestamp : Nat)
    (service : OffersService) : OffersService :=
  (offerEntries tx).foldl (fun service entry => service.handleEntryPush E F entry timestamp) service

def OffersService.unprocessTxAttachments (tx : Transaction) (h currentTime : Nat)
    (service : OffersService) : OffersService :=
  (offerEntries tx).reverse.foldl
    (fun service entry => service.handleEntryPop E F entry h currentTime) service

/-! ## Queries -/

/-- An offer as the answer to a query for an id, which may be that of an older offer. -/
def answerTo (id : OfferId) (it : OfferDetailsExWithHash) : OfferDetailsEx :=
  if it.txHash ≠ id.txId then { it.toOfferDetailsEx with txOriginalHash := id.txId }
  else it.toOfferDetailsEx

/-- The offer of an id, or the one that its link names. -/
def getOfferById (offers : OffersContainer) (id : OfferId) : Option OfferDetailsEx := do
  let ofId := id.hash
  if ofId = nullHash then none
  else
    let queried ← offers.get ofId
    let it ←
      if queried.nxtOffer = "" then some queried
      else
        match F.parseTpodFromHexString queried.nxtOffer with
        | none => some queried
        | some nxtH => offers.get nxtH
    some (answerTo id it)

def getOffersById (offers : OffersContainer) (ids : List OfferId) : List OfferDetailsEx :=
  ids.filterMap (getOfferById F offers)

end Handling

/-! ## Formats of concrete runs -/

def hexValue (c : Char) : Nat := if c.isDigit then c.toNat - 48 else c.toNat - 87

/-- The hexadecimal digits of a number, the lowest one first, at least 64 of them. -/
def hexDigits (n : Nat) : List Nat :=
  Nat.digits 16 n ++ List.replicate (64 - (Nat.digits 16 n).length) 0

/-- Simple formats for concrete runs: bodies are not packed, and updates and cancellations name
the first offer of the transaction whose id their text spells in decimal digits. -/
def OfferFormats.plain : OfferFormats where
  unpack := some
  loadOfferDetails _ := some default
  loadUpdateOffer text := some ⟨⟨Nat.ofDigitChars 10 text.toList 0⟩, 0, ⟨0⟩, default⟩
  loadCancelOffer text := some ⟨⟨Nat.ofDigitChars 10 text.toList 0⟩, 0, ⟨0⟩⟩
  updateSigHash uo := uo.txId
  cancelSigHash co := co.txId
  podToHex h := String.ofList ((hexDigits h.val).reverse.map Nat.digitChar)
  parseTpodFromHexString text := some ⟨Nat.ofDigits 16 (text.toList.reverse.map hexValue)⟩

theorem OfferFormats.plain_spells : OfferFormats.plain.Spells where
  parse_hex h := by
    have values : ∀ d < 16, hexValue (Nat.digitChar d) = d := by
      decide
    have small : ∀ d ∈ hexDigits h.val, d < 16 := by
      intro d listed
      rcases List.mem_append.mp listed with digit | zero
      · exact Nat.digits_lt_base (by decide) digit
      · rw [List.eq_of_mem_replicate zero]
        decide
    have read : ((hexDigits h.val).map Nat.digitChar).map hexValue = hexDigits h.val := by
      rw [List.map_map]
      exact (List.map_congr_left fun d listed => values d (small d listed)).trans (List.map_id' _)
    change some (Hash.mk (Nat.ofDigits 16 ((String.ofList _).toList.reverse.map hexValue))) = _
    simp only [String.toList_ofList, List.map_reverse, List.reverse_reverse]
    rw [read, hexDigits, Nat.ofDigits_append_replicate_zero, Nat.ofDigits_digits]
  hex_ne h := by
    intro empty
    have chars := congrArg String.toList empty
    change (String.ofList _).toList = [] at chars
    rw [String.toList_ofList, List.map_eq_nil_iff, List.reverse_eq_nil_iff] at chars
    have long := congrArg List.length chars
    rw [hexDigits, List.length_append, List.length_replicate, List.length_nil] at long
    omega

/-- The first entry of a transaction with an instruction. -/
def ServiceEntry.plain (txId : Nat) (instruction body : String) : ServiceEntry where
  attachment := ⟨bcOffersServiceId, instruction, body, [⟨0⟩], 0⟩
  index := 0
  tx :=
    { version := txId
      vin := []
      vout := []
      extra := []
      signatures := []
      attachment := [.txServiceAttachment ⟨bcOffersServiceId, instruction, body, [⟨0⟩], 0⟩] }

end Virie
