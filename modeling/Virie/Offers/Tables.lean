import Virie.Offers.Service

/-! # What the offers service does to its table

An entry changes the table by the instruction that it is read as, if any. Popping an instruction
that was just pushed leaves a table that has no other offers than before. Trimming keeps the
offers whose timestamps it keeps. -/

open Foundation

namespace Foundation.Container

variable {K V : Type} [Key K] [DecidableEq K]

@[simp] theorem erase_set_self (c : Container K V) (k : K) (v : V) :
    (c.set k v).erase k = c.erase k := by
  ext1 l
  rw [get_erase, get_erase]
  split
  · rfl
  · next apart => rw [get_set_of_ne c v apart]

theorem erase_eq_self_iff (c : Container K V) (k : K) : c.erase k = c ↔ c.get k = none := by
  constructor
  · intro same
    rw [← same, get_erase_self]
  · intro absent
    ext1 l
    rw [get_erase]
    split
    · next same => rw [← same, absent]
    · rfl

omit [DecidableEq K] in
theorem set_eq_self_iff (c : Container K V) (k : K) (v : V) :
    c.set k v = c ↔ c.get k = some v := by
  constructor
  · intro same
    rw [← same, get_set_self]
  · exact set_get c k v

theorem set_erase_of_ne (c : Container K V) {k l : K} (v : V) (apart : k ≠ l) :
    (c.set k v).erase l = (c.erase l).set k v := by
  ext1 m
  rw [get_erase, get_set, get_set, get_erase]
  by_cases erased : l = m
  · subst erased
    rw [if_pos rfl, if_neg apart, if_pos rfl]
  · rw [if_neg erased, if_neg erased]

end Foundation.Container

namespace Virie

section Tables

variable {E : Env} {F : OfferFormats} {entry : ServiceEntry} {timestamp h currentTime : Nat}
  {offers : OffersContainer} {service : OffersService}

/-! ## Entries -/

/-- The body of an attachment can be unpacked, and the service is not disabled. -/
def OffersService.readable (F : OfferFormats) (service : OffersService)
    (a : TxServiceAttachment) : Bool :=
  !service.disabled && (F.unpack a.body).isSome

/-- The instruction that the service reads from an attachment. -/
def OffersService.instructionOf (F : OfferFormats) (service : OffersService)
    (a : TxServiceAttachment) : Option OffersAttachment :=
  if service.disabled then none
  else (F.unpack a.body).bind (loadInstruction F a.instruction)

/-- The table after a pushed instruction that may be refused. -/
def pushed (E : Env) (F : OfferFormats) (entry : ServiceEntry) (timestamp : Nat)
    (offers : OffersContainer) (instruction : OffersAttachment) : OffersContainer :=
  (handlePush E F entry timestamp offers instruction).getD offers

def popped (E : Env) (entry : ServiceEntry) (offers : OffersContainer)
    (instruction : OffersAttachment) : OffersContainer :=
  (handlePop E entry offers instruction).getD offers

theorem handleEntryPush_eq :
    service.handleEntryPush E F entry timestamp =
      { service with
        offers := ((service.instructionOf F entry.attachment).map
          (pushed E F entry timestamp service.offers)).getD service.offers } := by
  unfold OffersService.handleEntryPush OffersService.instructionOf
  split
  · rfl
  · cases F.unpack entry.attachment.body with
    | none => rfl
    | some jsonBuff =>
      dsimp only [Option.bind_some]
      cases loadInstruction F entry.attachment.instruction jsonBuff <;> rfl

theorem handleEntryPop_eq :
    service.handleEntryPop E F entry h currentTime =
      if service.readable F entry.attachment then
        trimDaily h currentTime { service with
          offers := ((service.instructionOf F entry.attachment).map
            (popped E entry service.offers)).getD service.offers }
      else service := by
  unfold OffersService.handleEntryPop OffersService.instructionOf OffersService.readable
  cases service.disabled with
  | true => rfl
  | false =>
    cases F.unpack entry.attachment.body with
    | none => rfl
    | some jsonBuff =>
      simp only [Option.bind_some, Option.isSome_some, Bool.not_false, Bool.and_self,
        Bool.false_eq_true, ↓reduceIte]
      cases loadInstruction F entry.attachment.instruction jsonBuff <;> rfl

/-- An attachment without an instruction may be unreadable or of another kind. -/
theorem readable_of_instructionOf {instruction : OffersAttachment}
    (reads : service.instructionOf F entry.attachment = some instruction) :
    service.readable F entry.attachment = true := by
  unfold OffersService.instructionOf at reads
  unfold OffersService.readable
  cases enabled : service.disabled with
  | true =>
    rw [enabled, if_pos rfl] at reads
    cases reads
  | false =>
    rw [enabled, if_neg (by simp)] at reads
    obtain ⟨jsonBuff, unpacked, _⟩ := Option.bind_eq_some_iff.mp reads
    rw [unpacked]
    rfl

/-! ## Instructions -/

theorem putOfferToContainer_fresh {offer : OfferDetailsExWithHash}
    (fresh : offers.get offer.h = none) :
    putOfferToContainer offer offers = offers.set offer.h offer := by
  unfold putOfferToContainer Container.has
  rw [fresh]
  rfl

theorem putOfferToContainer_present {offer old : OfferDetailsExWithHash}
    (present : offers.get offer.h = some old) : putOfferToContainer offer offers = offers := by
  unfold putOfferToContainer Container.has
  rw [present]
  rfl

/-- The offer that an update or a cancellation names. -/
def UpdateOffer.originalId (uo : UpdateOffer) : Hash :=
  offerIdFromHashAndIndex uo.txId uo.offerIndex

def CancelOffer.offerId (co : CancelOffer) : Hash :=
  offerIdFromHashAndIndex co.txId co.offerIndex

/-- An update of an offer is accepted. -/
def Updates (E : Env) (F : OfferFormats) (entry : ServiceEntry) (uo : UpdateOffer)
    (original : OfferDetailsExWithHash) : Prop :=
  validateModifyOrderSignature E original (F.updateSigHash uo) uo.sig = true ∧
    entry.attachment.security ≠ []

theorem Updates.active {uo : UpdateOffer} {original : OfferDetailsExWithHash}
    (updates : Updates E F entry uo original) : original.stopped = false := by
  have valid := updates.1
  rw [validateModifyOrderSignature, Bool.and_eq_true, Bool.not_eq_true'] at valid
  exact valid.1

/-- An added offer enters a table without its id. -/
theorem pushed_add (od : OfferDetails) :
    pushed E F entry timestamp offers (.offerDetails od) = offers ∨
      ∃ security, offers.get (entry.ownId E) = none ∧
        pushed E F entry timestamp offers (.offerDetails od) =
          offers.set (entry.ownId E) (entry.newOffer E od timestamp security) := by
  unfold pushed handlePush
  cases entry.attachment.security.getLast? with
  | none => exact .inl rfl
  | some security =>
    dsimp only [Option.bind_eq_bind, Option.bind_some, Option.getD_some]
    cases present : offers.get (entry.ownId E) with
    | none => exact .inr ⟨security, rfl, putOfferToContainer_fresh present⟩
    | some old => exact .inl (putOfferToContainer_present present)

theorem pushed_update_absent {uo : UpdateOffer} (absent : offers.get uo.originalId = none) :
    pushed E F entry timestamp offers (.updateOffer uo) = offers := by
  unfold pushed handlePush
  rw [UpdateOffer.originalId] at absent
  dsimp only
  rw [absent]
  rfl

theorem pushed_update_refused {uo : UpdateOffer} {original : OfferDetailsExWithHash}
    (found : offers.get uo.originalId = some original)
    (refused : ¬Updates E F entry uo original) :
    pushed E F entry timestamp offers (.updateOffer uo) = offers := by
  unfold pushed handlePush
  rw [UpdateOffer.originalId] at found
  dsimp only
  rw [found]
  dsimp only [Option.bind_eq_bind, Option.bind_some]
  split
  · next valid =>
    have keyless : entry.attachment.security = [] := by
      by_contra keys
      exact refused ⟨valid, keys⟩
    rw [keyless]
    rfl
  · rfl

theorem pushed_update_accepted {uo : UpdateOffer} {original : OfferDetailsExWithHash}
    (found : offers.get uo.originalId = some original)
    (updates : Updates E F entry uo original) :
    ∃ security, pushed E F entry timestamp offers (.updateOffer uo) =
      (putOfferToContainer (entry.newOffer E uo.of original.timestamp security) offers).set
        uo.originalId
        { original with nxtOffer := F.podToHex (entry.ownId E), stopped := true } := by
  obtain ⟨valid, keys⟩ := updates
  refine ⟨entry.attachment.security.getLast keys, ?_⟩
  unfold pushed handlePush
  rw [UpdateOffer.originalId] at found
  dsimp only
  rw [found]
  dsimp only [Option.bind_eq_bind, Option.bind_some]
  rw [if_pos valid, List.getLast?_eq_some_getLast keys]
  rfl

theorem pushed_update_fresh {uo : UpdateOffer} {original : OfferDetailsExWithHash}
    (found : offers.get uo.originalId = some original)
    (updates : Updates E F entry uo original) (fresh : offers.get (entry.ownId E) = none) :
    ∃ security, pushed E F entry timestamp offers (.updateOffer uo) =
      (offers.set (entry.ownId E) (entry.newOffer E uo.of original.timestamp security)).set
        uo.originalId
        { original with nxtOffer := F.podToHex (entry.ownId E), stopped := true } := by
  obtain ⟨security, accepted⟩ := @pushed_update_accepted E F entry timestamp _ _ _ found updates
  refine ⟨security, ?_⟩
  rw [accepted, putOfferToContainer_fresh fresh]
  rfl

theorem pushed_update_taken {uo : UpdateOffer} {original taken : OfferDetailsExWithHash}
    (found : offers.get uo.originalId = some original)
    (updates : Updates E F entry uo original) (present : offers.get (entry.ownId E) = some taken) :
    pushed E F entry timestamp offers (.updateOffer uo) = offers.set uo.originalId
      { original with nxtOffer := F.podToHex (entry.ownId E), stopped := true } := by
  obtain ⟨security, accepted⟩ := @pushed_update_accepted E F entry timestamp _ _ _ found updates
  rw [accepted, @putOfferToContainer_present _ _ taken present]

/-- A cancellation may stop an offer. -/
theorem pushed_cancel (co : CancelOffer) :
    pushed E F entry timestamp offers (.cancelOffer co) = offers ∨
      ∃ offer, offers.get co.offerId = some offer ∧ offer.stopped = false ∧
        pushed E F entry timestamp offers (.cancelOffer co) =
          offers.set co.offerId { offer with stopped := true } := by
  unfold pushed handlePush validateCancelOrder CancelOffer.offerId
  dsimp only
  cases found : offers.get (offerIdFromHashAndIndex co.txId co.offerIndex) with
  | none => exact .inl rfl
  | some offer =>
    dsimp only [Option.bind_eq_bind, Option.bind_some]
    cases valid : validateModifyOrderSignature E offer (F.cancelSigHash co) co.sig with
    | false => exact .inl rfl
    | true =>
      rw [validateModifyOrderSignature, Bool.and_eq_true, Bool.not_eq_true'] at valid
      exact .inr ⟨offer, rfl, valid.1, rfl⟩

theorem popped_add (od : OfferDetails) :
    popped E entry offers (.offerDetails od) = offers.erase (entry.ownId E) := rfl

theorem popped_update_unknown {uo : UpdateOffer}
    (unknown : offers.get (entry.ownId E) = none ∨ offers.get uo.originalId = none) :
    popped E entry offers (.updateOffer uo) = offers := by
  unfold popped handlePop
  rw [UpdateOffer.originalId] at unknown
  dsimp only
  rcases unknown with absent | absent
  · rw [absent]
    rfl
  · cases offers.get (entry.ownId E) with
    | none => rfl
    | some _ =>
      rw [absent]
      rfl

theorem popped_update_known {uo : UpdateOffer} {offer original : OfferDetailsExWithHash}
    (own : offers.get (entry.ownId E) = some offer)
    (found : offers.get uo.originalId = some original) :
    popped E entry offers (.updateOffer uo) =
      (offers.set uo.originalId { original with stopped := false, nxtOffer := "" }).erase
        (entry.ownId E) := by
  unfold popped handlePop
  rw [UpdateOffer.originalId] at found ⊢
  dsimp only
  rw [own]
  dsimp only [Option.bind_eq_bind, Option.bind_some]
  rw [found]
  rfl

theorem popped_cancel_absent {co : CancelOffer} (absent : offers.get co.offerId = none) :
    popped E entry offers (.cancelOffer co) = offers := by
  unfold popped handlePop
  rw [CancelOffer.offerId] at absent
  dsimp only
  rw [absent]
  rfl

/-- A popped cancellation leaves the offer active. -/
theorem popped_cancel_present {co : CancelOffer} {offer : OfferDetailsExWithHash}
    (found : offers.get co.offerId = some offer) :
    popped E entry offers (.cancelOffer co) =
      offers.set co.offerId { offer with stopped := false } := by
  unfold popped handlePop
  rw [CancelOffer.offerId] at found ⊢
  dsimp only
  rw [found]
  dsimp only [Option.bind_eq_bind, Option.bind_some]
  cases active : offer.stopped with
  | true => rfl
  | false =>
    have same : { offer with stopped := false } = offer := by
      rw [← active]
    rw [same, Container.set_get _ _ _ found]
    rfl

/-! ## Trimming -/

/-- Some offer up to a timestamp is still alive. -/
def Lasts (currentTime : Nat) (offers : OffersContainer) (timestamp : Nat) : Prop :=
  ∃ k offer, offers.get k = some offer ∧ offer.timestamp ≤ timestamp ∧
    offerOutlived currentTime offer.timestamp = false

/-- Trimming drops the offers up to whose timestamps all are outlived. -/
theorem get_trimOffers (k : Hash) (offer : OfferDetailsExWithHash) :
    (trimOffers currentTime offers).get k = some offer ↔
      offers.get k = some offer ∧ Lasts currentTime offers offer.timestamp := by
  unfold trimOffers
  dsimp only
  have sorted : (offers.toList.mergeSort fun a b =>
      decide (a.2.timestamp ≤ b.2.timestamp)).Pairwise
        fun a b => a.2.timestamp ≤ b.2.timestamp := by
    refine List.Pairwise.imp (fun le => of_decide_eq_true le)
      (List.pairwise_mergeSort ?_ ?_ offers.toList)
    · intro a b c first second
      rw [decide_eq_true_eq] at first second ⊢
      exact first.trans second
    · intro a b
      rw [Bool.or_eq_true, decide_eq_true_eq, decide_eq_true_eq]
      exact Nat.le_total _ _
  have listed : ∀ a : Hash × OfferDetailsExWithHash,
      a ∈ (offers.toList.mergeSort fun a b => decide (a.2.timestamp ≤ b.2.timestamp)) ↔
        offers.get a.1 = some a.2 := by
    intro a
    rw [List.mem_mergeSort]
    exact Container.mem_toList offers a.1 a.2
  have taken := fun a => @mem_takeWhile_of_sorted _ (fun a : Hash × OfferDetailsExWithHash =>
    a.2.timestamp) (offerOutlived currentTime) _ a sorted
  rw [Container.get_eraseAll]
  constructor
  · intro kept
    split at kept
    · cases kept
    · next stays =>
      refine ⟨kept, ?_⟩
      by_contra gone
      apply stays
      refine List.mem_map.mpr
        ⟨(k, offer), (taken _).mpr ⟨(listed _).mpr kept, fun b inside below => ?_⟩, rfl⟩
      by_contra alive
      exact gone ⟨b.1, b.2, (listed b).mp inside, below, Bool.eq_false_of_not_eq_true alive⟩
  · rintro ⟨present, l, old, found, below, alive⟩
    rw [if_neg, present]
    intro member
    obtain ⟨⟨j, other⟩, erased, same⟩ := List.mem_map.mp member
    dsimp only at same
    subst same
    obtain ⟨inside, all⟩ := (taken _).mp erased
    have equal : other = offer := Option.some.inj (((listed _).mp inside).symm.trans present)
    have ended := all (l, old) ((listed _).mpr found) (equal ▸ below)
    rw [alive] at ended
    cases ended

end Tables
end Virie
