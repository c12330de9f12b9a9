import Virie.Offers.Tables

/-! # Taking back offer instructions

When a block leaves the chain the offer instructions of its transactions are popped in reverse.
Popping does not know whether the instruction was accepted when it was pushed: it looks at the
table alone. A cancellation of an offer that was already stopped is refused, and popping it makes
the offer active. The exact states are given in which popping an entry takes back what pushing
it did; a transaction whose entries all meet such states is taken back as a whole. -/

open Foundation

namespace Virie

section Undo

variable {E : Env} {F : OfferFormats} {entry : ServiceEntry} {timestamp h currentTime : Nat}
  {offers : OffersContainer} {service : OffersService}

/-- The states in which popping an instruction takes back what pushing it did. -/
def UndoesPush (E : Env) (F : OfferFormats) (entry : ServiceEntry) (offers : OffersContainer) :
    OffersAttachment → Prop
  | .offerDetails _ => offers.get (entry.ownId E) = none
  | .updateOffer uo => ∀ original, offers.get uo.originalId = some original →
      offers.get (entry.ownId E) = none ∧
        (Updates E F entry uo original → original.nxtOffer = "")
  | .cancelOffer co => ∀ offer, offers.get co.offerId = some offer → offer.stopped = false

/-- The oldest offers of a table are still alive. -/
def OldestAlive (currentTime : Nat) (offers : OffersContainer) : Prop :=
  ∀ k offer, offers.get k = some offer →
    (∀ l other, offers.get l = some other → offer.timestamp ≤ other.timestamp) →
    offerOutlived currentTime offer.timestamp = false

/-- Popping at a height trims the offers. -/
def OffersService.TrimDue (h : Nat) (service : OffersService) : Prop :=
  service.lastTrimedHeight ≠ h ∧ h % currencyBlocksPerDay = 0

/-- The states in which popping an entry takes back what pushing it did: its instruction meets
such a state, and no offer is trimmed. -/
def EntryUndone (E : Env) (F : OfferFormats) (h currentTime : Nat) (entry : ServiceEntry)
    (service : OffersService) : Prop :=
  (∀ instruction, service.instructionOf F entry.attachment = some instruction →
    UndoesPush E F entry service.offers instruction) ∧
  (service.readable F entry.attachment = true → service.TrimDue h →
    OldestAlive currentTime service.offers)

/-- Each of several entries meets such a state when it is pushed. Only the last one that can be
read trims the offers: it is popped first. -/
def EntriesUndone (E : Env) (F : OfferFormats) (timestamp h currentTime : Nat) :
    OffersService → List ServiceEntry → Prop
  | _, [] => True
  | service, entry :: rest =>
    ((∀ instruction, service.instructionOf F entry.attachment = some instruction →
        UndoesPush E F entry service.offers instruction) ∧
      (service.readable F entry.attachment = true →
        (∀ later ∈ rest, service.readable F later.attachment = false) → service.TrimDue h →
          OldestAlive currentTime service.offers)) ∧
    EntriesUndone E F timestamp h currentTime (service.handleEntryPush E F entry timestamp) rest

def OffersService.pushAll (E : Env) (F : OfferFormats) (entries : List ServiceEntry)
    (timestamp : Nat) (service : OffersService) : OffersService :=
  entries.foldl (fun service entry => service.handleEntryPush E F entry timestamp) service

def OffersService.popAll (E : Env) (F : OfferFormats) (entries : List ServiceEntry)
    (h currentTime : Nat) (service : OffersService) : OffersService :=
  entries.reverse.foldl (fun service entry => service.handleEntryPop E F entry h currentTime)
    service

/-- Popping entries in reverse passes the tables that pushing them passed, one after the
other. -/
def Retraced (E : Env) (F : OfferFormats) (timestamp h currentTime : Nat) :
    OffersService → List ServiceEntry → Prop
  | _, [] => True
  | service, entry :: rest =>
    ((service.pushAll E F (entry :: rest) timestamp).popAll E F (entry :: rest) h
        currentTime).offers = service.offers ∧
      Retraced E F timestamp h currentTime (service.handleEntryPush E F entry timestamp) rest

/-! ## Instructions -/

theorem popped_pushed_add (od : OfferDetails) :
    popped E entry (pushed E F entry timestamp offers (.offerDetails od)) (.offerDetails od) =
      offers.erase (entry.ownId E) := by
  rw [popped_add]
  rcases @pushed_add E F entry timestamp offers od with refused | ⟨security, _, accepted⟩
  · rw [refused]
  · rw [accepted, Container.erase_set_self]

/-- An active offer is what is left of a cancellation. -/
theorem popped_pushed_cancel {co : CancelOffer} {offer : OfferDetailsExWithHash}
    (found : offers.get co.offerId = some offer) :
    popped E entry (pushed E F entry timestamp offers (.cancelOffer co)) (.cancelOffer co) =
      offers.set co.offerId { offer with stopped := false } := by
  rcases @pushed_cancel E F entry timestamp offers co with refused | ⟨same, present, _, accepted⟩
  · rw [refused, popped_cancel_present found]
  · cases found.symm.trans present
    rw [accepted, popped_cancel_present (Container.get_set_self _ _ _), Container.set_set]

/-- An update under a fresh id leaves the original active and without a link. -/
theorem popped_pushed_update {uo : UpdateOffer} {original : OfferDetailsExWithHash}
    (found : offers.get uo.originalId = some original)
    (fresh : offers.get (entry.ownId E) = none) (updates : Updates E F entry uo original) :
    popped E entry (pushed E F entry timestamp offers (.updateOffer uo)) (.updateOffer uo) =
      offers.set uo.originalId { original with nxtOffer := "" } := by
  have apart : entry.ownId E ≠ uo.originalId := by
    intro same
    rw [same, found] at fresh
    cases fresh
  obtain ⟨security, accepted⟩ := @pushed_update_fresh E F entry timestamp _ _ _ found updates fresh
  rw [accepted, popped_update_known
    ((Container.get_set_of_ne _ _ apart.symm).trans (Container.get_set_self _ _ _))
    (Container.get_set_self _ _ _)]
  rw [Container.set_set, Container.set_erase_of_ne _ _ apart.symm, Container.erase_set_self,
    (Container.erase_eq_self_iff _ _).mpr fresh, ← updates.active]

/-- An offer under the id of the update is lost. -/
theorem popped_pushed_update_taken {uo : UpdateOffer}
    {original taken : OfferDetailsExWithHash}
    (found : offers.get uo.originalId = some original)
    (present : offers.get (entry.ownId E) = some taken) :
    (popped E entry (pushed E F entry timestamp offers (.updateOffer uo))
      (.updateOffer uo)).get (entry.ownId E) = none := by
  have known : ∃ offer original,
      (pushed E F entry timestamp offers (.updateOffer uo)).get (entry.ownId E) = some offer ∧
      (pushed E F entry timestamp offers (.updateOffer uo)).get uo.originalId =
        some original := by
    by_cases updates : Updates E F entry uo original
    · rw [pushed_update_taken found updates present, Container.get_set]
      split
      · exact ⟨_, _, rfl, Container.get_set_self _ _ _⟩
      · exact ⟨_, _, present, Container.get_set_self _ _ _⟩
    · rw [pushed_update_refused found updates]
      exact ⟨_, _, present, found⟩
  obtain ⟨offer, updated, own, there⟩ := known
  rw [popped_update_known own there, Container.get_erase_self]

/-- Popping adds no offer. -/
theorem popped_absent {instruction : OffersAttachment} {k : Hash}
    (absent : offers.get k = none) : (popped E entry offers instruction).get k = none := by
  have replaced : ∀ (id : Hash) (old new : OfferDetailsExWithHash), offers.get id = some old →
      (offers.set id new).get k = none := by
    intro id old new found
    have apart : id ≠ k := by
      intro same
      rw [same, absent] at found
      cases found
    rwa [Container.get_set_of_ne _ _ apart]
  cases instruction with
  | offerDetails od =>
    rw [popped_add, Container.get_erase]
    split
    · rfl
    · exact absent
  | updateOffer uo =>
    cases own : offers.get (entry.ownId E) with
    | none => rwa [popped_update_unknown (.inl own)]
    | some offer =>
      cases found : offers.get uo.originalId with
      | none => rwa [popped_update_unknown (.inr found)]
      | some original =>
        rw [popped_update_known own found, Container.get_erase]
        split
        · rfl
        · exact replaced _ _ _ found
  | cancelOffer co =>
    cases found : offers.get co.offerId with
    | none => rwa [popped_cancel_absent found]
    | some offer =>
      rw [popped_cancel_present found]
      exact replaced _ _ _ found

/-- Pushing adds no offer but the entry's own one. -/
theorem pushed_absent {instruction : OffersAttachment} {k : Hash} (apart : entry.ownId E ≠ k)
    (absent : offers.get k = none) :
    (pushed E F entry timestamp offers instruction).get k = none := by
  cases instruction with
  | offerDetails od =>
    rcases @pushed_add E F entry timestamp offers od with refused | ⟨security, _, accepted⟩
    · rwa [refused]
    · rwa [accepted, Container.get_set_of_ne _ _ apart]
  | updateOffer uo =>
    cases found : offers.get uo.originalId with
    | none => rwa [pushed_update_absent found]
    | some original =>
      by_cases updates : Updates E F entry uo original
      · have other : uo.originalId ≠ k := by
          intro same
          rw [same, absent] at found
          cases found
        cases present : offers.get (entry.ownId E) with
        | none =>
          obtain ⟨security, accepted⟩ :=
            @pushed_update_fresh E F entry timestamp _ _ _ found updates present
          rwa [accepted, Container.get_set_of_ne _ _ other, Container.get_set_of_ne _ _ apart]
        | some taken =>
          rwa [pushed_update_taken found updates present, Container.get_set_of_ne _ _ other]
      · rwa [pushed_update_refused found updates]
  | cancelOffer co =>
    rcases @pushed_cancel E F entry timestamp offers co with refused | ⟨offer, found, _, accepted⟩
    · rwa [refused]
    · have other : co.offerId ≠ k := by
        intro same
        rw [same, absent] at found
        cases found
      rwa [accepted, Container.get_set_of_ne _ _ other]

/-- Nothing is left of a pushed and popped instruction that was not there before. -/
theorem popped_pushed_absent {instruction : OffersAttachment} {k : Hash}
    (absent : offers.get k = none) :
    (popped E entry (pushed E F entry timestamp offers instruction) instruction).get k = none := by
  by_cases apart : entry.ownId E ≠ k
  · exact popped_absent (pushed_absent apart absent)
  rw [not_not] at apart
  cases instruction with
  | offerDetails od => rw [popped_pushed_add, apart, Container.get_erase_self]
  | updateOffer uo =>
    cases found : offers.get uo.originalId with
    | none =>
      rw [pushed_update_absent found]
      exact popped_absent absent
    | some original =>
      by_cases updates : Updates E F entry uo original
      · have other : uo.originalId ≠ k := by
          intro same
          rw [same, absent] at found
          cases found
        rw [popped_pushed_update found (apart ▸ absent) updates,
          Container.get_set_of_ne _ _ other]
        exact absent
      · rw [pushed_update_refused found updates]
        exact popped_absent absent
  | cancelOffer co =>
    apply popped_absent
    rcases @pushed_cancel E F entry timestamp offers co with refused | ⟨offer, found, _, accepted⟩
    · rwa [refused]
    · have other : co.offerId ≠ k := by
        intro same
        rw [same, absent] at found
        cases found
      rwa [accepted, Container.get_set_of_ne _ _ other]

/-- Popping an instruction takes back what pushing it did exactly in these states. -/
theorem popped_pushed_iff (instruction : OffersAttachment) :
    popped E entry (pushed E F entry timestamp offers instruction) instruction = offers ↔
      UndoesPush E F entry offers instruction := by
  cases instruction with
  | offerDetails od =>
    rw [popped_pushed_add]
    exact Container.erase_eq_self_iff _ _
  | updateOffer uo =>
    simp only [UndoesPush]
    cases found : offers.get uo.originalId with
    | none =>
      rw [pushed_update_absent found, popped_update_unknown (.inr found)]
      simp
    | some original =>
      simp only [Option.some.injEq, forall_eq']
      cases present : offers.get (entry.ownId E) with
      | some taken =>
        have lost := @popped_pushed_update_taken E F entry timestamp _ _ _ _ found present
        constructor
        · intro same
          rw [same, present] at lost
          cases lost
        · intro fresh
          cases fresh.1
      | none =>
        simp only [true_and]
        by_cases updates : Updates E F entry uo original
        · rw [popped_pushed_update found present updates, Container.set_eq_self_iff, found]
          constructor
          · intro same accepted
            exact congrArg OfferDetailsExWithHash.nxtOffer (Option.some.inj same)
          · intro free
            rw [← free updates]
        · rw [pushed_update_refused found updates, popped_update_unknown (.inl present)]
          simp [updates]
  | cancelOffer co =>
    simp only [UndoesPush]
    cases found : offers.get co.offerId with
    | none =>
      rcases @pushed_cancel E F entry timestamp offers co with
        refused | ⟨offer, present, _, _⟩
      · rw [refused, popped_cancel_absent found]
        simp
      · rw [found] at present
        cases present
    | some offer =>
      simp only [Option.some.injEq, forall_eq']
      rw [popped_pushed_cancel found, Container.set_eq_self_iff, found]
      constructor
      · intro same
        rw [Option.some.inj same]
      · intro active
        rw [← active]

/-! ## Entries -/

/-- Trimming changes nothing just when the oldest offers are alive. -/
theorem trimOffers_eq_iff : trimOffers currentTime offers = offers ↔
    OldestAlive currentTime offers := by
  constructor
  · intro same k offer found oldest
    have kept := found
    rw [← same, get_trimOffers] at kept
    obtain ⟨_, l, other, there, below, alive⟩ := kept
    rwa [Nat.le_antisymm below (oldest l other there)] at alive
  · intro alive
    have lasts : ∀ k offer, offers.get k = some offer →
        Lasts currentTime offers offer.timestamp := by
      classical
      intro k offer found
      have some_time : ∃ t, ∃ l other, offers.get l = some other ∧ other.timestamp = t :=
        ⟨_, k, offer, found, rfl⟩
      obtain ⟨l, oldest, there, time⟩ := Nat.find_spec some_time
      have least : ∀ m other, offers.get m = some other →
          oldest.timestamp ≤ other.timestamp := by
        intro m other listed
        rw [time]
        exact Nat.find_min' some_time ⟨m, other, listed, rfl⟩
      exact ⟨l, oldest, there, least k offer found, alive l oldest there least⟩
    ext1 k
    apply Option.ext
    intro offer
    rw [get_trimOffers]
    exact and_iff_left_of_imp (lasts k offer)

/-- A table without new offers is trimmed to the old one just when it is the old one and nothing
is trimmed. -/
theorem trimOffers_eq_iff_of_absent {after : OffersContainer}
    (absent : ∀ k, offers.get k = none → after.get k = none) :
    trimOffers currentTime after = offers ↔
      after = offers ∧ OldestAlive currentTime offers := by
  constructor
  · intro trimmed
    have same : after = offers := by
      ext1 k
      cases found : offers.get k with
      | none => exact absent k found
      | some offer =>
        have kept := found
        rw [← trimmed, get_trimOffers] at kept
        exact kept.1
    rw [same] at trimmed
    exact ⟨same, trimOffers_eq_iff.mp trimmed⟩
  · rintro ⟨rfl, alive⟩
    exact trimOffers_eq_iff.mpr alive

/-- Pushing an entry only changes the offers, and the instruction of an entry does not depend on
them. -/
theorem instructionOf_handleEntryPush (a : TxServiceAttachment) :
    (service.handleEntryPush E F entry timestamp).instructionOf F a =
      service.instructionOf F a := by
  rw [handleEntryPush_eq]
  rfl

theorem readable_handleEntryPush (a : TxServiceAttachment) :
    (service.handleEntryPush E F entry timestamp).readable F a = service.readable F a := by
  rw [handleEntryPush_eq]
  rfl

/-- Popping an entry takes back what pushing it did exactly in these states. -/
theorem popPush_iff :
    ((service.handleEntryPush E F entry timestamp).handleEntryPop E F entry h currentTime).offers =
        service.offers ↔ EntryUndone E F h currentTime entry service := by
  unfold EntryUndone
  rw [handleEntryPop_eq, readable_handleEntryPush, instructionOf_handleEntryPush,
    handleEntryPush_eq]
  cases readable : service.readable F entry.attachment with
  | false =>
    cases reads : service.instructionOf F entry.attachment with
    | none => simp
    | some instruction =>
      rw [readable_of_instructionOf reads] at readable
      cases readable
  | true =>
    rw [if_pos rfl]
    dsimp only
    generalize result : ((service.instructionOf F entry.attachment).map (popped E entry
      (((service.instructionOf F entry.attachment).map
        (pushed E F entry timestamp service.offers)).getD service.offers))).getD
      (((service.instructionOf F entry.attachment).map
        (pushed E F entry timestamp service.offers)).getD service.offers) = after
    have absent : ∀ k, service.offers.get k = none → after.get k = none := by
      intro k missing
      rw [← result]
      cases service.instructionOf F entry.attachment with
      | none => exact missing
      | some instruction => exact popped_pushed_absent missing
    have undone : after = service.offers ↔
        ∀ instruction, service.instructionOf F entry.attachment = some instruction →
          UndoesPush E F entry service.offers instruction := by
      rw [← result]
      cases service.instructionOf F entry.attachment with
      | none => simp
      | some instruction =>
        simp only [Option.some.injEq, forall_eq']
        exact popped_pushed_iff instruction
    rw [← undone, trimDaily]
    split
    · next due =>
      have trims : service.TrimDue h := due
      refine (trimOffers_eq_iff_of_absent absent).trans (and_congr_right fun _ => ?_)
      exact ⟨fun alive _ _ => alive, fun alive => alive rfl trims⟩
    · next early => exact (and_iff_left fun _ due => absurd due early).symm

/-! ## Several entries -/

variable {entries : List ServiceEntry}

/-- The service with another height of the last trimming. -/
def OffersService.withHeight (service : OffersService) (height : Nat) : OffersService :=
  { service with lastTrimedHeight := height }

theorem readable_withHeight (height : Nat) (a : TxServiceAttachment) :
    (service.withHeight height).readable F a =
      service.readable F a := rfl

/-- The height of the last trimming after entries were popped. -/
def OffersService.heightAfter (F : OfferFormats) (service : OffersService)
    (entries : List ServiceEntry) (h : Nat) : Nat :=
  if h % currencyBlocksPerDay = 0 ∧ ∃ entry ∈ entries, service.readable F entry.attachment = true
  then h else service.lastTrimedHeight

theorem lastTrimedHeight_handleEntryPop :
    (service.handleEntryPop E F entry h currentTime).lastTrimedHeight =
      service.heightAfter F [entry] h := by
  rw [handleEntryPop_eq, OffersService.heightAfter]
  cases readable : service.readable F entry.attachment with
  | false => simp [readable]
  | true =>
    rw [if_pos rfl, trimDaily]
    dsimp only
    by_cases day : h % currencyBlocksPerDay = 0
    · simp only [day, List.mem_singleton, exists_eq_left, readable, and_true, ↓reduceIte]
      split
      · rfl
      · next same => exact not_not.mp same
    · simp [day]

theorem disabled_handleEntryPop :
    (service.handleEntryPop E F entry h currentTime).disabled = service.disabled := by
  rw [handleEntryPop_eq]
  split
  · unfold trimDaily
    split <;> rfl
  · rfl

theorem heightAfter_cons : service.heightAfter F (entry :: entries) h =
    (service.withHeight (service.heightAfter F entries h)).heightAfter F [entry] h := by
  unfold OffersService.heightAfter
  simp only [readable_withHeight, List.mem_cons, List.not_mem_nil, or_false, exists_eq_left,
    exists_eq_or_imp]
  by_cases day : h % currencyBlocksPerDay = 0
  · by_cases own : service.readable F entry.attachment = true
    · simp only [day, own, true_or, and_self, ↓reduceIte]
    · simp only [day, own, false_or, true_and, Bool.false_eq_true, ↓reduceIte]
      rfl
  · simp only [day, false_and, ↓reduceIte]
    rfl

/-- Pushing does not look at the height of the last trimming. -/
theorem handleEntryPush_withHeight (height : Nat) :
    (service.withHeight height).handleEntryPush E F entry
      timestamp = (service.handleEntryPush E F entry timestamp).withHeight height := by
  rw [handleEntryPush_eq, handleEntryPush_eq]
  rfl

/-- After the later entries were popped, an entry is taken back under its part of the
condition. -/
theorem entryUndone_withHeight :
    EntryUndone E F h currentTime entry (service.withHeight (service.heightAfter F entries h)) ↔
      (∀ instruction, service.instructionOf F entry.attachment = some instruction →
        UndoesPush E F entry service.offers instruction) ∧
      (service.readable F entry.attachment = true →
        (∀ later ∈ entries, service.readable F later.attachment = false) → service.TrimDue h →
          OldestAlive currentTime service.offers) := by
  refine and_congr_right fun _ => imp_congr_right fun _ => ?_
  unfold OffersService.TrimDue OffersService.heightAfter OffersService.withHeight
  dsimp only
  by_cases some_readable : ∃ later ∈ entries, service.readable F later.attachment = true
  · have not_all : ¬∀ later ∈ entries, service.readable F later.attachment = false := by
      intro all
      obtain ⟨later, listed, readable⟩ := some_readable
      rw [all later listed] at readable
      cases readable
    refine iff_of_true ?_ fun all => absurd all not_all
    rintro ⟨other, day⟩
    rw [if_pos ⟨day, some_readable⟩] at other
    exact absurd rfl other
  · have all : ∀ later ∈ entries, service.readable F later.attachment = false := by
      intro later listed
      apply Bool.eq_false_of_not_eq_true
      intro readable
      exact some_readable ⟨later, listed, readable⟩
    rw [if_neg fun due => some_readable due.2]
    exact ⟨fun alive _ => alive, fun alive => alive all⟩

/-- When the later entries are taken back, an entry is popped right after it was pushed, up to the
height of the last trimming. -/
theorem popAll_pushAll_cons
    (others : ((service.handleEntryPush E F entry timestamp).pushAll E F entries
      timestamp).popAll E F entries h currentTime =
        (service.handleEntryPush E F entry timestamp).withHeight
          ((service.handleEntryPush E F entry timestamp).heightAfter F entries h)) :
    (service.pushAll E F (entry :: entries) timestamp).popAll E F (entry :: entries) h
        currentTime =
      ((service.withHeight (service.heightAfter F entries h)).handleEntryPush E F entry
        timestamp).handleEntryPop E F entry h currentTime := by
  have height : (service.handleEntryPush E F entry timestamp).heightAfter F entries h =
      service.heightAfter F entries h := by
    rw [handleEntryPush_eq]
    rfl
  have whole : (service.pushAll E F (entry :: entries) timestamp).popAll E F (entry :: entries) h
      currentTime = (((service.handleEntryPush E F entry timestamp).pushAll E F entries
        timestamp).popAll E F entries h currentTime).handleEntryPop E F entry h currentTime := by
    unfold OffersService.popAll
    rw [List.reverse_cons, List.foldl_append]
    rfl
  rw [whole, others, handleEntryPush_withHeight, ← height]

/-- Entries that meet their states are taken back; at most the height of the last trimming
changes. -/
theorem popAll_pushAll
    (undone : EntriesUndone E F timestamp h currentTime service entries) :
    (service.pushAll E F entries timestamp).popAll E F entries h currentTime =
      service.withHeight (service.heightAfter F entries h) := by
  induction entries generalizing service with
  | nil => simp [OffersService.pushAll, OffersService.popAll, OffersService.heightAfter,
    OffersService.withHeight]
  | cons entry rest ih =>
    obtain ⟨first, later⟩ := undone
    rw [popAll_pushAll_cons (ih later)]
    have table := (@popPush_iff E F entry timestamp h currentTime _).mpr
      (entryUndone_withHeight.mpr first)
    generalize popping : ((service.withHeight (service.heightAfter F rest h)).handleEntryPush E F
      entry timestamp).handleEntryPop E F entry h currentTime = after at table
    have enabled : after.disabled = service.disabled := by
      rw [← popping, disabled_handleEntryPop, handleEntryPush_eq]
      rfl
    have height : after.lastTrimedHeight = service.heightAfter F (entry :: rest) h := by
      rw [← popping, lastTrimedHeight_handleEntryPop, handleEntryPush_withHeight,
        handleEntryPush_eq]
      exact heightAfter_cons.symm
    cases after
    dsimp only at table enabled height
    rw [table, enabled, height]
    rfl

/-- Popping retraces the tables that pushing passed exactly when every entry meets its state. -/
theorem retraced_iff : Retraced E F timestamp h currentTime service entries ↔
    EntriesUndone E F timestamp h currentTime service entries := by
  induction entries generalizing service with
  | nil => exact Iff.rfl
  | cons entry rest ih =>
    unfold Retraced EntriesUndone
    rw [ih, and_comm, and_comm (b := EntriesUndone _ _ _ _ _ _ _)]
    refine and_congr_right fun later => ?_
    rw [popAll_pushAll_cons (popAll_pushAll later), ← entryUndone_withHeight]
    exact popPush_iff

/-! ## Transactions -/

/-- Popping an offer instruction takes back what pushing it did exactly in the states named
above; the instructions of a transaction, pushed in order and popped in reverse, retrace all
tables exactly when each one meets such a state when it is pushed, and then the table is as
it was before. -/
theorem offerInstructions_undone_iff (E : Env) (F : OfferFormats) :
    (∀ (service : OffersService) (entry : ServiceEntry) (timestamp h currentTime : Nat),
      ((service.handleEntryPush E F entry timestamp).handleEntryPop E F entry h
          currentTime).offers = service.offers ↔
        EntryUndone E F h currentTime entry service) ∧
    (∀ (service : OffersService) (tx : Transaction) (timestamp h currentTime : Nat),
      (Retraced E F timestamp h currentTime service (offerEntries tx) ↔
        EntriesUndone E F timestamp h currentTime service (offerEntries tx)) ∧
      (EntriesUndone E F timestamp h currentTime service (offerEntries tx) →
        ((service.processTxAttachments E F tx timestamp).unprocessTxAttachments E F tx h
          currentTime).offers = service.offers)) := by
  refine ⟨fun _ _ _ _ _ => popPush_iff, fun service tx timestamp h currentTime =>
    ⟨retraced_iff, fun undone => ?_⟩⟩
  have restored := popAll_pushAll undone
  change ((service.pushAll E F (offerEntries tx) timestamp).popAll E F (offerEntries tx) h
    currentTime).offers = service.offers
  rw [restored]
  rfl

end Undo

/-! ## A cancellation of a cancelled offer -/

namespace Cancelled

/-- The first transaction adds an offer and the second one cancels it. -/
def service : OffersService :=
  OffersService.pushAll Env.plain .plain
    [.plain 1 bcOffersServiceInstructionAdd "", .plain 2 bcOffersServiceInstructionDel "1"] 0
    ⟨∅, 0, false⟩

/-- Popping a refused cancellation makes the cancelled offer active. -/
theorem secondCancel_activates :
    ((service.handleEntryPush Env.plain .plain (.plain 3 bcOffersServiceInstructionDel "1")
      0).handleEntryPop Env.plain .plain (.plain 3 bcOffersServiceInstructionDel "1") 1 0).offers ≠
        service.offers ∧
    ((service.handleEntryPush Env.plain .plain (.plain 3 bcOffersServiceInstructionDel "1")
      0).handleEntryPop Env.plain .plain (.plain 3 bcOffersServiceInstructionDel "1") 1
        0).offers.get ⟨1⟩ = (service.offers.get ⟨1⟩).map fun offer =>
          { offer with stopped := false } := by
  have activated : ((service.handleEntryPush Env.plain .plain
      (.plain 3 bcOffersServiceInstructionDel "1") 0).handleEntryPop Env.plain .plain
        (.plain 3 bcOffersServiceInstructionDel "1") 1 0).offers.get ⟨1⟩ =
          (service.offers.get ⟨1⟩).map fun offer => { offer with stopped := false } := by
    decide +kernel
  refine ⟨fun same => ?_, activated⟩
  rw [same] at activated
  have stopped : service.offers.get ⟨1⟩ ≠
      (service.offers.get ⟨1⟩).map fun offer => { offer with stopped := false } := by
    decide +kernel
  exact stopped activated

/-- An active offer. -/
def market : OffersService := ⟨Container.set ∅ ⟨1⟩ default, 0, false⟩

/-- The transaction with the first cancellation is taken back. -/
theorem firstCancel_undone :
    ((market.processTxAttachments Env.plain .plain
      (ServiceEntry.plain 2 bcOffersServiceInstructionDel "1").tx 0).unprocessTxAttachments
        Env.plain .plain (ServiceEntry.plain 2 bcOffersServiceInstructionDel "1").tx 1 0).offers =
      market.offers := by
  refine ((offerInstructions_undone_iff Env.plain .plain).2 market
    (ServiceEntry.plain 2 bcOffersServiceInstructionDel "1").tx 0 1 0).2 ⟨⟨?_, ?_⟩, trivial⟩
  · intro instruction reads
    have cancels : market.instructionOf .plain
        (ServiceEntry.plain 2 bcOffersServiceInstructionDel "1").attachment =
          some (.cancelOffer ⟨⟨1⟩, 0, ⟨0⟩⟩) := by
      decide +kernel
    cases cancels.symm.trans reads
    intro offer found
    have active : (Container.get market.offers
        (CancelOffer.offerId ⟨⟨1⟩, 0, ⟨0⟩⟩)).map (fun offer => offer.stopped) = some false := by
      decide +kernel
    rw [found] at active
    exact Option.some.inj active
  · intro _ _ due
    exact absurd due.2 (by decide)

end Cancelled
end Virie
