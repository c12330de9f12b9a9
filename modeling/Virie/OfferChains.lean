import Virie.OfferUndo
import Virie.Offers.Links
import Virie.Foundation.Runs

/-! # The last version of an offer

Instructions are pushed and popped in stack order. As long as new offers have ids of their own and
no cancellation is popped whose offer was updated, the chains of updated offers stay in order:
popping takes the latest offer of a chain away and trimming whole chains. A query follows one
link: it finds the last offer of a chain from this offer and from the one before. -/

open Foundation

namespace Virie

section Market

variable {E : Env} {F : OfferFormats} {entry : ServiceEntry} {timestamp h currentTime : Nat}
  {offers after : OffersContainer} {kept : Nat → Prop} {k : Hash}

/-! ## Popping in stack order -/

/-- The table without an entry. A cancellation only marks an offer. -/
def undone (E : Env) (entry : ServiceEntry) (offers : OffersContainer) :
    Option OffersAttachment → OffersContainer
  | none => offers
  | some (.cancelOffer _) => offers
  | some instruction => popped E entry offers instruction

/-- The new offer of an update has the timestamp of the offer that it updated. -/
def Aligned (E : Env) (entry : ServiceEntry) (offers : OffersContainer)
    (instruction : Option OffersAttachment) : Prop :=
  ∀ uo offer original, instruction = some (.updateOffer uo) →
    offers.get (entry.ownId E) = some offer → offers.get uo.originalId = some original →
    offer.timestamp = original.timestamp

/-- The chains are in order, and stay so when the entries of a stack are popped. -/
def Orderly (E : Env) (F : OfferFormats) (reading : ServiceEntry → Option OffersAttachment) :
    OffersContainer → List ServiceEntry → Prop
  | offers, [] => Chains F offers
  | offers, entry :: rest => Chains F offers ∧ Aligned E entry offers (reading entry) ∧
      Orderly E F reading (undone E entry offers (reading entry)) rest

variable {reading : ServiceEntry → Option OffersAttachment} {stack : List ServiceEntry}

theorem Orderly.chains (orderly : Orderly E F reading offers stack) : Chains F offers := by
  cases stack with
  | nil => exact orderly
  | cons entry rest => exact orderly.1

theorem Thins.aligned {instruction : Option OffersAttachment} (thins : Thins kept offers after)
    (aligned : Aligned E entry offers instruction) : Aligned E entry after instruction := by
  intro uo offer original reads own found
  obtain ⟨offerBefore, ownBefore, _, same, _⟩ := thins.origin own
  obtain ⟨originalBefore, foundBefore, _, also, _⟩ := thins.origin found
  rw [same, also]
  exact aligned uo offerBefore originalBefore reads ownBefore foundBefore

/-- An entry may be taken back before or after the table is thinned. -/
theorem Thins.undone {instruction : Option OffersAttachment} (thins : Thins kept offers after)
    (aligned : Aligned E entry offers instruction) :
    Thins kept (undone E entry offers instruction) (undone E entry after instruction) := by
  cases instruction with
  | none => exact thins
  | some instruction =>
    cases instruction with
    | cancelOffer co => exact thins
    | offerDetails od => exact thins.erase (entry.ownId E)
    | updateOffer uo =>
      have missing : ∀ k, offers.get k = none → after.get k = none := by
        intro k absent
        cases found : after.get k with
        | none => rfl
        | some offer =>
          obtain ⟨old, there, _⟩ := thins.origin found
          rw [absent] at there
          cases there
      unfold Virie.undone
      dsimp only
      cases own : offers.get (entry.ownId E) with
      | none => rwa [popped_update_unknown (.inl own), popped_update_unknown (.inl (missing _ own))]
      | some offer =>
        cases found : offers.get uo.originalId with
        | none =>
          rwa [popped_update_unknown (.inr found), popped_update_unknown (.inr (missing _ found))]
        | some original =>
          have times := aligned uo offer original rfl own found
          rw [popped_update_known own found]
          by_cases time : kept original.timestamp
          · obtain ⟨first, ownAfter, _⟩ := thins.forth _ offer own (times ▸ time)
            obtain ⟨second, foundAfter, _⟩ := thins.forth _ original found time
            rw [popped_update_known ownAfter foundAfter]
            exact (@Thins.set _ _ _ thins uo.originalId
              { original with stopped := false, nxtOffer := "" } time).erase _
          · have gone : ∀ k old, offers.get k = some old → ¬kept old.timestamp →
                after.get k = none := by
              intro k old there dropped
              cases here : after.get k with
              | none => rfl
              | some offer =>
                obtain ⟨before, also, lasts⟩ := thins.back k offer here
                cases there.symm.trans also
                exact absurd lasts dropped
            have ownGone := gone _ offer own (times ▸ time)
            rw [popped_update_unknown (.inl ownGone)]
            constructor
            · intro k other listed lasts
              rw [Container.get_erase] at listed
              split at listed
              · cases listed
              rw [Container.get_set] at listed
              split at listed
              · cases listed
                exact absurd lasts time
              · exact thins.forth k other listed lasts
            · intro k other listed
              obtain ⟨old, there, lasts⟩ := thins.back k other listed
              refine ⟨old, ?_, lasts⟩
              rw [Container.get_erase, if_neg, Container.get_set, if_neg]
              · exact there
              · rintro rfl
                cases found.symm.trans there
                exact time lasts
              · rintro rfl
                rw [ownGone] at listed
                cases listed

/-- A thinned table stays in order when the stack is popped. -/
theorem Thins.orderly (thins : Thins kept offers after)
    (orderly : Orderly E F reading offers stack) : Orderly E F reading after stack := by
  induction stack generalizing offers after with
  | nil => exact thins.chains orderly
  | cons entry rest ih =>
    obtain ⟨chains, aligned, later⟩ := orderly
    exact ⟨thins.chains chains, thins.aligned aligned, ih (thins.undone aligned) later⟩

/-! ## Steps -/

/-- A pushed instruction has an id of its own for the offer that it may add. -/
def FreshPush (E : Env) (entry : ServiceEntry) (offers : OffersContainer) :
    OffersAttachment → Prop
  | .offerDetails _ => offers.get (entry.ownId E) = none
  | .updateOffer uo =>
    offers.get (entry.ownId E) = none ∨ offers.get uo.originalId = none
  | .cancelOffer _ => True

/-- A popped cancellation is of an offer that was not updated. -/
def LastPop (offers : OffersContainer) : OffersAttachment → Prop
  | .cancelOffer co =>
    ∀ offer, offers.get co.offerId = some offer → offer.nxtOffer = ""
  | _ => True

theorem Orderly.push (spells : F.Spells) (orderly : Orderly E F reading offers stack)
    {instruction : OffersAttachment} (reads : reading entry = some instruction)
    (fresh : FreshPush E entry offers instruction) :
    Orderly E F reading (pushed E F entry timestamp offers instruction) (entry :: stack) := by
  have chains := orderly.chains
  unfold Orderly
  rw [reads]
  cases instruction with
  | offerDetails od =>
    have back : undone E entry (pushed E F entry timestamp offers (.offerDetails od))
        (some (.offerDetails od)) = offers :=
      (@popped_pushed_add E F entry timestamp offers od).trans
        ((Container.erase_eq_self_iff _ _).mpr fresh)
    refine ⟨?_, ?_, by rwa [back]⟩
    · rcases @pushed_add E F entry timestamp offers od with refused | ⟨security, _, accepted⟩
      · rwa [refused]
      · rw [accepted]
        exact chains.add fresh rfl rfl
    · intro uo _ _ other
      cases other
  | updateOffer uo =>
    cases found : offers.get uo.originalId with
    | none =>
      rw [pushed_update_absent found]
      refine ⟨chains, fun other _ _ same _ there => ?_, ?_⟩
      · cases same
        rw [found] at there
        cases there
      · change Orderly E F reading (popped E entry offers (.updateOffer uo)) stack
        rwa [popped_update_unknown (.inr found)]
    | some original =>
      have own : offers.get (entry.ownId E) = none := by
        rcases fresh with own | absent
        · exact own
        · rw [found] at absent
          cases absent
      by_cases updates : Updates E F entry uo original
      · have last : original.nxtOffer = "" := by
          by_contra linked
          have stopped := chains.stopped _ original found linked
          rw [updates.active] at stopped
          cases stopped
        have back : undone E entry (pushed E F entry timestamp offers (.updateOffer uo))
            (some (.updateOffer uo)) = offers := by
          refine (popped_pushed_update found own updates).trans ?_
          rw [← last]
          exact Container.set_get _ _ _ found
        refine ⟨?_, ?_, by rwa [back]⟩
        · obtain ⟨security, accepted⟩ :=
            @pushed_update_fresh E F entry timestamp _ _ _ found updates own
          rw [accepted]
          exact chains.link spells found last own rfl rfl rfl
        · obtain ⟨security, accepted⟩ :=
            @pushed_update_fresh E F entry timestamp _ _ _ found updates own
          have apart : uo.originalId ≠ entry.ownId E := by
            intro same
            rw [same, own] at found
            cases found
          intro other offer before same here there
          cases same
          rw [accepted] at here there
          rw [Container.get_set_of_ne _ _ apart, Container.get_set_self] at here
          rw [Container.get_set_self] at there
          cases here
          cases there
          rfl
      · rw [pushed_update_refused found updates]
        refine ⟨chains, fun other offer _ same here _ => ?_, ?_⟩
        · rw [own] at here
          cases here
        · change Orderly E F reading (popped E entry offers (.updateOffer uo)) stack
          rwa [popped_update_unknown (.inl own)]
  | cancelOffer co =>
    have kept : Orderly E F reading (pushed E F entry timestamp offers (.cancelOffer co))
        stack := by
      rcases @pushed_cancel E F entry timestamp offers co with
        refused | ⟨offer, found, active, accepted⟩
      · rwa [refused]
      · have last : offer.nxtOffer = "" := by
          by_contra linked
          have stopped := chains.stopped _ offer found linked
          rw [active] at stopped
          cases stopped
        rw [accepted]
        exact (thins_mark found last true).orderly orderly
    refine ⟨kept.chains, ?_, kept⟩
    intro uo _ _ other
    cases other

theorem Orderly.pop (orderly : Orderly E F reading offers (entry :: stack))
    {instruction : OffersAttachment} (reads : reading entry = some instruction)
    (last : LastPop offers instruction) :
    Orderly E F reading (popped E entry offers instruction) stack := by
  obtain ⟨_, _, later⟩ := orderly
  rw [reads] at later
  cases instruction with
  | offerDetails od => exact later
  | updateOffer uo => exact later
  | cancelOffer co =>
    cases found : offers.get co.offerId with
    | none =>
      rw [popped_cancel_absent found]
      exact later
    | some offer =>
      rw [popped_cancel_present found]
      exact (thins_mark found (last offer found) false).orderly later

/-! ## Runs of the market -/

/-- The service with the entries that were pushed and not popped yet, the latest one first. -/
structure MarketRun where
  service : OffersService
  stack : List ServiceEntry

inductive MarketEvent where
  | push (entry : ServiceEntry) (timestamp : Nat)
  | pop (h currentTime : Nat)

def MarketRun.step (E : Env) (F : OfferFormats) : MarketEvent → MarketRun → MarketRun
  | .push entry timestamp, run =>
    ⟨run.service.handleEntryPush E F entry timestamp, entry :: run.stack⟩
  | .pop h currentTime, run =>
    match run.stack with
    | [] => run
    | entry :: rest => ⟨run.service.handleEntryPop E F entry h currentTime, rest⟩

/-- A market starts without offers. -/
def marketSystem (E : Env) (F : OfferFormats) : System MarketEvent MarketRun where
  start run := run.service.offers = ∅ ∧ run.stack = []
  step := MarketRun.step E F

/-- New offers have ids of their own, and no cancellation is popped whose offer was updated. -/
def KeepsChains (E : Env) (F : OfferFormats) : MarketEvent → MarketRun → Prop
  | .push entry _, run => ∀ instruction,
      run.service.instructionOf F entry.attachment = some instruction →
        FreshPush E entry run.service.offers instruction
  | .pop _ _, run => ∀ entry ∈ run.stack.head?, ∀ instruction,
      run.service.instructionOf F entry.attachment = some instruction →
        LastPop run.service.offers instruction

/-- The chains of a run are in order. -/
def MarketRun.Orderly (E : Env) (F : OfferFormats) (run : MarketRun) : Prop :=
  Virie.Orderly E F (fun entry => run.service.instructionOf F entry.attachment)
    run.service.offers run.stack

theorem instructionOf_handleEntryPop {service : OffersService} (a : TxServiceAttachment) :
    (service.handleEntryPop E F entry h currentTime).instructionOf F a =
      service.instructionOf F a := by
  unfold OffersService.instructionOf
  rw [disabled_handleEntryPop]

/-- One step keeps the chains in order. -/
theorem MarketRun.Orderly.step (spells : F.Spells) {run : MarketRun} {event : MarketEvent}
    (orderly : run.Orderly E F) (meets : KeepsChains E F event run) :
    (MarketRun.step E F event run).Orderly E F := by
  cases event with
  | push entry timestamp =>
    unfold MarketRun.Orderly MarketRun.step
    dsimp only
    simp only [instructionOf_handleEntryPush]
    rw [handleEntryPush_eq]
    cases reads : run.service.instructionOf F entry.attachment with
    | none =>
      refine ⟨Orderly.chains orderly, ?_, ?_⟩
      · intro uo _ _ other
        dsimp only at other
        rw [reads] at other
        cases other
      · dsimp only
        rw [reads]
        exact orderly
    | some instruction => exact Orderly.push spells orderly reads (meets instruction reads)
  | pop h currentTime =>
    obtain ⟨service, stack⟩ := run
    cases stack with
    | nil => exact orderly
    | cons entry rest =>
      unfold MarketRun.Orderly MarketRun.step
      dsimp only
      simp only [instructionOf_handleEntryPop]
      have after : Virie.Orderly E F (fun entry => service.instructionOf F entry.attachment)
          (((service.instructionOf F entry.attachment).map
            (popped E entry service.offers)).getD service.offers) rest := by
        cases reads : service.instructionOf F entry.attachment with
        | none =>
          have later := orderly.2.2
          dsimp only at later
          rw [reads] at later
          exact later
        | some instruction => exact Orderly.pop orderly reads (meets entry rfl instruction reads)
      rw [handleEntryPop_eq]
      split
      · unfold trimDaily
        split
        · exact thins_trimOffers.orderly after
        · exact after
      · next unread =>
        cases reads : service.instructionOf F entry.attachment with
        | none =>
          rw [reads] at after
          exact after
        | some instruction => exact absurd (readable_of_instructionOf reads) unread

theorem marketSystem_orderly (spells : F.Spells) {run : MarketRun}
    (reached : (marketSystem E F).Reaches (KeepsChains E F) run) : run.Orderly E F := by
  refine reached.invariant ?_ ?_
  · rintro run ⟨offers, stack⟩
    unfold MarketRun.Orderly
    rw [offers, stack]
    exact Chains.empty
  · intro event run _ meets orderly
    exact orderly.step spells meets

/-! ## Queries -/

theorem answerTo_txHash (id : OfferId) (it : OfferDetailsExWithHash) :
    (answerTo id it).txHash = it.txHash := by
  unfold answerTo
  split <;> rfl

theorem answerTo_indexInTx (id : OfferId) (it : OfferDetailsExWithHash) :
    (answerTo id it).indexInTx = it.indexInTx := by
  unfold answerTo
  split <;> rfl

/-- A query follows one link. -/
theorem getOffersById_single (id : OfferId) :
    getOffersById F offers [id] = (getOfferById F offers id).toList := by
  unfold getOffersById
  cases found : getOfferById F offers id with
  | none => rw [List.filterMap_cons_none found, List.filterMap_nil, Option.toList_none]
  | some answer => rw [List.filterMap_cons_some found, List.filterMap_nil, Option.toList_some]

theorem getOfferById_null {id : OfferId} (null : id.hash = nullHash) :
    getOfferById F offers id = none := by
  unfold getOfferById
  dsimp only
  rw [if_pos null]

theorem getOfferById_last (chains : Chains F offers) (spells : F.Spells) {id : OfferId}
    {offer : OfferDetailsExWithHash} (named : id.hash ≠ nullHash)
    (found : offers.get id.hash = some offer) (last : successor F offers id.hash = none) :
    getOfferById F offers id = some (answerTo id offer) := by
  have free : offer.nxtOffer = "" := by
    by_contra linked
    obtain ⟨l, text⟩ := chains.spelled _ offer found linked
    rw [successor_of_get found, if_neg linked, text, spells.parse_hex] at last
    cases last
  unfold getOfferById
  dsimp only
  rw [if_neg named, found]
  dsimp only [Option.bind_eq_bind, Option.bind_some]
  rw [if_pos free]

theorem getOfferById_linked {id : OfferId} {offer next : OfferDetailsExWithHash} {l : Hash}
    (named : id.hash ≠ nullHash) (found : offers.get id.hash = some offer)
    (link : successor F offers id.hash = some l) (behind : offers.get l = some next) :
    getOfferById F offers id = some (answerTo id next) := by
  rw [successor_of_get found] at link
  unfold getOfferById
  dsimp only
  rw [if_neg named, found]
  dsimp only [Option.bind_eq_bind, Option.bind_some]
  split at link
  · cases link
  · next linked =>
    rw [if_neg linked, link]
    dsimp only
    rw [behind]
    rfl

/-- Offers with the same answer are the same. -/
theorem Chains.eq_of_answer (chains : Chains F offers) {id : OfferId} {l m : Hash}
    {offer other : OfferDetailsExWithHash} (found : offers.get l = some offer)
    (there : offers.get m = some other) (same : answerTo id offer = answerTo id other) : l = m := by
  have tx := congrArg OfferDetailsEx.txHash same
  have index := congrArg OfferDetailsEx.indexInTx same
  rw [answerTo_txHash, answerTo_txHash] at tx
  rw [answerTo_indexInTx, answerTo_indexInTx] at index
  rw [← chains.keyed l offer found, ← chains.keyed m other there, tx, index]

/-- A query finds the last offer of a chain just from this offer and from the one before. -/
theorem getOffersById_iff (chains : Chains F offers) (spells : F.Spells) {id : OfferId}
    {offer lastOffer : OfferDetailsExWithHash} {last : Hash}
    (found : offers.get id.hash = some offer) (ends : Ends (successor F offers) id.hash last)
    (there : offers.get last = some lastOffer) :
    getOffersById F offers [id] = [answerTo id lastOffer] ↔
      id.hash ≠ nullHash ∧ (id.hash = last ∨ successor F offers id.hash = some last) := by
  rw [getOffersById_single]
  by_cases null : id.hash = nullHash
  · rw [getOfferById_null null]
    simp [null]
  refine Iff.trans ?_ (and_iff_right null).symm
  cases link : successor F offers id.hash with
  | none =>
    have own := ends.eq_of_done link
    rw [own] at there
    cases found.symm.trans there
    rw [getOfferById_last chains spells null found link]
    simp [own]
  | some l =>
    obtain ⟨_, next, behind⟩ := chains.chained.linked link
    rw [getOfferById_linked null found link behind]
    have inside : id.hash ≠ last := by
      intro same
      rw [same, ends.done] at link
      cases link
    simp only [Option.toList_some, List.cons.injEq, and_true, inside, false_or,
      Option.some.injEq]
    constructor
    · exact chains.eq_of_answer behind there
    · rintro rfl
      cases behind.symm.trans there
      rfl

/-- In every run in which new offers have ids of their own and no cancellation is popped whose
offer was updated, the links form disjoint chains, in which every offer with a successor is
stopped; and a query for an offer of a chain answers with the last offer of the chain exactly
when this is the queried offer or its successor, and the id is not null. -/
theorem offerChains_hold (E : Env) {F : OfferFormats} (spells : F.Spells) {run : MarketRun}
    (reached : (marketSystem E F).Reaches (KeepsChains E F) run) :
    Chains F run.service.offers ∧
    ∀ (id : OfferId) (offer : OfferDetailsExWithHash),
      run.service.offers.get id.hash = some offer →
      ∃ last lastOffer, Ends (successor F run.service.offers) id.hash last ∧
        run.service.offers.get last = some lastOffer ∧
        (getOffersById F run.service.offers [id] = [answerTo id lastOffer] ↔
          id.hash ≠ nullHash ∧
            (id.hash = last ∨ successor F run.service.offers id.hash = some last)) := by
  have chains := (marketSystem_orderly spells reached).chains
  refine ⟨chains, fun id offer found => ?_⟩
  obtain ⟨last, ends⟩ := chains.chained.ends id.hash
  obtain ⟨lastOffer, there⟩ := chains.chained.last_present ends ⟨offer, found⟩
  exact ⟨last, lastOffer, ends, there, getOffersById_iff chains spells found ends there⟩

end Market

/-! ## Three versions of an offer -/

namespace Versions

def empty : MarketRun := ⟨⟨∅, 0, false⟩, []⟩

/-- The first transaction adds an offer, the second one updates it. -/
def updates : List MarketEvent :=
  [.push (.plain 1 bcOffersServiceInstructionAdd "") 0,
    .push (.plain 2 bcOffersServiceInstructionUpd "1") 0]

def afterEvents (events : List MarketEvent) : MarketRun :=
  (marketSystem Env.plain .plain).after empty events

/-- With a second update, a query for the first of three offers answers with the second one.
When a cancellation of the first offer is pushed, refused and popped, this offer is active,
although it has a successor. -/
theorem thirdVersion_missed :
    (successor .plain (afterEvents (updates ++
        [.push (.plain 3 bcOffersServiceInstructionUpd "2") 0])).service.offers ⟨2⟩ = some ⟨3⟩ ∧
      (getOffersById .plain (afterEvents (updates ++
        [.push (.plain 3 bcOffersServiceInstructionUpd "2") 0])).service.offers
          [⟨⟨1⟩, 0⟩]).map (fun offer => offer.txHash) = [⟨2⟩]) ∧
    ((afterEvents (updates ++ [.push (.plain 3 bcOffersServiceInstructionDel "1") 0,
      .pop 1 0])).service.offers.get ⟨1⟩).map (fun offer =>
        (offer.stopped, offer.nxtOffer == "")) = some (false, false) := by
  decide +kernel

/-- After one update, a query for the first offer answers with the last one. -/
theorem secondVersion_found :
    ∃ last lastOffer, Ends (successor .plain (afterEvents updates).service.offers) ⟨1⟩ last ∧
      (afterEvents updates).service.offers.get last = some lastOffer ∧
      getOffersById .plain (afterEvents updates).service.offers [⟨⟨1⟩, 0⟩] =
        [answerTo ⟨⟨1⟩, 0⟩ lastOffer] := by
  have reached : (marketSystem Env.plain .plain).Reaches (KeepsChains Env.plain .plain)
      (afterEvents updates) := by
    have initial : (marketSystem Env.plain .plain).Reaches (KeepsChains Env.plain .plain) empty :=
      .start ⟨rfl, rfl⟩
    refine initial.after ⟨?_, ?_, trivial⟩
    · intro instruction reads
      have adds : empty.service.instructionOf .plain (ServiceEntry.plain 1
          bcOffersServiceInstructionAdd "").attachment = some (.offerDetails default) := by
        decide +kernel
      cases adds.symm.trans reads
      exact Container.get_empty _
    · intro instruction reads
      have changes : ((marketSystem Env.plain .plain).step (.push (.plain 1
          bcOffersServiceInstructionAdd "") 0) empty).service.instructionOf .plain
            (ServiceEntry.plain 2 bcOffersServiceInstructionUpd "1").attachment =
              some (.updateOffer ⟨⟨1⟩, 0, ⟨0⟩, default⟩) := by
        decide +kernel
      cases changes.symm.trans reads
      apply Or.inl
      decide +kernel
  have present : ((afterEvents updates).service.offers.get (OfferId.hash ⟨⟨1⟩, 0⟩)).isSome := by
    decide +kernel
  have first : successor .plain (afterEvents updates).service.offers ⟨1⟩ = some ⟨2⟩ := by
    decide +kernel
  have second : successor .plain (afterEvents updates).service.offers ⟨2⟩ = none := by
    decide +kernel
  obtain ⟨offer, found⟩ := Option.isSome_iff_exists.mp present
  obtain ⟨last, lastOffer, ends, there, answers⟩ :=
    (offerChains_hold Env.plain OfferFormats.plain_spells reached).2 ⟨⟨1⟩, 0⟩ offer found
  have ended := (ends.of_link first).eq_of_done second
  refine ⟨last, lastOffer, ends, there, answers.mpr ⟨by decide, .inr ?_⟩⟩
  rw [ended]
  exact first

end Versions
end Virie
