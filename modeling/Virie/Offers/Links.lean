import Virie.Offers.Tables
import Virie.Foundation.Chains

/-! # Chains of updated offers

An update links an offer to the one that updated it. The links of a table form disjoint chains in
which every offer with a successor is stopped and all offers have one timestamp. New offers and
updates keep the chains in order, and so does a table thinned by timestamps, in which offers
without a successor may be stopped or active. -/

open Foundation

namespace Virie

section Chains

variable {E : Env} {F : OfferFormats} {entry : ServiceEntry} {timestamp h currentTime : Nat}
  {offers after : OffersContainer} {kept : Nat → Prop} {k : Hash}

/-! ## Chains -/

/-- The id of the offer that updated an offer. -/
def successor (F : OfferFormats) (offers : OffersContainer) (k : Hash) : Option Hash := do
  let offer ← offers.get k
  if offer.nxtOffer = "" then none else F.parseTpodFromHexString offer.nxtOffer

/-- The links of a table form disjoint chains, in which an offer with a successor is stopped. -/
structure Chains (F : OfferFormats) (offers : OffersContainer) : Prop where
  /-- The offers are kept under their ids. -/
  keyed : ∀ k offer, offers.get k = some offer →
    offerIdFromHashAndIndex offer.txHash offer.indexInTx = k
  /-- A link is the text of an id. -/
  spelled : ∀ k offer, offers.get k = some offer → offer.nxtOffer ≠ "" →
    ∃ l, offer.nxtOffer = F.podToHex l
  chained : Chained (fun k => ∃ offer, offers.get k = some offer) (successor F offers)
  stopped : ∀ k offer, offers.get k = some offer → offer.nxtOffer ≠ "" → offer.stopped = true
  /-- The offers of a chain have the timestamp of the first one. -/
  timed : ∀ k offer l next, offers.get k = some offer → successor F offers k = some l →
    offers.get l = some next → next.timestamp = offer.timestamp

theorem successor_of_get {offer : OfferDetailsExWithHash} (found : offers.get k = some offer) :
    successor F offers k =
      if offer.nxtOffer = "" then none else F.parseTpodFromHexString offer.nxtOffer := by
  rw [successor, found]
  rfl

theorem successor_of_absent (absent : offers.get k = none) : successor F offers k = none := by
  rw [successor, absent]
  rfl

theorem Chains.empty : Chains F ∅ := by
  have absent : ∀ k, (∅ : OffersContainer).get k = none := fun k => Container.get_empty k
  have free : ∀ k, successor F ∅ k = none := fun k => successor_of_absent (absent k)
  constructor
  · intro k offer found
    rw [absent k] at found
    cases found
  · intro k offer found
    rw [absent k] at found
    cases found
  · constructor
    · intro k l link
      rw [free k] at link
      cases link
    · intro k l m link
      rw [free k] at link
      cases link
    · intro k
      exact ⟨k, .last (free k)⟩
  · intro k offer found
    rw [absent k] at found
    cases found
  · intro k offer l next found
    rw [absent k] at found
    cases found

/-- A new offer starts a chain of its own. -/
theorem Chains.add (chains : Chains F offers) {offer : OfferDetailsExWithHash}
    (fresh : offers.get k = none)
    (own : offerIdFromHashAndIndex offer.txHash offer.indexInTx = k)
    (free : offer.nxtOffer = "") : Chains F (offers.set k offer) := by
  have same : successor F (offers.set k offer) = successor F offers := by
    funext l
    by_cases here : k = l
    · subst here
      rw [successor_of_get (Container.get_set_self _ _ _), if_pos free, successor_of_absent fresh]
    · unfold successor
      rw [Container.get_set_of_ne _ _ here]
  have cases_of : ∀ l other, (offers.set k offer).get l = some other →
      (k = l ∧ offer = other) ∨ offers.get l = some other := by
    intro l other found
    rw [Container.get_set] at found
    split at found
    · next here => exact .inl ⟨here, Option.some.inj found⟩
    · exact .inr found
  constructor
  · intro l other found
    rcases cases_of l other found with ⟨rfl, rfl⟩ | old
    · exact own
    · exact chains.keyed l other old
  · intro l other found linked
    rcases cases_of l other found with ⟨rfl, rfl⟩ | old
    · exact absurd free linked
    · exact chains.spelled l other old linked
  · rw [same]
    refine chains.chained.mono fun l present => ?_
    by_cases here : k = l
    · exact ⟨offer, by rw [here, Container.get_set_self]⟩
    · rw [Container.get_set_of_ne _ _ here]
      exact present
  · intro l other found linked
    rcases cases_of l other found with ⟨rfl, rfl⟩ | old
    · exact absurd free linked
    · exact chains.stopped l other old linked
  · intro l other m next found link there
    rw [same] at link
    have present := chains.chained.linked link
    have ids : k ≠ l ∧ k ≠ m := by
      constructor
      · rintro rfl
        rw [fresh] at present
        exact absurd present.1.choose_spec (by simp)
      · rintro rfl
        rw [fresh] at present
        exact absurd present.2.choose_spec (by simp)
    rw [Container.get_set_of_ne _ _ ids.1] at found
    rw [Container.get_set_of_ne _ _ ids.2] at there
    exact chains.timed l other m next found link there

/-- An update puts a new offer behind the last one of a chain. -/
theorem Chains.link (spells : F.Spells) (chains : Chains F offers) {t : Hash}
    {original offer : OfferDetailsExWithHash} (found : offers.get t = some original)
    (last : original.nxtOffer = "") (fresh : offers.get k = none)
    (own : offerIdFromHashAndIndex offer.txHash offer.indexInTx = k)
    (free : offer.nxtOffer = "") (time : offer.timestamp = original.timestamp) :
    Chains F ((offers.set k offer).set t
      { original with nxtOffer := F.podToHex k, stopped := true }) := by
  have apart : k ≠ t := by
    intro same
    rw [same, found] at fresh
    cases fresh
  generalize after_eq : (offers.set k offer).set t
    { original with nxtOffer := F.podToHex k, stopped := true } = after
  have updated : after.get t =
      some { original with nxtOffer := F.podToHex k, stopped := true } := by
    rw [← after_eq, Container.get_set_self]
  have added : after.get k = some offer := by
    rw [← after_eq, Container.get_set_of_ne _ _ apart.symm, Container.get_set_self]
  have others : ∀ l, l ≠ t → l ≠ k → after.get l = offers.get l := by
    intro l first second
    rw [← after_eq, Container.get_set_of_ne _ _ first.symm,
      Container.get_set_of_ne _ _ second.symm]
  have same : successor F after = Function.update (successor F offers) t (some k) := by
    funext l
    by_cases target : l = t
    · rw [target, Function.update_self, successor_of_get updated, if_neg (spells.hex_ne k)]
      exact spells.parse_hex k
    · rw [Function.update_of_ne target]
      by_cases here : l = k
      · rw [here, successor_of_get added, if_pos free, successor_of_absent fresh]
      · unfold successor
        rw [others l target here]
  constructor
  · intro l other there
    by_cases target : l = t
    · rw [target] at there ⊢
      cases updated.symm.trans there
      exact chains.keyed t original found
    · by_cases here : l = k
      · rw [here] at there ⊢
        cases added.symm.trans there
        exact own
      · rw [others l target here] at there
        exact chains.keyed l other there
  · intro l other there linked
    by_cases target : l = t
    · rw [target] at there
      cases updated.symm.trans there
      exact ⟨k, rfl⟩
    · by_cases here : l = k
      · rw [here] at there
        cases added.symm.trans there
        exact absurd free linked
      · rw [others l target here] at there
        exact chains.spelled l other there linked
  · rw [same]
    have ended : successor F offers t = none := by
      rw [successor_of_get found, if_pos last]
    refine chains.chained.extend ⟨original, found⟩ ended ?_ ?_
    · rintro ⟨other, present⟩
      rw [fresh] at present
      cases present
    · rintro l (⟨other, present⟩ | here)
      · by_cases target : l = t
        · exact ⟨_, target ▸ updated⟩
        · by_cases here : l = k
          · exact ⟨_, here ▸ added⟩
          · exact ⟨other, (others l target here).trans present⟩
      · exact ⟨_, here ▸ added⟩
  · intro l other there linked
    by_cases target : l = t
    · rw [target] at there
      cases updated.symm.trans there
      rfl
    · by_cases here : l = k
      · rw [here] at there
        cases added.symm.trans there
        exact absurd free linked
      · rw [others l target here] at there
        exact chains.stopped l other there linked
  · intro l other m next there link behind
    rw [same] at link
    by_cases target : l = t
    · rw [target, Function.update_self] at link
      cases link
      rw [target] at there
      cases updated.symm.trans there
      cases added.symm.trans behind
      exact time
    · rw [Function.update_of_ne target] at link
      obtain ⟨⟨_, first⟩, ⟨old, second⟩⟩ := chains.chained.linked link
      have here : l ≠ k := by
        rintro rfl
        rw [fresh] at first
        cases first
      have fresh_apart : m ≠ k := by
        rintro rfl
        rw [fresh] at second
        cases second
      rw [others l target here] at there
      by_cases back : m = t
      · rw [back] at link behind
        cases updated.symm.trans behind
        exact chains.timed l other t original there link found
      · rw [others m back fresh_apart] at behind
        exact chains.timed l other m next there link behind

/-! ## Thinned tables -/

/-- A table with the offers of some timestamps, in which offers without a successor may be
stopped or active. -/
structure Thins (kept : Nat → Prop) (offers after : OffersContainer) : Prop where
  forth : ∀ k offer, offers.get k = some offer → kept offer.timestamp →
    ∃ stopped, after.get k = some { offer with stopped } ∧
      (offer.nxtOffer ≠ "" → stopped = offer.stopped)
  back : ∀ k offer, after.get k = some offer →
    ∃ old, offers.get k = some old ∧ kept old.timestamp

/-- The entries of a thinned table are those of the old one up to the mark. -/
theorem Thins.origin (thins : Thins kept offers after) {offer : OfferDetailsExWithHash}
    (found : after.get k = some offer) : ∃ old, offers.get k = some old ∧
      kept old.timestamp ∧ offer = { old with stopped := offer.stopped } ∧
        (old.nxtOffer ≠ "" → offer.stopped = old.stopped) := by
  obtain ⟨old, there, time⟩ := thins.back k offer found
  obtain ⟨stopped, here, same⟩ := thins.forth k old there time
  cases here.symm.trans found
  exact ⟨old, there, time, rfl, same⟩

theorem Thins.successor_eq (thins : Thins kept offers after) {offer : OfferDetailsExWithHash}
    (found : offers.get k = some offer) (time : kept offer.timestamp) :
    successor F after k = successor F offers k := by
  obtain ⟨stopped, here, _⟩ := thins.forth k offer found time
  rw [successor_of_get here, successor_of_get found]

theorem Thins.chains (thins : Thins kept offers after) (chains : Chains F offers) :
    Chains F after := by
  have dropped : ∀ k, (¬∃ offer, offers.get k = some offer ∧ kept offer.timestamp) →
      after.get k = none := by
    intro k gone
    cases found : after.get k with
    | none => rfl
    | some offer =>
      obtain ⟨old, there, time⟩ := thins.back k offer found
      exact absurd ⟨old, there, time⟩ gone
  constructor
  · intro k offer found
    obtain ⟨old, there, _, same, _⟩ := thins.origin found
    rw [same]
    exact chains.keyed k old there
  · intro k offer found linked
    obtain ⟨old, there, _, same, _⟩ := thins.origin found
    rw [same] at linked ⊢
    exact chains.spelled k old there linked
  · refine @Chained.restrict _ _ _ _
      (fun k => ∃ offer, offers.get k = some offer ∧ kept offer.timestamp) _ chains.chained
      ?_ ?_ ?_ ?_
    · intro k l link
      obtain ⟨⟨offer, here⟩, ⟨next, there⟩⟩ := chains.chained.linked link
      have times := chains.timed k offer l next here link there
      constructor
      · rintro ⟨other, found, time⟩
        cases here.symm.trans found
        exact ⟨next, there, times ▸ time⟩
      · rintro ⟨other, found, time⟩
        cases there.symm.trans found
        exact ⟨offer, here, times ▸ time⟩
    · rintro k ⟨offer, found, time⟩
      exact thins.successor_eq found time
    · intro k gone
      exact successor_of_absent (dropped k gone)
    · rintro k ⟨offer, found, time⟩ _
      obtain ⟨stopped, here, _⟩ := thins.forth k offer found time
      exact ⟨_, here⟩
  · intro k offer found linked
    obtain ⟨old, there, _, same, mark⟩ := thins.origin found
    have old_linked : old.nxtOffer ≠ "" := by
      rw [same] at linked
      exact linked
    rw [mark old_linked]
    exact chains.stopped k old there old_linked
  · intro k offer l next found link there
    obtain ⟨old, before, time, same, _⟩ := thins.origin found
    obtain ⟨behind, after_old, _, also, _⟩ := thins.origin there
    rw [thins.successor_eq before time] at link
    rw [same, also]
    exact chains.timed k old l behind before link after_old

/-- Trimming thins the table. -/
theorem thins_trimOffers :
    Thins (Lasts currentTime offers) offers (trimOffers currentTime offers) where
  forth k offer found lasts :=
    ⟨offer.stopped, (get_trimOffers k offer).mpr ⟨found, lasts⟩, fun _ => rfl⟩
  back k offer found := ⟨offer, (get_trimOffers k offer).mp found⟩

/-- The mark of an offer without a successor may change. -/
theorem thins_mark {offer : OfferDetailsExWithHash} (found : offers.get k = some offer)
    (last : offer.nxtOffer = "") (stopped : Bool) :
    Thins (fun _ => True) offers (offers.set k { offer with stopped }) where
  forth l other there _ := by
    by_cases here : k = l
    · subst here
      cases found.symm.trans there
      exact ⟨stopped, Container.get_set_self _ _ _, fun linked => absurd last linked⟩
    · exact ⟨other.stopped, (Container.get_set_of_ne _ _ here).trans there, fun _ => rfl⟩
  back l other there := by
    by_cases here : k = l
    · subst here
      exact ⟨offer, found, trivial⟩
    · exact ⟨other, (Container.get_set_of_ne _ _ here).symm.trans there, trivial⟩

theorem Thins.erase (thins : Thins kept offers after) (k : Hash) :
    Thins kept (offers.erase k) (after.erase k) where
  forth l offer found time := by
    rw [Container.get_erase] at found ⊢
    split at found
    · cases found
    · next apart =>
      rw [if_neg apart]
      exact thins.forth l offer found time
  back l offer found := by
    rw [Container.get_erase] at found ⊢
    split at found
    · cases found
    · next apart =>
      rw [if_neg apart]
      exact thins.back l offer found

theorem Thins.set (thins : Thins kept offers after) (k : Hash) {offer : OfferDetailsExWithHash}
    (time : kept offer.timestamp) : Thins kept (offers.set k offer) (after.set k offer) where
  forth l other found lasts := by
    rw [Container.get_set] at found ⊢
    split at found
    · next here =>
      cases found
      rw [if_pos here]
      exact ⟨offer.stopped, rfl, fun _ => rfl⟩
    · next apart =>
      rw [if_neg apart]
      exact thins.forth l other found lasts
  back l other found := by
    rw [Container.get_set] at found ⊢
    split at found
    · next here =>
      rw [if_pos here]
      exact ⟨offer, rfl, time⟩
    · next apart =>
      rw [if_neg apart]
      exact thins.back l other found

end Chains
end Virie
