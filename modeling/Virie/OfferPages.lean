import Virie.Offers.Queries

/-! # Two answers to one query

The index of the market and a filtered list answer a query with the same page, up to offers that
the list compares as equal, when three things are right: the market has offers, the end of the
page is a 64-bit word, and the offers of the page are where the list would sort them. The last one
holds by itself except for payment types and locations, whose indexes have other keys. -/

open Foundation

namespace Virie

section Pages

variable (utf8ToLower : String → String) (matched : OfferDetailsEx → Bool)

variable {table : OffersContainer} (cof : CoreOffersFilter)
  (index : MarketIndex utf8ToLower cof.orderBy table)

/-- Both answers are successes or failures, the offers at each place have equal keys, and the page
of the index has matching offers of the table, each one once. -/
structure QueriesAgree : Prop where
  returned : (getOffersExForIndex utf8ToLower matched cof index).1 =
    (filterOffersList utf8ToLower matched cof (allOffers table)).1
  keys : List.Forall₂ (Alike (sortOffersPredicate utf8ToLower cof.orderBy))
    (getOffersExForIndex utf8ToLower matched cof index).2
    (filterOffersList utf8ToLower matched cof (allOffers table)).2
  offers : (getOffersExForIndex utf8ToLower matched cof index).2.Subperm
    ((allOffers table).filter matched)

/-- The matching offers in the order of the index and in the direction of the query. -/
def matchingWalk : List OfferDetailsEx :=
  let walk := index.entries.map OfferDetailsExWithHash.toOfferDetailsEx
  (if cof.reverse then walk.reverse else walk).filter matched

/-- An offer is at a place where the list may have it: at most as many matching offers come before
it as before the place. -/
def PlacedInList (place : Nat) (offer : OfferDetailsEx) : Prop :=
  InPlace (directed cof.reverse (sortOffersPredicate utf8ToLower cof.orderBy))
    (matchingWalk utf8ToLower matched cof index) place offer

variable {utf8ToLower matched cof index}

theorem matchingWalk_perm :
    (matchingWalk utf8ToLower matched cof index).Perm ((allOffers table).filter matched) := by
  have all : (index.entries.map OfferDetailsExWithHash.toOfferDetailsEx).Perm
      (allOffers table) := by
    have mapped := index.perm.map OfferDetailsExWithHash.toOfferDetailsEx
    rwa [List.map_map] at mapped
  unfold matchingWalk
  dsimp only
  refine List.Perm.filter matched ?_
  split
  · exact (List.reverse_perm _).trans all
  · exact all

theorem alike_directed {reverse : Bool} {less : OfferDetailsEx → OfferDetailsEx → Bool}
    {a b : OfferDetailsEx} : Alike (directed reverse less) a b ↔ Alike less a b := by
  cases reverse with
  | false => exact Iff.rfl
  | true => exact and_comm

/-- The page of an index that is not empty. -/
theorem getOffersExForIndex_eq (present : index.entries ≠ []) :
    getOffersExForIndex utf8ToLower matched cof index =
      (true, ((matchingWalk utf8ToLower matched cof index).take
        (addU64 cof.offset cof.limit)).drop cof.offset) := by
  unfold getOffersExForIndex
  rw [if_neg (by rwa [List.isEmpty_iff])]
  dsimp only
  rw [collectOffers_eq]
  rfl

/-- With an end of the page in 64 bits, both answers are pages of arrangements of the same offers. -/
theorem keys_iff_of_fits (present : index.entries ≠ [])
    (fits : cof.offset + cof.limit < 2 ^ 64) :
    List.Forall₂ (Alike (sortOffersPredicate utf8ToLower cof.orderBy))
        (getOffersExForIndex utf8ToLower matched cof index).2
        (filterOffersList utf8ToLower matched cof (allOffers table)).2 ↔
      ∀ place offer, cof.offset ≤ place → place < cof.offset + cof.limit →
        (matchingWalk utf8ToLower matched cof index)[place]? = some offer →
        PlacedInList utf8ToLower matched cof index place offer := by
  have order := weakOrder_directed utf8ToLower cof.reverse cof.orderBy
  have word : addU64 cof.offset cof.limit = cof.offset + cof.limit := Nat.mod_eq_of_lt fits
  rw [getOffersExForIndex_eq present, filterOffersList_eq, word]
  dsimp only
  rw [List.drop_take, Nat.add_sub_cancel_left]
  have sorted := order.arranged_mergeSort ((allOffers table).filter matched)
  have perm : (matchingWalk utf8ToLower matched cof index).Perm
      ((allOffers table).filter matched) := matchingWalk_perm
  have pages := order.forall₂_page_iff (perm.trans (List.mergeSort_perm _ _).symm) sorted
    cof.offset cof.limit
  constructor
  · exact fun keys => pages.mp (keys.imp fun _ _ alike => alike_directed.mpr alike)
  · exact fun placed => (pages.mpr placed).imp fun _ _ alike => alike_directed.mp alike

/-- With an end of the page above 64 bits the index answers with nothing. -/
theorem keys_iff_of_wraps (present : index.entries ≠ [])
    (wraps : ¬ cof.offset + cof.limit < 2 ^ 64) :
    List.Forall₂ (Alike (sortOffersPredicate utf8ToLower cof.orderBy))
        (getOffersExForIndex utf8ToLower matched cof index).2
        (filterOffersList utf8ToLower matched cof (allOffers table)).2 ↔
      (matchingWalk utf8ToLower matched cof index).length ≤ cof.offset := by
  have offset := cof.offset_lt
  have limit := cof.limit_lt
  have below : addU64 cof.offset cof.limit ≤ cof.offset := by
    unfold addU64
    omega
  have nothing : ((matchingWalk utf8ToLower matched cof index).take
      (addU64 cof.offset cof.limit)).drop cof.offset = [] :=
    List.drop_eq_nil_of_le ((List.length_take_le _ _).trans below)
  rw [getOffersExForIndex_eq present, filterOffersList_eq, nothing]
  dsimp only
  rw [List.forall₂_nil_left_iff, List.take_eq_nil_iff, List.drop_eq_nil_iff,
    List.length_mergeSort, matchingWalk_perm.length_eq]
  constructor
  · rintro (none_ | beyond)
    · omega
    · exact beyond
  · exact .inr

/-- The answers agree exactly when the market has offers, the end of the page is a 64-bit word or
there is no page, and the offers of the page are where the list would sort them. They are so in
every order but those by payment types and by location. -/
theorem queriesAgree_iff (utf8ToLower : String → String) (matched : OfferDetailsEx → Bool)
    {table : OffersContainer} (cof : CoreOffersFilter)
    (index : MarketIndex utf8ToLower cof.orderBy table) :
    (QueriesAgree utf8ToLower matched cof index ↔ index.entries ≠ [] ∧
      (cof.offset + cof.limit < 2 ^ 64 ∨
        (matchingWalk utf8ToLower matched cof index).length ≤ cof.offset) ∧
      ∀ place offer, cof.offset ≤ place → place < cof.offset + cof.limit →
        (matchingWalk utf8ToLower matched cof index)[place]? = some offer →
        PlacedInList utf8ToLower matched cof index place offer) ∧
    (cof.orderBy ≠ .paymentTypes → cof.orderBy ≠ .location → ∀ place offer,
      (matchingWalk utf8ToLower matched cof index)[place]? = some offer →
      PlacedInList utf8ToLower matched cof index place offer) := by
  constructor
  · by_cases none_ : index.entries = []
    · refine iff_of_false (fun agree => ?_) fun condition => condition.1 none_
      have returned := agree.returned
      unfold getOffersExForIndex filterOffersList at returned
      rw [none_] at returned
      cases returned
    · have offers : (getOffersExForIndex utf8ToLower matched cof index).2.Subperm
          ((allOffers table).filter matched) := by
        rw [getOffersExForIndex_eq none_]
        exact ((List.drop_sublist _ _).trans (List.take_sublist _ _)).subperm.trans
          matchingWalk_perm.subperm
      have returned : (getOffersExForIndex utf8ToLower matched cof index).1 =
          (filterOffersList utf8ToLower matched cof (allOffers table)).1 := by
        rw [getOffersExForIndex_eq none_]
        rfl
      by_cases fits : cof.offset + cof.limit < 2 ^ 64
      · constructor
        · exact fun agree => ⟨none_, .inl fits, (keys_iff_of_fits none_ fits).mp agree.keys⟩
        · exact fun condition =>
            ⟨returned, (keys_iff_of_fits none_ fits).mpr condition.2.2, offers⟩
      · constructor
        · intro agree
          have beyond := (keys_iff_of_wraps none_ fits).mp agree.keys
          refine ⟨none_, .inr beyond, fun place offer reached _ there => ?_⟩
          obtain ⟨inside, _⟩ := List.getElem?_eq_some_iff.mp there
          omega
        · rintro ⟨_, inBits | beyond, _⟩
          · exact absurd inBits fits
          · exact ⟨returned, (keys_iff_of_wraps none_ fits).mpr beyond, offers⟩
  · intro payments location place offer there
    have order := weakOrder_directed utf8ToLower cof.reverse cof.orderBy
    have arranged := index.arranged
    rw [indexPredicate_eq payments location] at arranged
    refine order.inPlace_of_arranged ?_ there
    unfold matchingWalk
    dsimp only
    refine Arranged.filter ?_ matched
    unfold directed
    cases cof.reverse with
    | false => exact arranged
    | true => exact arranged.reverse

end Pages

/-! ## Different answers -/

namespace DifferentAnswers

def offerIn (hash : Nat) (locationCountry locationCity : String) : OfferDetailsExWithHash :=
  { (default : OfferDetailsExWithHash) with h := ⟨hash⟩, locationCountry, locationCity }

def inVlora : OfferDetailsExWithHash := offerIn 1 "Albania" "Vlora"

def inBelem : OfferDetailsExWithHash := offerIn 2 "Brazil" "Belem"

def market : OffersContainer := ((∅ : OffersContainer).set ⟨1⟩ inVlora).set ⟨2⟩ inBelem

theorem market_offers : market.toList.map Prod.snd = [inVlora, inBelem] := by
  rfl

theorem allMarket : allOffers market = [inVlora.toOfferDetailsEx, inBelem.toOfferDetailsEx] := by
  rfl

theorem mergeSort_pair (le : OfferDetailsEx → OfferDetailsEx → Bool) (a b : OfferDetailsEx) :
    [a, b].mergeSort le = if le a b then [a, b] else [b, a] := by
  simp [List.mergeSort, List.merge]

/-- The countries come first in the index by location. -/
def byLocation : MarketIndex id .location market where
  entries := [inVlora, inBelem]
  perm := by rw [market_offers]
  arranged := List.pairwise_pair.mpr (by decide)

/-- Offers of one time in an order of their own. -/
def byTimestamp : MarketIndex id .timestamp market where
  entries := [inVlora, inBelem]
  perm := by rw [market_offers]
  arranged := List.pairwise_pair.mpr (by decide)

def emptyMarket : MarketIndex id .timestamp ∅ where
  entries := []
  perm := .refl _
  arranged := .nil

theorem zero_lt_word : 0 < 2 ^ 64 := by decide

theorem one_lt_word : 1 < 2 ^ 64 := by decide

theorem last_lt_word : 2 ^ 64 - 1 < 2 ^ 64 := by decide

def firstOffer (orderBy : OrderBy) : CoreOffersFilter :=
  ⟨orderBy, false, 0, 1, zero_lt_word, one_lt_word⟩

/-- Everything but the first offer. -/
def otherOffers : CoreOffersFilter :=
  ⟨.timestamp, false, 1, 2 ^ 64 - 1, one_lt_word, last_lt_word⟩

/-- An empty market is a failure for the index. By location the index begins with the country and
the list with the city. The end of the page behind the first offer wraps around to zero. -/
theorem answers_differ :
    ¬ QueriesAgree id (fun _ => true) (firstOffer .timestamp) emptyMarket ∧
      ¬ QueriesAgree id (fun _ => true) (firstOffer .location) byLocation ∧
      ¬ QueriesAgree id (fun _ => true) otherOffers byTimestamp := by
  refine ⟨fun agree => ?_, fun agree => ?_, fun agree => ?_⟩
  · exact Bool.noConfusion (agree.returned : false = true)
  · have indexed : (getOffersExForIndex id (fun _ => true) (firstOffer .location)
        byLocation).2 = [inVlora.toOfferDetailsEx] := by decide +kernel
    have listed : (filterOffersList id (fun _ => true) (firstOffer .location)
        (allOffers market)).2 = [inBelem.toOfferDetailsEx] := by
      have before : sortOffersPredicate id .location inBelem.toOfferDetailsEx
          inVlora.toOfferDetailsEx = true := by decide
      rw [filterOffersList_eq, allMarket]
      change (([inVlora.toOfferDetailsEx, inBelem.toOfferDetailsEx].mergeSort fun a b =>
        !sortOffersPredicate id .location b a).drop 0).take 1 = _
      rw [mergeSort_pair, before]
      rfl
    have keys := agree.keys
    rw [indexed, listed] at keys
    cases keys with
    | cons alike _ => exact absurd alike.2 (by decide)
  · have indexed : (getOffersExForIndex id (fun _ => true) otherOffers byTimestamp).2 = [] := by
      decide +kernel
    have listed : (filterOffersList id (fun _ => true) otherOffers
        (allOffers market)).2.length = 1 := by
      rw [filterOffersList_eq, List.length_take, List.length_drop, List.length_mergeSort,
        allMarket]
      rfl
    have lengths := agree.keys.length_eq
    rw [indexed, listed] at lengths
    cases lengths

end DifferentAnswers

end Virie
