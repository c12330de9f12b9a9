import Virie.Foundation.Ranking
import Virie.Offers.Service

/-! # Pages of offers

A query names an order, a direction, and a page: how many matching offers to skip and how many to
answer with. The service walks an ordered index of its table, another path filters and sorts a
list. The filter itself is the same function on both paths. -/

open Foundation

namespace Virie

/-- The orders other than the one by rate, which compares floating-point numbers. -/
inductive OrderBy where
  | timestamp
  | amountPrimary
  | amountTarget
  | paymentTypes
  | contacts
  | location
  | name
deriving DecidableEq, Repr

/-- A filter: the order and the page. -/
structure CoreOffersFilter where
  orderBy : OrderBy
  reverse : Bool
  offset : Nat
  limit : Nat
  offset_lt : offset < 2 ^ 64
  limit_lt : limit < 2 ^ 64

section Queries

variable (utf8ToLower : String → String)

/-! ## Comparisons -/

/-- The comparison that a list is sorted by. -/
def sortOffersPredicate : OrderBy → OfferDetailsEx → OfferDetailsEx → Bool
  | .timestamp => fun a b => decide (a.timestamp < b.timestamp)
  | .amountPrimary => fun a b => decide (a.amountPrimary < b.amountPrimary)
  | .amountTarget => fun a b => decide (a.amountTarget < b.amountTarget)
  | .paymentTypes => fun a b => decide (a.paymentTypes < b.paymentTypes)
  | .contacts => fun a b => decide (a.contacts < b.contacts)
  | .location => fun a b => decide (a.locationCity < b.locationCity)
  | .name => fun a b => decide (utf8ToLower a.target < utf8ToLower b.target)

/-- The comparison of the keys that an index of the table extracts. Payment types count by their
length, and a location is the country followed by the city. -/
def indexPredicate : OrderBy → OfferDetailsEx → OfferDetailsEx → Bool
  | .timestamp => fun a b => decide (a.timestamp < b.timestamp)
  | .amountPrimary => fun a b => decide (a.amountPrimary < b.amountPrimary)
  | .amountTarget => fun a b => decide (a.amountTarget < b.amountTarget)
  | .paymentTypes => fun a b =>
    decide (a.paymentTypes.utf8ByteSize < b.paymentTypes.utf8ByteSize)
  | .contacts => fun a b => decide (a.contacts < b.contacts)
  | .location => fun a b =>
    decide (utf8ToLower (a.locationCountry ++ a.locationCity) <
      utf8ToLower (b.locationCountry ++ b.locationCity))
  | .name => fun a b => decide (utf8ToLower a.target < utf8ToLower b.target)

/-- A comparison in the direction of a query. -/
def directed (reverse : Bool) (less : OfferDetailsEx → OfferDetailsEx → Bool) :
    OfferDetailsEx → OfferDetailsEx → Bool :=
  if reverse then fun a b => less b a else less

/-- An index of the table: its offers in the order of the extracted keys. -/
structure MarketIndex (orderBy : OrderBy) (table : OffersContainer) where
  entries : List OfferDetailsExWithHash
  perm : entries.Perm (table.toList.map Prod.snd)
  arranged : Arranged (indexPredicate utf8ToLower orderBy)
    (entries.map OfferDetailsExWithHash.toOfferDetailsEx)

/-- All offers of a table. -/
def allOffers (table : OffersContainer) : List OfferDetailsEx :=
  table.toList.map fun entry => entry.2.toOfferDetailsEx

/-! ## The two paths -/

variable (isOfferMatchedByFilter : OfferDetailsEx → Bool)

/-- The walk over an index, with the number of matching offers before. -/
def collectOffers (offset bound : Nat) : Nat → List OfferDetailsEx → List OfferDetailsEx
  | _, [] => []
  | selectedIndex, it :: rest =>
    if bound ≤ selectedIndex then []
    else if isOfferMatchedByFilter it then
      if offset ≤ selectedIndex then it :: collectOffers offset bound (selectedIndex + 1) rest
      else collectOffers offset bound (selectedIndex + 1) rest
    else collectOffers offset bound selectedIndex rest

/-- The page of an index and what is returned; an empty table is a failure. The end of the page
is a 64-bit word. -/
def getOffersExForIndex {table : OffersContainer} (cof : CoreOffersFilter)
    (index : MarketIndex utf8ToLower cof.orderBy table) : Bool × List OfferDetailsEx :=
  if index.entries.isEmpty then (false, [])
  else
    let walk := index.entries.map OfferDetailsExWithHash.toOfferDetailsEx
    (true, collectOffers isOfferMatchedByFilter cof.offset (addU64 cof.offset cof.limit) 0
      (if cof.reverse then walk.reverse else walk))

/-- The page of a list. -/
def filterOffersList (filter : CoreOffersFilter) (offers : List OfferDetailsEx) :
    Bool × List OfferDetailsEx :=
  let less := directed filter.reverse (sortOffersPredicate utf8ToLower filter.orderBy)
  let sorted := (offers.filter isOfferMatchedByFilter).mergeSort fun a b => !less b a
  (true, (sorted.drop (min filter.offset sorted.length)).take
    (min filter.limit (sorted.length - min filter.offset sorted.length)))

end Queries

section Closed

variable {utf8ToLower : String → String} {matched : OfferDetailsEx → Bool}

theorem weakOrder_sortOffersPredicate (utf8ToLower : String → String) (orderBy : OrderBy) :
    WeakOrder (sortOffersPredicate utf8ToLower orderBy) := by
  cases orderBy with
  | timestamp => exact .ofKey fun a : OfferDetailsEx => a.timestamp
  | amountPrimary => exact .ofKey fun a : OfferDetailsEx => a.amountPrimary
  | amountTarget => exact .ofKey fun a : OfferDetailsEx => a.amountTarget
  | paymentTypes => exact .ofKey fun a : OfferDetailsEx => a.paymentTypes
  | contacts => exact .ofKey fun a : OfferDetailsEx => a.contacts
  | location => exact .ofKey fun a : OfferDetailsEx => a.locationCity
  | name => exact .ofKey fun a : OfferDetailsEx => utf8ToLower a.target

theorem weakOrder_directed (utf8ToLower : String → String) (reverse : Bool) (orderBy : OrderBy) :
    WeakOrder (directed reverse (sortOffersPredicate utf8ToLower orderBy)) := by
  unfold directed
  split
  · exact (weakOrder_sortOffersPredicate utf8ToLower orderBy).flip
  · exact weakOrder_sortOffersPredicate utf8ToLower orderBy

/-- The index and the list are ordered by the same keys except for payment types and locations. -/
theorem indexPredicate_eq {orderBy : OrderBy} (payments : orderBy ≠ .paymentTypes)
    (location : orderBy ≠ .location) :
    indexPredicate utf8ToLower orderBy = sortOffersPredicate utf8ToLower orderBy := by
  cases orderBy with
  | paymentTypes => exact absurd rfl payments
  | location => exact absurd rfl location
  | _ => rfl

/-- The walk collects the matching offers behind the offset and before the bound. -/
theorem collectOffers_eq (offset bound selectedIndex : Nat) (walk : List OfferDetailsEx) :
    collectOffers matched offset bound selectedIndex walk =
      ((walk.filter matched).take (bound - selectedIndex)).drop (offset - selectedIndex) := by
  induction walk generalizing selectedIndex with
  | nil => rw [collectOffers, List.filter_nil, List.take_nil, List.drop_nil]
  | cons it rest ih =>
    rw [collectOffers, List.filter_cons]
    by_cases ended : bound ≤ selectedIndex
    · rw [if_pos ended, Nat.sub_eq_zero_of_le ended, List.take_zero, List.drop_nil]
    · rw [if_neg ended]
      cases matched it with
      | false => rw [if_neg Bool.false_ne_true, if_neg Bool.false_ne_true, ih]
      | true =>
        have more : bound - selectedIndex = bound - (selectedIndex + 1) + 1 := by omega
        rw [if_pos rfl, if_pos rfl, ih, more, List.take_succ_cons]
        by_cases reached : offset ≤ selectedIndex
        · have later : offset - (selectedIndex + 1) = 0 := by omega
          rw [if_pos reached, Nat.sub_eq_zero_of_le reached, later, List.drop_zero,
            List.drop_zero]
        · have skips : offset - selectedIndex = offset - (selectedIndex + 1) + 1 := by omega
          rw [if_neg reached, skips, List.drop_succ_cons]

theorem filterOffersList_eq (filter : CoreOffersFilter) (offers : List OfferDetailsEx) :
    filterOffersList utf8ToLower matched filter offers =
      (true, (((offers.filter matched).mergeSort fun a b =>
        !directed filter.reverse (sortOffersPredicate utf8ToLower filter.orderBy) b a).drop
          filter.offset).take filter.limit) := by
  unfold filterOffersList
  dsimp only
  generalize (offers.filter matched).mergeSort (fun a b =>
    !directed filter.reverse (sortOffersPredicate utf8ToLower filter.orderBy) b a) = sorted
  congr 1
  rcases Nat.le_total filter.offset sorted.length with inside | beyond
  · rw [Nat.min_eq_left inside, ← List.length_drop, ← List.take_eq_take_min]
  · rw [Nat.min_eq_right beyond, List.drop_length, List.drop_eq_nil_of_le beyond, List.take_nil,
      List.take_nil]

end Closed

end Virie
