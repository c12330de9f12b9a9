import Virie.Wallet.Minting
import Virie.Wallet.Scanning

/-! # Coin selection

The wallet keeps the transfers it may spend in sets under their amounts. A selection takes them
out, the amount that fits best first, and passes over those that are not ready at the moment; the
sets are collected anew only when none is left or the number of fake outputs changes. -/

open Foundation

namespace Virie.Wallet

/-- The indices of transfers under their amounts. -/
abbrev FreeAmounts := Container Nat (Container Nat (Option OutputRef))

namespace FreeAmounts

/-- The sets at the place where a selection looks for an amount: the least one that reaches it, or
the greatest of all. -/
def pick (free : FreeAmounts) (missing : Nat) :
    Option (Nat × Container Nat (Option OutputRef)) :=
  match free.toList.find? fun entry => decide (missing ≤ entry.1) with
  | some entry => if entry.2.size ≠ 0 then some entry else free.toList.getLast?
  | none => free.toList.getLast?

/-- Take an index out of the set of an amount, and the amount with the last one. -/
def drop (free : FreeAmounts) (amount index : Nat) : FreeAmounts :=
  match free.get amount with
  | none => free
  | some indices =>
    let rest := indices.erase index
    if rest.size = 0 then free.erase amount else free.set amount rest

/-- An index is in the set of an amount. -/
def Lists (free : FreeAmounts) (amount index : Nat) : Prop :=
  ∃ indices, free.get amount = some indices ∧ indices.has index = true

/-- No set is empty. -/
def Filled (free : FreeAmounts) : Prop :=
  ∀ amount indices, free.get amount = some indices → ∃ index, indices.has index = true

/-- The number of indices in all sets. -/
def listed (free : FreeAmounts) : Nat :=
  free.total fun _ indices => indices.total fun _ _ => 1

section Sets

variable {free : FreeAmounts} {amount index missing : Nat}
  {indices : Container Nat (Option OutputRef)}

theorem size_ne_zero_iff {V : Type} (c : Container Nat V) :
    c.size ≠ 0 ↔ ∃ k v, c.get k = some v := by
  rw [Container.size, ← Std.ExtTreeMap.length_toList, ne_eq, List.length_eq_zero_iff]
  constructor
  · intro any
    obtain ⟨⟨k, v⟩, member⟩ := List.exists_mem_of_ne_nil _ any
    exact ⟨k, v, (Container.mem_toList c k v).mp member⟩
  · rintro ⟨k, v, found⟩ empty
    have member := (Container.mem_toList c k v).mpr found
    rw [Container.toList, empty] at member
    cases member

/-- A selection looks at a set of the cache as long as there is one. -/
theorem pick_some (any : free.size ≠ 0) (missing : Nat) :
    ∃ amount indices, free.pick missing = some (amount, indices) ∧
      free.get amount = some indices := by
  have inside : ∀ entry, free.pick missing = some entry → entry ∈ free.toList := by
    intro entry picked
    rw [pick] at picked
    split at picked
    · next found =>
      split at picked
      · cases picked
        exact List.mem_of_find?_eq_some found
      · exact List.mem_of_getLast? picked
    · exact List.mem_of_getLast? picked
  obtain ⟨k, v, there⟩ := (size_ne_zero_iff free).mp any
  have last : free.toList.getLast?.isSome = true := by
    rw [List.getLast?_isSome]
    exact List.ne_nil_of_mem ((Container.mem_toList free k v).mpr there)
  have picks : (free.pick missing).isSome = true := by
    rw [pick]
    split
    · split
      · rfl
      · exact last
    · exact last
  obtain ⟨⟨amount, indices⟩, picked⟩ := Option.isSome_iff_exists.mp picks
  exact ⟨amount, indices, picked, (Container.mem_toList free _ _).mp (inside _ picked)⟩

/-- The first index of a set that is not empty. -/
theorem first_some (any : ∃ index, indices.has index = true) :
    ∃ index output, indices.toList.head? = some (index, output) ∧ indices.has index = true := by
  obtain ⟨index, here⟩ := any
  obtain ⟨output, found⟩ := (Container.has_iff indices index).mp here
  have member := (Container.mem_toList indices index output).mpr found
  cases first : indices.toList with
  | nil =>
    rw [first] at member
    cases member
  | cons head rest =>
    refine ⟨head.1, head.2, rfl, (Container.has_iff _ _).mpr ⟨head.2, ?_⟩⟩
    rw [← Container.mem_toList, first]
    exact List.mem_cons_self

theorem has_erase (indices : Container Nat (Option OutputRef)) (i j : Nat) :
    (indices.erase i).has j = true ↔ i ≠ j ∧ indices.has j = true := by
  rw [Container.has, Container.get_erase]
  by_cases same : i = j
  · simp [same]
  · simp [same, Container.has]

/-- What is left after an index was taken out. -/
theorem lists_drop {b j : Nat} :
    (free.drop amount index).Lists b j ↔ free.Lists b j ∧ (amount, index) ≠ (b, j) := by
  rw [drop]
  cases found : free.get amount with
  | none =>
    refine ⟨fun listed => ⟨listed, fun same => ?_⟩, And.left⟩
    obtain ⟨indices, there, _⟩ := listed
    rw [← (Prod.mk.inj same).1, found] at there
    cases there
  | some indices =>
    by_cases here : amount = b
    · subst here
      have kept : (free.drop amount index).Lists amount j ↔
          (indices.erase index).has j = true := by
        rw [drop, found]
        dsimp only
        split
        · next empty =>
          constructor
          · rintro ⟨_, there, _⟩
            rw [Container.get_erase_self] at there
            cases there
          · intro has
            obtain ⟨output, there⟩ := (Container.has_iff _ _).mp has
            exact absurd empty ((size_ne_zero_iff _).mpr ⟨j, output, there⟩)
        · rw [Lists, Container.get_set_self]
          simp only [Option.some.injEq, exists_eq_left']
      rw [drop, found] at kept
      rw [kept, has_erase, Lists, found]
      simp only [Option.some.injEq, exists_eq_left', ne_eq, Prod.mk.injEq, true_and]
      exact And.comm
    · have same : ∀ rest, (free.set amount rest).get b = free.get b ∧
          (free.erase amount).get b = free.get b := fun rest =>
        ⟨Container.get_set_of_ne free rest here, Container.get_erase_of_ne free here⟩
      dsimp only
      have kept : ((if (indices.erase index).size = 0 then free.erase amount
          else free.set amount (indices.erase index)) : FreeAmounts).get b = free.get b := by
        split
        · exact (same ∅).2
        · exact (same _).1
      rw [Lists, kept]
      exact ⟨fun listed => ⟨listed, fun equal => here (Prod.mk.inj equal).1⟩, And.left⟩

theorem filled_drop (filled : free.Filled) : (free.drop amount index).Filled := by
  intro b rest there
  rw [drop] at there
  cases found : free.get amount with
  | none =>
    rw [found] at there
    exact filled b rest there
  | some indices =>
    rw [found] at there
    dsimp only at there
    split at there
    · rw [Container.get_erase] at there
      split at there
      · cases there
      · exact filled b rest there
    · next more =>
      rw [Container.get_set] at there
      split at there
      · cases there
        obtain ⟨j, output, here⟩ := (size_ne_zero_iff _).mp more
        exact ⟨j, (Container.has_iff _ _).mpr ⟨output, here⟩⟩
      · exact filled b rest there

/-- Every index that is taken out makes the sets smaller. -/
theorem listed_drop (there : free.get amount = some indices) (here : indices.has index = true) :
    (free.drop amount index).listed + 1 = free.listed := by
  obtain ⟨output, found⟩ := (Container.has_iff _ _).mp here
  have fewer : indices.total (fun _ _ => 1) = (indices.erase index).total (fun _ _ => 1) + 1 :=
    Container.total_erase_of_some indices found _
  have whole : free.listed = (free.erase amount).total (fun _ indices =>
      indices.total fun _ _ => 1) + indices.total fun _ _ => 1 :=
    Container.total_erase_of_some free there _
  rw [drop, there]
  dsimp only
  split
  · next empty =>
    have none : (indices.erase index).toList = [] := by
      rw [Container.size, ← Std.ExtTreeMap.length_toList, List.length_eq_zero_iff] at empty
      exact empty
    have zero : (indices.erase index).total (fun _ _ => 1) = 0 := by
      rw [Container.total, none]
      rfl
    rw [whole, fewer, zero]
    rfl
  · have set : free.set amount (indices.erase index) =
        (free.erase amount).set amount (indices.erase index) := by
      rw [← Container.set_erase_of_some free there, Container.set_set,
        Container.erase_set _ _ _ (Container.get_erase_self free amount)]
    rw [set, listed, Container.total_set_of_none _ _ (Container.get_erase_self free amount), whole,
      fewer]
    rfl

end Sets

end FreeAmounts

/-- What a selection has found, and what is left. -/
structure Selection where
  foundMoney : Nat
  selectedIndexes : List Nat
  foundFreeAmounts : FreeAmounts

def isTransferAbleToGo (fakeOutputsCount : Nat) (td : TransferDetails) : Bool :=
  td.isSpendable &&
    match td.output?.map TxOut.target with
    | some (.toKey out) => isMixattrApplicableForFakeOutsCounter out.mixAttr fakeOutputsCount
    | _ => false

section Selecting

variable (wallet : Wallet) (coreTime fakeOutputsCount neededMoney : Nat)

def isTransferReadyToGo (td : TransferDetails) : Bool :=
  isTransferAbleToGo fakeOutputsCount td && wallet.isTransferUnlocked coreTime td

/-- The amount of the transfer with a number. -/
def amountAt (i : Nat) : Nat := ((wallet.transfers[i]?).map fun td => td.amount).getD 0

/-- The transfer with a number is there and ready. -/
def readyAt (i : Nat) : Bool :=
  (wallet.transfers[i]?).any fun td => wallet.isTransferReadyToGo coreTime fakeOutputsCount td

/-- One round of the loop; an empty set is an internal error, and nothing is found then. -/
def selectOne (amount : Nat) (indices : Container Nat (Option OutputRef)) (s : Selection) :
    Bool × Selection :=
  match indices.toList.head? with
  | none => (false, { s with foundMoney := 0 })
  | some (i, _) =>
    let s :=
      if wallet.readyAt coreTime fakeOutputsCount i then
        { s with
          foundMoney := (s.foundMoney + amount) % 2 ^ 64
          selectedIndexes := s.selectedIndexes ++ [i] }
      else s
    (true, { s with foundFreeAmounts := s.foundFreeAmounts.drop amount i })

/-- The loop with fuel for its rounds; there is no selection where the fuel runs out. -/
def selectIndicesForTransfer : Nat → Selection → Option Selection
  | 0, s => if s.foundMoney < neededMoney ∧ s.foundFreeAmounts.size ≠ 0 then none else some s
  | fuel + 1, s =>
    if s.foundMoney < neededMoney ∧ s.foundFreeAmounts.size ≠ 0 then do
      let (amount, indices) ← s.foundFreeAmounts.pick (neededMoney - s.foundMoney)
      let (selecting, s) := wallet.selectOne coreTime fakeOutputsCount amount indices s
      if selecting then selectIndicesForTransfer fuel s else pure s
    else some s

/-- Collect the transfers that may be spent, unless they are collected for this number of fake
outputs and some are left. -/
def prepareFreeTransfersCache : Wallet :=
  if wallet.foundFreeAmounts.size = 0 ∨ fakeOutputsCount ≠ wallet.fakeOutputsCount then
    { wallet.transfers.zipIdx.foldl (fun w (td, i) =>
          if isTransferAbleToGo fakeOutputsCount td then addTransferToTransfersCache td.amount i w
          else w)
        { wallet with foundFreeAmounts := ∅ } with fakeOutputsCount }
  else wallet

def selectTransfers : Option (Selection × Wallet) := do
  let wallet := wallet.prepareFreeTransfersCache fakeOutputsCount
  let s ← wallet.selectIndicesForTransfer coreTime fakeOutputsCount neededMoney
    (FreeAmounts.listed wallet.foundFreeAmounts) ⟨0, [], wallet.foundFreeAmounts⟩
  pure (s, { wallet with foundFreeAmounts := s.foundFreeAmounts })

/-- Change the flags of transfers; a number that is too large is refused by an exception in the
source and passed over here. -/
def changeFlags (change : TransferFlags → TransferFlags) (indices : List Nat) : Wallet :=
  indices.foldl (fun w i => w.updateTransfer i (mapFlags change)) wallet

def markTransfersWithFlag (indices : List Nat) (flag : TransferFlags) : Wallet :=
  wallet.changeFlags (fun flags => flags.add flag) indices

def clearTransfersFromFlag (indices : List Nat) (flag : TransferFlags) : Wallet :=
  wallet.changeFlags (fun flags => flags.remove flag) indices

def addTransfersToTransfersCache (indices : List Nat) : Wallet :=
  indices.foldl (fun w i => addTransferToTransfersCache (w.amountAt i) i w) wallet

end Selecting

section Sources

variable (coreTime : Nat)

/-- Reserve transfers for amounts in turn, until one is not found. -/
def holdSources : List Nat → Wallet → Option (Bool × List (List Nat) × Wallet)
  | [], wallet => some (true, [], wallet)
  | am :: rest, wallet => do
    let (s, wallet) ← wallet.selectTransfers coreTime 0 am
    if s.foundMoney < am then pure (false, [s.selectedIndexes], wallet)
    else do
      let (res, holds, wallet) ←
        holdSources rest (wallet.markTransfersWithFlag s.selectedIndexes TransferFlags.flagBlocked)
      pure (res, s.selectedIndexes :: holds, wallet)

/-- Whether there are sources for all amounts; what was reserved is given back. -/
def checkAvailableSources (amounts : List Nat) (wallet : Wallet) : Option (Bool × Wallet) := do
  let (res, holds, wallet) ←
    holdSources coreTime (amounts.mergeSort fun a b => decide (a ≤ b)) wallet
  pure (res, holds.foldl (fun w hold =>
    (w.clearTransfersFromFlag hold TransferFlags.flagBlocked).addTransfersToTransfersCache hold)
    wallet)

end Sources

/-! ## What a selection finds -/

section Choosing

variable (wallet : Wallet) (coreTime fakeOutputsCount : Nat)

/-- The numbers of the transfers that are ready. -/
def readyIndices : List Nat :=
  (List.range wallet.transfers.length).filter fun i => wallet.readyAt coreTime fakeOutputsCount i

/-- The amounts of the transfers that are ready, together. -/
def readyMoney : Nat :=
  ((wallet.readyIndices coreTime fakeOutputsCount).map wallet.amountAt).sum

/-- The sets list transfers of the wallet under their amounts. -/
def Names (free : FreeAmounts) : Prop :=
  ∀ amount i, free.Lists amount i →
    i < wallet.transfers.length ∧ wallet.amountAt i = amount

/-- What every round of a selection from sets keeps. -/
structure Chooses (free : FreeAmounts) (s : Selection) : Prop where
  filled : s.foundFreeAmounts.Filled
  fewer : ∀ amount i, s.foundFreeAmounts.Lists amount i → free.Lists amount i
  distinct : s.selectedIndexes.Nodup
  ready : ∀ i ∈ s.selectedIndexes, wallet.readyAt coreTime fakeOutputsCount i = true
  taken : ∀ i ∈ s.selectedIndexes, ∀ amount, ¬ s.foundFreeAmounts.Lists amount i
  exact : s.foundMoney = (s.selectedIndexes.map wallet.amountAt).sum
  rest : ∀ amount i, free.Lists amount i →
    wallet.readyAt coreTime fakeOutputsCount i = true →
      i ∈ s.selectedIndexes ∨ s.foundFreeAmounts.Lists amount i

variable {wallet coreTime fakeOutputsCount} {free : FreeAmounts} {s : Selection} {neededMoney : Nat}

theorem lt_of_readyAt {i : Nat} (ready : wallet.readyAt coreTime fakeOutputsCount i = true) :
    i < wallet.transfers.length := by
  rw [readyAt] at ready
  cases there : wallet.transfers[i]? with
  | none =>
    rw [there] at ready
    cases ready
  | some td => exact (List.getElem?_eq_some_iff.mp there).1

theorem mem_readyIndices {i : Nat} :
    i ∈ wallet.readyIndices coreTime fakeOutputsCount ↔
      wallet.readyAt coreTime fakeOutputsCount i = true := by
  rw [readyIndices, List.mem_filter, List.mem_range]
  exact ⟨And.right, fun ready => ⟨lt_of_readyAt ready, ready⟩⟩

/-- Different transfers that are ready have no more than all that are. -/
theorem sum_le_readyMoney {indices : List Nat} (distinct : indices.Nodup)
    (ready : ∀ i ∈ indices, wallet.readyAt coreTime fakeOutputsCount i = true) :
    (indices.map wallet.amountAt).sum ≤ wallet.readyMoney coreTime fakeOutputsCount := by
  have inside : indices ⊆ wallet.readyIndices coreTime fakeOutputsCount := fun i member =>
    mem_readyIndices.mpr (ready i member)
  obtain ⟨part, perm, sublist⟩ := distinct.subperm inside
  rw [← (perm.map wallet.amountAt).sum_eq]
  exact (sublist.map wallet.amountAt).sum_le_sum fun _ _ => Nat.zero_le _

/-- One round takes an index out, and selects it if it is ready. -/
theorem chooses_round (named : wallet.Names free)
    (bounded : wallet.readyMoney coreTime fakeOutputsCount < 2 ^ 64)
    (chooses : wallet.Chooses coreTime fakeOutputsCount free s) {amount : Nat}
    {indices : Container Nat (Option OutputRef)}
    (there : s.foundFreeAmounts.get amount = some indices) :
    ∃ s', wallet.selectOne coreTime fakeOutputsCount amount indices s = (true, s') ∧
      wallet.Chooses coreTime fakeOutputsCount free s' ∧
      s'.foundFreeAmounts.listed + 1 = s.foundFreeAmounts.listed := by
  obtain ⟨i, output, first, here⟩ :=
    FreeAmounts.first_some (chooses.filled amount indices there)
  have listed : s.foundFreeAmounts.Lists amount i := ⟨indices, there, here⟩
  have amounts := (named amount i (chooses.fewer amount i listed)).2
  rw [selectOne, first]
  refine ⟨_, rfl, ?_, ?_⟩
  · by_cases ready : wallet.readyAt coreTime fakeOutputsCount i = true
    · rw [if_pos ready]
      have new : i ∉ s.selectedIndexes := fun member => chooses.taken i member amount listed
      have distinct : (s.selectedIndexes ++ [i]).Nodup :=
        List.nodup_append.mpr ⟨chooses.distinct, List.nodup_singleton i, fun j member k single => by
          rw [List.mem_singleton.mp single]
          exact fun same => new (same ▸ member)⟩
      have allReady : ∀ j ∈ s.selectedIndexes ++ [i],
          wallet.readyAt coreTime fakeOutputsCount j = true := by
        intro j member
        rcases List.mem_append.mp member with earlier | single
        · exact chooses.ready j earlier
        · rw [List.mem_singleton.mp single]
          exact ready
      have sum : ((s.selectedIndexes ++ [i]).map wallet.amountAt).sum = s.foundMoney + amount := by
        rw [List.map_append, List.sum_append, chooses.exact, List.map_singleton,
          List.sum_singleton, amounts]
      have small := sum_le_readyMoney distinct allReady
      refine ⟨FreeAmounts.filled_drop chooses.filled, fun b j left => ?_, distinct, allReady,
        fun j member b left => ?_, ?_, fun b j first readyToo => ?_⟩
      · exact chooses.fewer b j (FreeAmounts.lists_drop.mp left).1
      · obtain ⟨before, other⟩ := FreeAmounts.lists_drop.mp left
        rcases List.mem_append.mp member with earlier | single
        · exact chooses.taken j earlier b before
        · rw [List.mem_singleton.mp single] at before other
          have same := (named b i (chooses.fewer b i before)).2
          exact other (by rw [← amounts, same])
      · rw [sum] at small ⊢
        exact Nat.mod_eq_of_lt (by omega)
      · rcases chooses.rest b j first readyToo with earlier | left
        · exact .inl (List.mem_append_left _ earlier)
        · by_cases same : (amount, i) = (b, j)
          · exact .inl (List.mem_append_right _ (by rw [(Prod.mk.inj same).2]; exact .head _))
          · exact .inr (FreeAmounts.lists_drop.mpr ⟨left, same⟩)
    · rw [if_neg ready]
      refine ⟨FreeAmounts.filled_drop chooses.filled, fun b j left => ?_, chooses.distinct,
        chooses.ready, fun j member b left => ?_, chooses.exact, fun b j first readyToo => ?_⟩
      · exact chooses.fewer b j (FreeAmounts.lists_drop.mp left).1
      · exact chooses.taken j member b (FreeAmounts.lists_drop.mp left).1
      · rcases chooses.rest b j first readyToo with earlier | left
        · exact .inl earlier
        · refine .inr (FreeAmounts.lists_drop.mpr ⟨left, fun same => ready ?_⟩)
          rw [(Prod.mk.inj same).2]
          exact readyToo
  · have sets : (if wallet.readyAt coreTime fakeOutputsCount i = true then
        { s with
          foundMoney := (s.foundMoney + amount) % 2 ^ 64
          selectedIndexes := s.selectedIndexes ++ [i] }
        else s).foundFreeAmounts = s.foundFreeAmounts := by
      split <;> rfl
    rw [sets]
    exact FreeAmounts.listed_drop there here

/-- With fuel for all indices the loop comes to its end. -/
theorem chooses_loop (named : wallet.Names free)
    (bounded : wallet.readyMoney coreTime fakeOutputsCount < 2 ^ 64) {fuel : Nat}
    (chooses : wallet.Chooses coreTime fakeOutputsCount free s)
    (enough : s.foundFreeAmounts.listed ≤ fuel) :
    ∃ s', wallet.selectIndicesForTransfer coreTime fakeOutputsCount neededMoney fuel s = some s' ∧
      wallet.Chooses coreTime fakeOutputsCount free s' ∧
      (neededMoney ≤ s'.foundMoney ∨ s'.foundFreeAmounts.size = 0) := by
  induction fuel generalizing s with
  | zero =>
    rw [selectIndicesForTransfer]
    split
    · next more =>
      obtain ⟨amount, indices, picked, there⟩ := FreeAmounts.pick_some more.2 0
      obtain ⟨s', _, _, less⟩ := chooses_round named bounded chooses there
      omega
    · next done =>
      refine ⟨s, rfl, chooses, ?_⟩
      omega
  | succ fuel ih =>
    rw [selectIndicesForTransfer]
    split
    · next more =>
      obtain ⟨amount, indices, picked, there⟩ :=
        FreeAmounts.pick_some more.2 (neededMoney - s.foundMoney)
      obtain ⟨s', round, next, less⟩ := chooses_round named bounded chooses there
      have shorter : s'.foundFreeAmounts.listed ≤ fuel := by omega
      rw [picked, Option.bind_eq_bind, Option.bind_some]
      dsimp only
      rw [round]
      exact ih next shorter
    · next done =>
      refine ⟨s, rfl, chooses, ?_⟩
      omega

/-- What a selection is to be: different transfers that are ready, the sum of their amounts, and
the needed amount if all that are ready together have it. -/
structure Chosen (wallet : Wallet) (coreTime fakeOutputsCount neededMoney : Nat) (s : Selection) :
    Prop where
  distinct : s.selectedIndexes.Nodup
  ready : ∀ i ∈ s.selectedIndexes, wallet.readyAt coreTime fakeOutputsCount i = true
  exact : s.foundMoney = (s.selectedIndexes.map wallet.amountAt).sum
  enough : neededMoney ≤ wallet.readyMoney coreTime fakeOutputsCount → neededMoney ≤ s.foundMoney

/-- Every transfer that is ready is in a set. -/
def ListsReady (wallet : Wallet) (coreTime fakeOutputsCount : Nat) (free : FreeAmounts) : Prop :=
  ∀ i, wallet.readyAt coreTime fakeOutputsCount i = true → ∃ amount, free.Lists amount i

/-- A selection from sets that list every transfer that is ready. -/
theorem Chooses.chosen (chooses : wallet.Chooses coreTime fakeOutputsCount free s)
    (lists : wallet.ListsReady coreTime fakeOutputsCount free)
    (ended : neededMoney ≤ s.foundMoney ∨ s.foundFreeAmounts.size = 0) :
    wallet.Chosen coreTime fakeOutputsCount neededMoney s := by
  refine ⟨chooses.distinct, chooses.ready, chooses.exact, fun affordable => ?_⟩
  rcases ended with enough | empty
  · exact enough
  · have all : wallet.readyIndices coreTime fakeOutputsCount ⊆ s.selectedIndexes := by
      intro i member
      have ready := mem_readyIndices.mp member
      obtain ⟨amount, listed⟩ := lists i ready
      rcases chooses.rest amount i listed ready with selected | ⟨indices, left, _⟩
      · exact selected
      · exact absurd empty ((FreeAmounts.size_ne_zero_iff _).mpr ⟨amount, indices, left⟩)
    have distinct : (wallet.readyIndices coreTime fakeOutputsCount).Nodup :=
      List.nodup_range.filter _
    obtain ⟨part, perm, sublist⟩ := distinct.subperm all
    have less : wallet.readyMoney coreTime fakeOutputsCount ≤ s.foundMoney := by
      rw [readyMoney, ← (perm.map wallet.amountAt).sum_eq, chooses.exact]
      exact (sublist.map wallet.amountAt).sum_le_sum fun _ _ => Nat.zero_le _
    omega

end Choosing

/-! ## The sets of a wallet -/

section Caching

variable {w : Wallet} {fakeOutputsCount amount index : Nat}

/-- The wallet with other sets. -/
def withFree (w : Wallet) (free : FreeAmounts) : Wallet := { w with foundFreeAmounts := free }

/-- An index is put into the set of an amount. -/
theorem addTransferToTransfersCache_eq (w : Wallet) (amount index : Nat)
    (filled : FreeAmounts.Filled w.foundFreeAmounts) :
    ∃ free : FreeAmounts, addTransferToTransfersCache amount index w = w.withFree free ∧
      free.Filled ∧ ∀ b j, free.Lists b j ↔
        FreeAmounts.Lists w.foundFreeAmounts b j ∨ (amount, index) = (b, j) := by
  refine ⟨_, rfl, ?_, ?_⟩
  · intro b indices there
    rw [Container.get_set] at there
    split at there
    · refine ⟨index, ?_⟩
      cases there
      split
      · assumption
      · rw [Container.has, Container.get_set_self]
        rfl
    · exact filled b indices there
  · intro b j
    rw [FreeAmounts.Lists, Container.get_set]
    by_cases here : amount = b
    · subst here
      rw [if_pos rfl]
      have before : FreeAmounts.Lists w.foundFreeAmounts amount j ↔
          ((w.foundFreeAmounts.get amount).getD ∅).has j = true := by
        rw [FreeAmounts.Lists]
        cases w.foundFreeAmounts.get amount with
        | none => simp [Container.has]
        | some indices => simp
      rw [before]
      simp only [Option.some.injEq, exists_eq_left', Prod.mk.injEq, true_and]
      by_cases same : index = j
      · subst same
        simp only [or_true, iff_true]
        split
        · assumption
        · rw [Container.has, Container.get_set_self]
          rfl
      · simp only [same, or_false]
        split
        · rfl
        · rw [Container.has, Container.has, Container.get_set_of_ne _ _ same]
    · rw [if_neg here]
      exact ⟨.inl, fun listed => listed.resolve_right fun equal => here (Prod.mk.inj equal).1⟩

/-- Transfers that may be spent are put into the sets in turn. -/
theorem collect_eq (items : List (TransferDetails × Nat)) (w : Wallet)
    (filled : FreeAmounts.Filled w.foundFreeAmounts) :
    ∃ free : FreeAmounts, items.foldl (fun w (td, i) =>
        if isTransferAbleToGo fakeOutputsCount td then addTransferToTransfersCache td.amount i w
        else w) w = w.withFree free ∧ free.Filled ∧
      ∀ b j, free.Lists b j ↔ FreeAmounts.Lists w.foundFreeAmounts b j ∨
        ∃ td, (td, j) ∈ items ∧ isTransferAbleToGo fakeOutputsCount td = true ∧ td.amount = b := by
  induction items generalizing w with
  | nil =>
    refine ⟨w.foundFreeAmounts, rfl, filled, fun b j => ⟨.inl, fun listed => ?_⟩⟩
    exact listed.resolve_right fun ⟨_, member, _⟩ => by cases member
  | cons item rest ih =>
    obtain ⟨td, i⟩ := item
    rw [List.foldl_cons]
    by_cases able : isTransferAbleToGo fakeOutputsCount td = true
    · obtain ⟨added, same, filledToo, lists⟩ :=
        addTransferToTransfersCache_eq w td.amount i filled
      dsimp only
      rw [if_pos able, same]
      obtain ⟨free, whole, filledAll, all⟩ := ih (w.withFree added) filledToo
      refine ⟨free, whole, filledAll, fun b j => ?_⟩
      rw [all, withFree, lists]
      constructor
      · rintro ((before | new) | ⟨other, member, meets⟩)
        · exact .inl before
        · obtain ⟨rfl, rfl⟩ := Prod.mk.inj new
          exact .inr ⟨td, .head _, able, rfl⟩
        · exact .inr ⟨other, .tail _ member, meets⟩
      · rintro (before | ⟨other, member, ableToo, amounts⟩)
        · exact .inl (.inl before)
        · rcases List.mem_cons.mp member with same | later
          · obtain ⟨rfl, rfl⟩ := Prod.mk.inj same
            exact .inl (.inr (by rw [amounts]))
          · exact .inr ⟨other, later, ableToo, amounts⟩
    · dsimp only
      rw [if_neg able]
      obtain ⟨free, whole, filledAll, all⟩ := ih w filled
      refine ⟨free, whole, filledAll, fun b j => ?_⟩
      rw [all]
      refine or_congr_right ⟨fun ⟨other, member, meets⟩ => ⟨other, .tail _ member, meets⟩, ?_⟩
      rintro ⟨other, member, ableToo, amounts⟩
      rcases List.mem_cons.mp member with same | later
      · exact absurd ((Prod.mk.inj same).1 ▸ ableToo) able
      · exact ⟨other, later, ableToo, amounts⟩

variable {coreTime neededMoney : Nat}

/-- The sets list transfers of the wallet, and no set is empty. -/
structure Tidy (w : Wallet) : Prop where
  filled : FreeAmounts.Filled w.foundFreeAmounts
  names : w.Names w.foundFreeAmounts

/-- There is no set, or the sets list every transfer that is ready. -/
def Collected (w : Wallet) (coreTime : Nat) : Prop :=
  w.foundFreeAmounts.size = 0 ∨ w.ListsReady coreTime w.fakeOutputsCount w.foundFreeAmounts

/-- The wallet with the sets for a number of fake outputs. -/
def withFreeFor (w : Wallet) (free : FreeAmounts) (fakeOutputsCount : Nat) : Wallet :=
  { w with foundFreeAmounts := free, fakeOutputsCount }

/-- Sets that are there or collected anew list every transfer that is ready. -/
theorem prepareFreeTransfersCache_eq (tidy : w.Tidy) (collected : w.Collected coreTime) :
    ∃ free : FreeAmounts,
      w.prepareFreeTransfersCache fakeOutputsCount = w.withFreeFor free fakeOutputsCount ∧
      free.Filled ∧ w.Names free ∧ w.ListsReady coreTime fakeOutputsCount free := by
  rw [prepareFreeTransfersCache]
  split
  · have none : FreeAmounts.Filled (∅ : FreeAmounts) := fun b indices there => by
      rw [Container.get_empty] at there
      cases there
    obtain ⟨free, whole, filled, lists⟩ :=
      @collect_eq fakeOutputsCount w.transfers.zipIdx (w.withFree ∅) none
    have listed : ∀ b j, free.Lists b j ↔ ∃ td, w.transfers[j]? = some td ∧
        isTransferAbleToGo fakeOutputsCount td = true ∧ td.amount = b := by
      intro b j
      rw [lists]
      have empty : ¬ FreeAmounts.Lists (w.withFree ∅).foundFreeAmounts b j := by
        rintro ⟨indices, there, _⟩
        rw [withFree, Container.get_empty] at there
        cases there
      simp only [empty, false_or, List.mem_zipIdx_iff_getElem?]
    refine ⟨free, ?_, filled, fun b j there => ?_, fun j ready => ?_⟩
    · rw [withFree] at whole
      rw [whole]
      rfl
    · obtain ⟨td, found, _, amounts⟩ := (listed b j).mp there
      refine ⟨(List.getElem?_eq_some_iff.mp found).1, ?_⟩
      rw [amountAt, found]
      exact amounts
    · rw [readyAt] at ready
      cases found : w.transfers[j]? with
      | none =>
        rw [found] at ready
        cases ready
      | some td =>
        rw [found, Option.any_some, isTransferReadyToGo, Bool.and_eq_true] at ready
        exact ⟨td.amount, (listed _ j).mpr ⟨td, found, ready.1, rfl⟩⟩
  · next kept =>
    obtain ⟨some_, same⟩ := not_or.mp kept
    have same : fakeOutputsCount = w.fakeOutputsCount := not_not.mp same
    subst same
    exact ⟨w.foundFreeAmounts, rfl, tidy.filled, tidy.names, collected.resolve_left some_⟩

/-- What a selection is, and what it leaves in the sets. -/
theorem selectTransfers_spec (tidy : w.Tidy) (collected : w.Collected coreTime)
    (bounded : w.readyMoney coreTime fakeOutputsCount < 2 ^ 64) :
    ∃ s free, w.selectTransfers coreTime fakeOutputsCount neededMoney =
        some (s, w.withFreeFor s.foundFreeAmounts fakeOutputsCount) ∧
      w.Chosen coreTime fakeOutputsCount neededMoney s ∧ w.Names free ∧
      w.ListsReady coreTime fakeOutputsCount free ∧
      w.Chooses coreTime fakeOutputsCount free s := by
  obtain ⟨free, prepared, filled, names, lists⟩ :=
    @prepareFreeTransfersCache_eq w fakeOutputsCount coreTime tidy collected
  have begun : (w.withFreeFor free fakeOutputsCount).Chooses coreTime fakeOutputsCount free
      ⟨0, [], free⟩ :=
    ⟨filled, fun _ _ listed => listed, List.nodup_nil, fun _ member => (by cases member),
      fun _ member => (by cases member), rfl, fun _ _ listed _ => .inr listed⟩
  obtain ⟨s, found, chooses, ended⟩ := @chooses_loop (w.withFreeFor free fakeOutputsCount) coreTime
    fakeOutputsCount free _ neededMoney names bounded _ begun le_rfl
  have chooses : w.Chooses coreTime fakeOutputsCount free s :=
    ⟨chooses.filled, chooses.fewer, chooses.distinct, chooses.ready, chooses.taken, chooses.exact,
      chooses.rest⟩
  refine ⟨s, free, ?_, chooses.chosen lists ended, names, lists, chooses⟩
  rw [selectTransfers, prepared]
  exact Option.bind_eq_some_iff.mpr ⟨s, found, rfl⟩

end Caching

/-! ## Flags and the sets -/

section Flags

variable {w w' : Wallet} {coreTime fakeOutputsCount : Nat}
  {change : TransferFlags → TransferFlags} {indices : List Nat}

/-- Only transfers change with their flags. -/
theorem changeFlags_eq (w : Wallet) (change : TransferFlags → TransferFlags) (indices : List Nat) :
    ∃ transfers, w.changeFlags change indices = { w with transfers } ∧
      transfers.length = w.transfers.length := by
  induction indices generalizing w with
  | nil => exact ⟨w.transfers, rfl, rfl⟩
  | cons i rest ih =>
    obtain ⟨transfers, same, length⟩ := ih (w.updateTransfer i (mapFlags change))
    refine ⟨transfers, same, length.trans ?_⟩
    rw [updateTransfer, List.length_modify]

/-- The flags of the listed transfers change, once. -/
theorem changeFlags_getElem? (again : ∀ flags, change (change flags) = change flags) (w : Wallet)
    (indices : List Nat) (j : Nat) :
    (w.changeFlags change indices).transfers[j]? =
      if j ∈ indices then (w.transfers[j]?).map (mapFlags change) else w.transfers[j]? := by
  induction indices generalizing w with
  | nil => rfl
  | cons i rest ih =>
    have one : (w.updateTransfer i (mapFlags change)).transfers[j]? =
        if i = j then (w.transfers[j]?).map (mapFlags change) else w.transfers[j]? := by
      rw [updateTransfer, List.getElem?_modify]
      split <;> cases w.transfers[j]? <;> rfl
    have twice : ∀ td : Option TransferDetails,
        (td.map (mapFlags change)).map (mapFlags change) = td.map (mapFlags change) := by
      intro td
      cases td with
      | none => rfl
      | some td => simp only [Option.map_some, mapFlags, again]
    have later : (w.changeFlags change (i :: rest)).transfers[j]? =
        ((w.updateTransfer i (mapFlags change)).changeFlags change rest).transfers[j]? := rfl
    rw [later, ih, one]
    by_cases here : i = j
    · subst here
      simp only [↓reduceIte, twice, ite_self, List.mem_cons, true_or]
    · simp only [here, ↓reduceIte, List.mem_cons, Ne.symm here, false_or]

/-- The amounts stay when flags change. -/
theorem changeFlags_amountAt (again : ∀ flags, change (change flags) = change flags) (w : Wallet)
    (indices : List Nat) (j : Nat) : (w.changeFlags change indices).amountAt j = w.amountAt j := by
  rw [amountAt, amountAt, changeFlags_getElem? again]
  split
  · rw [Option.map_map]
    rfl
  · rfl

/-- Whether a transfer is ready after flags have changed. -/
theorem changeFlags_readyAt (again : ∀ flags, change (change flags) = change flags) (w : Wallet)
    (indices : List Nat) (j : Nat) :
    (w.changeFlags change indices).readyAt coreTime fakeOutputsCount j =
      if j ∈ indices then (w.transfers[j]?).any fun td =>
        w.isTransferReadyToGo coreTime fakeOutputsCount (mapFlags change td)
      else w.readyAt coreTime fakeOutputsCount j := by
  obtain ⟨transfers, same, _⟩ := changeFlags_eq w change indices
  have found := changeFlags_getElem? again w indices j
  rw [same] at found ⊢
  rw [readyAt, found]
  split
  · rw [Option.any_map]
    rfl
  · rfl

/-- What reserves a transfer. -/
inductive Lock where
  | spent
  | proposal
  | coldSig

def Lock.flag : Lock → TransferFlags
  | .spent => TransferFlags.flagSpent
  | .proposal => lockedForProposal
  | .coldSig => TransferFlags.flagColdSigReservation

theorem add_twice (flag flags : TransferFlags) : (flags.add flag).add flag = flags.add flag := by
  simp only [TransferFlags.add, Bool.or_assoc, Bool.or_self]

theorem remove_twice (flag flags : TransferFlags) :
    (flags.remove flag).remove flag = flags.remove flag := by
  simp only [TransferFlags.remove, Bool.and_assoc, Bool.and_self]

/-- A transfer with a reservation is not ready. -/
theorem locked_not_ready {flag : TransferFlags}
    (reserves : ∀ td : TransferDetails,
      (mapFlags (fun flags => flags.add flag) td).isSpendable = false) {i : Nat} :
    (w.markTransfersWithFlag indices flag).readyAt coreTime fakeOutputsCount i = true ↔
      i ∉ indices ∧ w.readyAt coreTime fakeOutputsCount i = true := by
  rw [markTransfersWithFlag, changeFlags_readyAt (add_twice flag)]
  by_cases member : i ∈ indices
  · rw [if_pos member]
    refine ⟨fun ready => ?_, fun ready => absurd member ready.1⟩
    cases there : w.transfers[i]? with
    | none =>
      rw [there] at ready
      cases ready
    | some td =>
      rw [there, Option.any_some, isTransferReadyToGo, isTransferAbleToGo, reserves,
        Bool.false_and, Bool.false_and] at ready
      cases ready
  · rw [if_neg member]
    exact ⟨fun ready => ⟨member, ready⟩, And.right⟩

theorem Lock.reserves (lock : Lock) (td : TransferDetails) :
    (mapFlags (fun flags => flags.add lock.flag) td).isSpendable = false := by
  cases lock <;>
    simp [TransferDetailsBase.isSpendable, mapFlags, Lock.flag, lockedForProposal,
      TransferFlags.meets, TransferFlags.add, TransferFlags.flagSpent, TransferFlags.flagBlocked,
      TransferFlags.flagEscrowProposalReservation, TransferFlags.flagColdSigReservation]

theorem blocked_reserves (td : TransferDetails) :
    (mapFlags (fun flags => flags.add TransferFlags.flagBlocked) td).isSpendable = false := by
  simp [TransferDetailsBase.isSpendable, mapFlags, TransferFlags.meets, TransferFlags.add,
    TransferFlags.flagSpent, TransferFlags.flagBlocked,
    TransferFlags.flagEscrowProposalReservation, TransferFlags.flagColdSigReservation]

theorem clearTransfersFromFlag_readyAt {flag : TransferFlags} {i : Nat}
    (ready : (w.clearTransfersFromFlag indices flag).readyAt coreTime fakeOutputsCount i = true) :
    i ∈ indices ∨ w.readyAt coreTime fakeOutputsCount i = true := by
  rw [clearTransfersFromFlag, changeFlags_readyAt (remove_twice flag)] at ready
  by_cases member : i ∈ indices
  · exact .inl member
  · rw [if_neg member] at ready
    exact .inr ready

/-- Transfers are put into the sets under their amounts. -/
theorem addTransfersToTransfersCache_eq (indices : List Nat) (w : Wallet)
    (filled : FreeAmounts.Filled w.foundFreeAmounts) :
    ∃ free : FreeAmounts, w.addTransfersToTransfersCache indices = w.withFree free ∧ free.Filled ∧
      ∀ b j, free.Lists b j ↔
        FreeAmounts.Lists w.foundFreeAmounts b j ∨ j ∈ indices ∧ w.amountAt j = b := by
  induction indices generalizing w with
  | nil =>
    refine ⟨w.foundFreeAmounts, rfl, filled, fun b j => ⟨.inl, fun listed => ?_⟩⟩
    exact listed.resolve_right fun member => by cases member.1
  | cons i rest ih =>
    obtain ⟨added, same, filledToo, lists⟩ :=
      addTransferToTransfersCache_eq w (w.amountAt i) i filled
    obtain ⟨free, whole, filledAll, all⟩ := ih (w.withFree added) filledToo
    have first : w.addTransfersToTransfersCache (i :: rest) =
        (addTransferToTransfersCache (w.amountAt i) i w).addTransfersToTransfersCache rest := rfl
    refine ⟨free, first.trans (by rw [same, whole]; rfl), filledAll, fun b j => ?_⟩
    have amounts : (w.withFree added).amountAt j = w.amountAt j := rfl
    rw [all, amounts, withFree, lists, List.mem_cons, Prod.mk.injEq]
    constructor
    · rintro ((before | ⟨here, rfl⟩) | ⟨member, here⟩)
      · exact .inl before
      · exact .inr ⟨.inl rfl, here⟩
      · exact .inr ⟨.inr member, here⟩
    · rintro (before | ⟨rfl | member, here⟩)
      · exact .inl (.inl before)
      · exact .inl (.inr ⟨here, rfl⟩)
      · exact .inr ⟨member, here⟩

end Flags
end Virie.Wallet
