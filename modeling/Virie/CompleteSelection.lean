import Virie.Foundation.Runs
import Virie.Wallet.CoinSelection

/-! # Complete coin selection

A wallet selects transfers, reserves them, gives them back and refreshes, in any order. The sets
of free transfers are kept between these calls, and a transfer that becomes ready while they are
kept without it is not found. -/

open Foundation

namespace Virie.Wallet

/-! ## Calls that use the sets -/

section Calls

variable (coreTime : Nat) (wallet : Wallet)

/-- Select transfers and reserve them. When they are not enough, an exception drops the sets. -/
def spendTransfers (neededMoney fakeOutputsCount : Nat) (lock : Lock) : Wallet :=
  match wallet.selectTransfers coreTime fakeOutputsCount neededMoney with
  | none => wallet
  | some (s, wallet) =>
    if s.foundMoney < neededMoney then wallet.exceptionHandler
    else wallet.markTransfersWithFlag s.selectedIndexes lock.flag

/-- Select transfers for a transaction whose other ring members the node does not deliver: the
exception of a lost connection or a busy node leaves the sets as they are. -/
def abandonTransfers (neededMoney fakeOutputsCount : Nat) : Wallet :=
  match wallet.selectTransfers coreTime fakeOutputsCount neededMoney with
  | none => wallet
  | some (s, wallet) => if s.foundMoney < neededMoney then wallet.exceptionHandler else wallet

/-- Give back the transfers of a template when the proposal of an escrow fails. -/
def undoTemplate (indices : List Nat) : Wallet :=
  (wallet.clearTransfersFromFlag indices lockedForProposal).addTransfersToTransfersCache indices

end Calls

/-- A wallet and the clock of its core. -/
structure Purse where
  wallet : Wallet
  coreTime : Nat

/-- What happens to a wallet between selections. -/
inductive PurseEvent where
  /-- A refresh fetches blocks and comes to its end. The wallet may be any afterwards. -/
  | refreshed (wallet : Wallet) (coreTime : Nat)
  /-- Flags change or time passes in another part of the wallet, or a refresh is given up. The
  transfers from a number on have been received, and are put into the sets. -/
  | elsewhere (wallet : Wallet) (kept : Nat) (coreTime : Nat)
  | exceptionHandler
  | prepareFreeTransfersCache (fakeOutputsCount : Nat)
  | spend (neededMoney fakeOutputsCount : Nat) (lock : Lock)
  | abandon (neededMoney fakeOutputsCount : Nat)
  | undo (indices : List Nat)
  | checkAvailableSources (amounts : List Nat)

namespace Purse

def step : PurseEvent → Purse → Purse
  | .refreshed wallet coreTime, _ => ⟨{ wallet with foundFreeAmounts := ∅ }, coreTime⟩
  | .elsewhere wallet kept coreTime, p =>
    ⟨(wallet.withFreeFor p.wallet.foundFreeAmounts
        p.wallet.fakeOutputsCount).addTransfersToTransfersCache
      (List.range' kept (wallet.transfers.length - kept)), coreTime⟩
  | .exceptionHandler, p => { p with wallet := p.wallet.exceptionHandler }
  | .prepareFreeTransfersCache fakeOutputsCount, p =>
    { p with wallet := p.wallet.prepareFreeTransfersCache fakeOutputsCount }
  | .spend neededMoney fakeOutputsCount lock, p =>
    { p with wallet := p.wallet.spendTransfers p.coreTime neededMoney fakeOutputsCount lock }
  | .abandon neededMoney fakeOutputsCount, p =>
    { p with wallet := p.wallet.abandonTransfers p.coreTime neededMoney fakeOutputsCount }
  | .undo indices, p => { p with wallet := p.wallet.undoTemplate indices }
  | .checkAvailableSources amounts, p =>
    { p with wallet := ((Wallet.checkAvailableSources p.coreTime amounts p.wallet).map
        Prod.snd).getD p.wallet }

/-- Wallets start without transfers. -/
def system : System PurseEvent Purse where
  start p := p.wallet = Wallet.new
  step := step

/-- A transfer is ready for a number of fake outputs. -/
def Ready (p : Purse) (fakeOutputsCount i : Nat) : Prop :=
  p.wallet.readyAt p.coreTime fakeOutputsCount i = true

/-- The transfers that are ready together fit into 64 bits. -/
def Bounded (p : Purse) : Prop :=
  ∀ fakeOutputsCount, p.wallet.readyMoney p.coreTime fakeOutputsCount < 2 ^ 64

/-- A transfer is in a set. -/
def Listed (p : Purse) (i : Nat) : Prop :=
  ∃ amount, FreeAmounts.Lists p.wallet.foundFreeAmounts amount i

/-- A step keeps no sets without a transfer that becomes ready. -/
def Regular (event : PurseEvent) (p : Purse) : Prop :=
  (step event p).Bounded ∧
    match event with
    | .elsewhere wallet kept coreTime =>
      (∀ i, p.Listed i → i < wallet.transfers.length ∧ wallet.amountAt i = p.wallet.amountAt i) ∧
        (p.wallet.foundFreeAmounts.size = 0 ∧ wallet.transfers.length ≤ kept ∨
          ∀ i < kept, wallet.readyAt coreTime p.wallet.fakeOutputsCount i = true →
            p.wallet.foundFreeAmounts.size ≠ 0 ∧ p.Ready p.wallet.fakeOutputsCount i ∨ p.Listed i)
    | .abandon neededMoney fakeOutputsCount =>
      neededMoney = 0 ∨ p.wallet.readyMoney p.coreTime fakeOutputsCount < neededMoney
    | .undo indices =>
      (∀ i ∈ indices, i < p.wallet.transfers.length) ∧
        (p.wallet.foundFreeAmounts.size = 0 →
          ∀ i, p.Ready p.wallet.fakeOutputsCount i → i ∈ indices)
    | _ => True

/-- Whatever is needed, a selection ends and is as it is to be. -/
def SelectsCoins (p : Purse) : Prop :=
  ∀ neededMoney fakeOutputsCount, ∃ s wallet,
    p.wallet.selectTransfers p.coreTime fakeOutputsCount neededMoney = some (s, wallet) ∧
      p.wallet.Chosen p.coreTime fakeOutputsCount neededMoney s

/-- The sets of a wallet are tidy and collected. -/
structure Sound (p : Purse) : Prop where
  tidy : p.wallet.Tidy
  collected : p.wallet.Collected p.coreTime
  bounded : p.Bounded

variable {p : Purse} {event : PurseEvent}

theorem Sound.selectsCoins (sound : p.Sound) : p.SelectsCoins := by
  intro neededMoney fakeOutputsCount
  obtain ⟨s, free, selected, chosen, _⟩ := @selectTransfers_spec p.wallet fakeOutputsCount
    p.coreTime neededMoney sound.tidy sound.collected (sound.bounded fakeOutputsCount)
  exact ⟨s, _, selected, chosen⟩

end Purse

section Steps

variable {w : Wallet} {coreTime : Nat}

/-- A wallet without sets. -/
theorem dropped_sound (w : Wallet) (coreTime : Nat) :
    (w.withFree ∅).Tidy ∧ (w.withFree ∅).Collected coreTime := by
  have none : ∀ amount i, ¬ FreeAmounts.Lists (∅ : FreeAmounts) amount i := by
    rintro amount i ⟨indices, there, _⟩
    rw [Container.get_empty] at there
    cases there
  refine ⟨⟨fun amount indices there => ?_, fun amount i listed => absurd listed (none amount i)⟩,
    .inl rfl⟩
  rw [withFree, Container.get_empty] at there
  cases there

/-- What a selection leaves, with the selected transfers reserved by a flag. -/
theorem marked_sound {fakeOutputsCount : Nat} {free : FreeAmounts} {s : Selection}
    {flag : TransferFlags} (names : w.Names free)
    (lists : w.ListsReady coreTime fakeOutputsCount free)
    (chooses : w.Chooses coreTime fakeOutputsCount free s)
    (reserves : ∀ td : TransferDetails,
      (mapFlags (fun flags => flags.add flag) td).isSpendable = false) :
    ((w.withFreeFor s.foundFreeAmounts fakeOutputsCount).markTransfersWithFlag
        s.selectedIndexes flag).Tidy ∧
      ((w.withFreeFor s.foundFreeAmounts fakeOutputsCount).markTransfersWithFlag
        s.selectedIndexes flag).Collected coreTime := by
  obtain ⟨transfers, same, length⟩ := changeFlags_eq
    (w.withFreeFor s.foundFreeAmounts fakeOutputsCount) (fun flags => flags.add flag)
    s.selectedIndexes
  have amounts := @changeFlags_amountAt (fun flags => flags.add flag) (add_twice flag)
    (w.withFreeFor s.foundFreeAmounts fakeOutputsCount) s.selectedIndexes
  have ready := fun i => @locked_not_ready
    (w.withFreeFor s.foundFreeAmounts fakeOutputsCount) coreTime fakeOutputsCount
    s.selectedIndexes flag reserves i
  rw [markTransfersWithFlag, same] at ready
  rw [same] at amounts
  rw [markTransfersWithFlag, same]
  refine ⟨⟨chooses.filled, fun amount i listed => ?_⟩, .inr fun i readyNow => ?_⟩
  · obtain ⟨inside, exact_⟩ := names amount i (chooses.fewer amount i listed)
    exact ⟨length.symm ▸ inside, (amounts i).trans exact_⟩
  · obtain ⟨other, before⟩ := (ready i).mp readyNow
    obtain ⟨amount, listed⟩ := lists i before
    exact ⟨amount, (chooses.rest amount i listed before).resolve_left other⟩

theorem spend_sound {neededMoney fakeOutputsCount : Nat} (tidy : w.Tidy)
    (collected : w.Collected coreTime) (bounded : w.readyMoney coreTime fakeOutputsCount < 2 ^ 64)
    (lock : Lock) :
    (w.spendTransfers coreTime neededMoney fakeOutputsCount lock).Tidy ∧
      (w.spendTransfers coreTime neededMoney fakeOutputsCount lock).Collected coreTime := by
  obtain ⟨s, free, selected, chosen, names, lists, chooses⟩ :=
    @selectTransfers_spec w fakeOutputsCount coreTime neededMoney tidy collected bounded
  rw [spendTransfers, selected]
  dsimp only
  split
  · exact dropped_sound (w.withFreeFor s.foundFreeAmounts fakeOutputsCount) coreTime
  · exact marked_sound names lists chooses lock.reserves

/-- Nothing is taken out when nothing is needed. -/
theorem selectTransfers_zero (w : Wallet) (coreTime fakeOutputsCount : Nat) :
    ∃ s, s.foundFreeAmounts = (w.prepareFreeTransfersCache fakeOutputsCount).foundFreeAmounts ∧
      w.selectTransfers coreTime fakeOutputsCount 0 =
        some (s, w.prepareFreeTransfersCache fakeOutputsCount) := by
  have ends : ∀ (wallet : Wallet) fuel s,
      wallet.selectIndicesForTransfer coreTime fakeOutputsCount 0 fuel s = some s := by
    intro wallet fuel s
    cases fuel with
    | zero => rw [selectIndicesForTransfer, if_neg (by omega)]
    | succ fuel => rw [selectIndicesForTransfer, if_neg (by omega)]
  refine ⟨⟨0, [], (w.prepareFreeTransfersCache fakeOutputsCount).foundFreeAmounts⟩, rfl, ?_⟩
  exact Option.bind_eq_some_iff.mpr ⟨_, ends _ _ _, rfl⟩

theorem prepared_sound (fakeOutputsCount : Nat) (tidy : w.Tidy)
    (collected : w.Collected coreTime) :
    (w.prepareFreeTransfersCache fakeOutputsCount).Tidy ∧
      (w.prepareFreeTransfersCache fakeOutputsCount).Collected coreTime := by
  obtain ⟨free, prepared, filled, names, lists⟩ :=
    @prepareFreeTransfersCache_eq w fakeOutputsCount coreTime tidy collected
  rw [prepared]
  exact ⟨⟨filled, names⟩, .inr lists⟩

theorem abandon_sound {neededMoney fakeOutputsCount : Nat} (tidy : w.Tidy)
    (collected : w.Collected coreTime) (bounded : w.readyMoney coreTime fakeOutputsCount < 2 ^ 64)
    (few : neededMoney = 0 ∨ w.readyMoney coreTime fakeOutputsCount < neededMoney) :
    (w.abandonTransfers coreTime neededMoney fakeOutputsCount).Tidy ∧
      (w.abandonTransfers coreTime neededMoney fakeOutputsCount).Collected coreTime := by
  rcases few with rfl | few
  · obtain ⟨s, _, selected⟩ := selectTransfers_zero w coreTime fakeOutputsCount
    rw [abandonTransfers, selected]
    dsimp only
    rw [if_neg (Nat.not_lt_zero _)]
    exact prepared_sound fakeOutputsCount tidy collected
  · obtain ⟨s, free, selected, chosen, _⟩ :=
      @selectTransfers_spec w fakeOutputsCount coreTime neededMoney tidy collected bounded
    have less : s.foundMoney < neededMoney := by
      have all := sum_le_readyMoney chosen.distinct chosen.ready
      rw [← chosen.exact] at all
      omega
    rw [abandonTransfers, selected]
    dsimp only
    rw [if_pos less]
    exact dropped_sound (w.withFreeFor s.foundFreeAmounts fakeOutputsCount) coreTime

/-- Reserved transfers lose a flag and are back in the sets. -/
structure GivenBack (w : Wallet) (hold : List Nat) (after : Wallet) : Prop where
  tidy : after.Tidy
  length : after.transfers.length = w.transfers.length
  fake : after.fakeOutputsCount = w.fakeOutputsCount
  listed : ∀ i, (∃ amount, FreeAmounts.Lists after.foundFreeAmounts amount i) ↔
    (∃ amount, FreeAmounts.Lists w.foundFreeAmounts amount i) ∨ i ∈ hold
  ready : ∀ coreTime fakeOutputsCount i, after.readyAt coreTime fakeOutputsCount i = true →
    i ∈ hold ∨ w.readyAt coreTime fakeOutputsCount i = true

theorem giveBack_spec (tidy : w.Tidy) {hold : List Nat}
    (inside : ∀ i ∈ hold, i < w.transfers.length) (flag : TransferFlags) :
    w.GivenBack hold ((w.clearTransfersFromFlag hold flag).addTransfersToTransfersCache hold) := by
  obtain ⟨transfers, same, length⟩ := changeFlags_eq w (fun flags => flags.remove flag) hold
  have amounts := @changeFlags_amountAt (fun flags => flags.remove flag) (remove_twice flag) w hold
  have ready := fun coreTime fakeOutputsCount i =>
    @clearTransfersFromFlag_readyAt w coreTime fakeOutputsCount hold flag i
  rw [clearTransfersFromFlag, same] at ready
  rw [same] at amounts
  rw [clearTransfersFromFlag, same]
  obtain ⟨free, added, filled, lists⟩ :=
    addTransfersToTransfersCache_eq hold { w with transfers } tidy.filled
  rw [added]
  refine ⟨⟨filled, fun amount i listed => ?_⟩, length, rfl, fun i => ⟨?_, ?_⟩, ready⟩
  · rcases (lists amount i).mp listed with before | ⟨member, here⟩
    · obtain ⟨there, exact_⟩ := tidy.names amount i before
      exact ⟨length.symm ▸ there, (amounts i).trans exact_⟩
    · exact ⟨length.symm ▸ inside i member, here⟩
  · rintro ⟨amount, listed⟩
    rcases (lists amount i).mp listed with before | ⟨member, _⟩
    · exact .inl ⟨amount, before⟩
    · exact .inr member
  · rintro (⟨amount, before⟩ | member)
    · exact ⟨amount, (lists amount i).mpr (.inl before)⟩
    · exact ⟨_, (lists _ i).mpr (.inr ⟨member, rfl⟩)⟩

theorem undo_sound {indices : List Nat} (tidy : w.Tidy) (collected : w.Collected coreTime)
    (inside : ∀ i ∈ indices, i < w.transfers.length)
    (all : w.foundFreeAmounts.size = 0 →
      ∀ i, w.readyAt coreTime w.fakeOutputsCount i = true → i ∈ indices) :
    (w.undoTemplate indices).Tidy ∧ (w.undoTemplate indices).Collected coreTime := by
  have back := giveBack_spec tidy inside lockedForProposal
  refine ⟨back.tidy, .inr fun i ready => (back.listed i).mpr ?_⟩
  have same : (w.undoTemplate indices).fakeOutputsCount = w.fakeOutputsCount := back.fake
  rw [same] at ready
  rcases back.ready coreTime w.fakeOutputsCount i ready with member | before
  · exact .inr member
  · by_cases none : w.foundFreeAmounts.size = 0
    · exact .inr (all none i before)
    · exact .inl (collected.resolve_left none i before)

/-- Sets that are kept while transfers, or the time, change elsewhere. -/
theorem elsewhere_sound {p : Purse} (sound : p.Sound) {kept : Nat}
    (regular : p.Regular (.elsewhere w kept coreTime)) :
    (Purse.step (.elsewhere w kept coreTime) p).wallet.Tidy ∧
      (Purse.step (.elsewhere w kept coreTime) p).wallet.Collected coreTime := by
  obtain ⟨_, same, newly⟩ := regular
  obtain ⟨free, added, filled, lists⟩ := addTransfersToTransfersCache_eq
    (List.range' kept (w.transfers.length - kept))
    (w.withFreeFor p.wallet.foundFreeAmounts p.wallet.fakeOutputsCount) sound.tidy.filled
  rw [Purse.step]
  dsimp only
  rw [added]
  refine ⟨⟨filled, fun amount i listed => ?_⟩, ?_⟩
  · rcases (lists amount i).mp listed with before | ⟨member, here⟩
    · obtain ⟨inside, unchanged⟩ := same i ⟨amount, before⟩
      exact ⟨inside, unchanged.trans (sound.tidy.names amount i before).2⟩
    · have inside := List.mem_range'_1.mp member
      have range : i < w.transfers.length := by omega
      exact ⟨range, here⟩
  · rcases newly with ⟨none, few⟩ | newly
    · refine .inl (not_not.mp fun any => ?_)
      obtain ⟨amount, indices, there⟩ := (FreeAmounts.size_ne_zero_iff _).mp any
      obtain ⟨i, here⟩ := filled amount indices there
      rcases (lists amount i).mp ⟨indices, there, here⟩ with ⟨before, found, _⟩ | ⟨member, _⟩
      · exact (FreeAmounts.size_ne_zero_iff _).mpr ⟨amount, before, found⟩ none
      · have inside := List.mem_range'_1.mp member
        omega
    · refine .inr fun i ready => ?_
      have readyNow : w.readyAt coreTime p.wallet.fakeOutputsCount i = true := ready
      by_cases earlier : i < kept
      · have listed : p.Listed i := by
          rcases newly i earlier readyNow with ⟨some_, before⟩ | listed
          · exact sound.collected.resolve_left some_ i before
          · exact listed
        obtain ⟨amount, there⟩ := listed
        exact ⟨amount, (lists amount i).mpr (.inl there)⟩
      · have inside := lt_of_readyAt readyNow
        have member : i ∈ List.range' kept (w.transfers.length - kept) :=
          List.mem_range'_1.mpr (by omega)
        exact ⟨_, (lists _ i).mpr (.inr ⟨member, rfl⟩)⟩

/-- Wallets in which fewer transfers are ready have less ready money. -/
theorem readyMoney_le {w' : Wallet} {fakeOutputsCount : Nat}
    (amounts : ∀ i, w'.amountAt i = w.amountAt i)
    (fewer : ∀ i, w'.readyAt coreTime fakeOutputsCount i = true →
      w.readyAt coreTime fakeOutputsCount i = true) :
    w'.readyMoney coreTime fakeOutputsCount ≤ w.readyMoney coreTime fakeOutputsCount := by
  rw [readyMoney, List.map_congr_left fun i _ => amounts i]
  exact sum_le_readyMoney (List.nodup_range.filter _) fun i member =>
    fewer i (mem_readyIndices.mp member)

/-- What reserving for amounts in turn leaves: a transfer that was ready is in a set or held. -/
structure HeldFor (w : Wallet) (coreTime : Nat) (amounts : List Nat) (holds : List (List Nat))
    (after : Wallet) : Prop where
  tidy : after.Tidy
  length : after.transfers.length = w.transfers.length
  inside : ∀ hold ∈ holds, ∀ i ∈ hold, i < w.transfers.length
  ready : ∀ fakeOutputsCount i, after.readyAt coreTime fakeOutputsCount i = true →
    w.readyAt coreTime fakeOutputsCount i = true
  kept : amounts = [] ∧ after = w ∧ holds = [] ∨ after.fakeOutputsCount = 0 ∧
    ∀ i, w.readyAt coreTime 0 i = true →
      (∃ amount, FreeAmounts.Lists after.foundFreeAmounts amount i) ∨ i ∈ holds.flatten

theorem holdSources_spec {amounts : List Nat} (tidy : w.Tidy) (collected : w.Collected coreTime)
    (bounded : w.readyMoney coreTime 0 < 2 ^ 64) :
    ∃ res holds after, holdSources coreTime amounts w = some (res, holds, after) ∧
      w.HeldFor coreTime amounts holds after := by
  induction amounts generalizing w with
  | nil =>
    exact ⟨true, [], w, rfl, tidy, rfl, fun _ member => (by cases member),
      fun _ _ ready => ready, .inl ⟨rfl, rfl, rfl⟩⟩
  | cons am rest ih =>
    obtain ⟨s, free, selected, chosen, names, lists, chooses⟩ :=
      @selectTransfers_spec w 0 coreTime am tidy collected bounded
    have insideNow : ∀ i ∈ s.selectedIndexes, i < w.transfers.length := fun i member =>
      lt_of_readyAt (chosen.ready i member)
    rw [holdSources, selected, Option.bind_eq_bind, Option.bind_some]
    dsimp only
    by_cases few : s.foundMoney < am
    · rw [if_pos few]
      refine ⟨false, _, _, rfl, ⟨chooses.filled, fun amount i listed =>
        names amount i (chooses.fewer amount i listed)⟩, rfl, ?_, fun _ _ ready => ready,
        .inr ⟨rfl, fun i ready => ?_⟩⟩
      · intro hold member
        rw [List.mem_singleton.mp member]
        exact insideNow
      · obtain ⟨amount, listed⟩ := lists i ready
        rw [List.flatten_singleton]
        exact (chooses.rest amount i listed ready).symm.imp_left fun left => ⟨amount, left⟩
    · rw [if_neg few]
      obtain ⟨tidyNow, collectedNow⟩ := marked_sound names lists chooses blocked_reserves
      have readyNow := fun k i => @locked_not_ready (w.withFreeFor s.foundFreeAmounts 0) coreTime k
        s.selectedIndexes _ blocked_reserves i
      obtain ⟨transfers, same, length⟩ := changeFlags_eq (w.withFreeFor s.foundFreeAmounts 0)
        (fun flags => flags.add TransferFlags.flagBlocked) s.selectedIndexes
      have amountsNow := @changeFlags_amountAt
        (fun flags => flags.add TransferFlags.flagBlocked) (add_twice _)
        (w.withFreeFor s.foundFreeAmounts 0) s.selectedIndexes
      have boundedNow := lt_of_le_of_lt (@readyMoney_le w coreTime
        ((w.withFreeFor s.foundFreeAmounts 0).markTransfersWithFlag s.selectedIndexes
          TransferFlags.flagBlocked) 0 amountsNow fun i ready => ((readyNow 0 i).mp ready).2)
        bounded
      obtain ⟨res, holds, after, held, holdsNow⟩ := ih tidyNow collectedNow boundedNow
      have lengthNow : ((w.withFreeFor s.foundFreeAmounts 0).markTransfersWithFlag
          s.selectedIndexes TransferFlags.flagBlocked).transfers.length = w.transfers.length := by
        rw [markTransfersWithFlag, same]
        exact length
      rw [held, Option.bind_eq_bind, Option.bind_some]
      refine ⟨res, s.selectedIndexes :: holds, after, rfl, holdsNow.tidy,
        holdsNow.length.trans lengthNow, ?_, fun k i ready =>
          ((readyNow k i).mp (holdsNow.ready k i ready)).2, .inr ?_⟩
      · intro hold member
        rcases List.mem_cons.mp member with rfl | later
        · exact insideNow
        · exact fun i here => lengthNow ▸ holdsNow.inside hold later i here
      · have here : ∀ i, w.readyAt coreTime 0 i = true → i ∉ s.selectedIndexes →
            ∃ amount, FreeAmounts.Lists s.foundFreeAmounts amount i := by
          intro i ready other
          obtain ⟨amount, listed⟩ := lists i ready
          exact ⟨amount, (chooses.rest amount i listed ready).resolve_left other⟩
        have sets : ((w.withFreeFor s.foundFreeAmounts 0).markTransfersWithFlag
            s.selectedIndexes TransferFlags.flagBlocked).foundFreeAmounts =
              s.foundFreeAmounts ∧
            ((w.withFreeFor s.foundFreeAmounts 0).markTransfersWithFlag
              s.selectedIndexes TransferFlags.flagBlocked).fakeOutputsCount = 0 := by
          rw [markTransfersWithFlag, same]
          exact ⟨rfl, rfl⟩
        rcases holdsNow.kept with ⟨_, rfl, rfl⟩ | ⟨fake, others⟩
        · refine ⟨sets.2, fun i ready => ?_⟩
          rw [sets.1]
          by_cases member : i ∈ s.selectedIndexes
          · exact .inr (List.mem_append_left _ member)
          · exact .inl (here i ready member)
        · refine ⟨fake, fun i ready => ?_⟩
          rw [List.flatten_cons]
          by_cases member : i ∈ s.selectedIndexes
          · exact .inr (List.mem_append_left _ member)
          · exact (others i ((readyNow 0 i).mpr ⟨member, ready⟩)).imp_right
              (List.mem_append_right _)

/-- Everything that was held is given back. -/
theorem giveBackAll_spec {holds : List (List Nat)} (tidy : w.Tidy)
    (inside : ∀ hold ∈ holds, ∀ i ∈ hold, i < w.transfers.length) (flag : TransferFlags) :
    w.GivenBack holds.flatten (holds.foldl (fun w hold =>
      (w.clearTransfersFromFlag hold flag).addTransfersToTransfersCache hold) w) := by
  induction holds generalizing w with
  | nil =>
    exact ⟨tidy, rfl, rfl, fun i => ⟨.inl, fun listed => listed.resolve_right fun member => by
      cases member⟩, fun _ _ _ ready => .inr ready⟩
  | cons hold rest ih =>
    have first := giveBack_spec tidy (inside hold (.head _)) flag
    have later := ih first.tidy fun other member i here => by
      rw [first.length]
      exact inside other (.tail _ member) i here
    rw [List.foldl_cons]
    refine ⟨later.tidy, later.length.trans first.length, later.fake.trans first.fake, fun i => ?_,
      fun t k i ready => ?_⟩
    · rw [later.listed, first.listed, List.flatten_cons, List.mem_append, or_assoc]
    · rw [List.flatten_cons, List.mem_append]
      rcases later.ready t k i ready with member | before
      · exact .inl (.inr member)
      · exact (first.ready t k i before).imp_left .inl

theorem checkAvailableSources_sound (amounts : List Nat) (tidy : w.Tidy)
    (collected : w.Collected coreTime) (bounded : w.readyMoney coreTime 0 < 2 ^ 64) :
    ∃ res after, checkAvailableSources coreTime amounts w = some (res, after) ∧ after.Tidy ∧
      after.Collected coreTime := by
  obtain ⟨res, holds, after, held, holdsNow⟩ :=
    @holdSources_spec w coreTime (amounts.mergeSort fun a b => decide (a ≤ b)) tidy collected
      bounded
  have back := giveBackAll_spec holdsNow.tidy (fun hold member i here => by
    rw [holdsNow.length]
    exact holdsNow.inside hold member i here) TransferFlags.flagBlocked
  refine ⟨res, _, by rw [checkAvailableSources, held]; rfl, back.tidy, ?_⟩
  rcases holdsNow.kept with ⟨_, rfl, rfl⟩ | ⟨fake, others⟩
  · exact collected
  · refine .inr fun i ready => (back.listed i).mpr ?_
    rw [back.fake, fake] at ready
    rcases back.ready coreTime 0 i ready with member | before
    · exact .inr member
    · exact others i (holdsNow.ready 0 i before)

end Steps

namespace Purse

variable {p : Purse}

/-- A regular step keeps the sets tidy and collected. -/
theorem sound_step {event : PurseEvent} (sound : p.Sound) (regular : p.Regular event) :
    (step event p).Sound := by
  have kept : (step event p).wallet.Tidy ∧
      (step event p).wallet.Collected (step event p).coreTime := by
    cases event with
    | refreshed wallet coreTime => exact dropped_sound wallet coreTime
    | elsewhere wallet kept coreTime => exact elsewhere_sound sound regular
    | exceptionHandler => exact dropped_sound p.wallet p.coreTime
    | prepareFreeTransfersCache fakeOutputsCount =>
      exact prepared_sound fakeOutputsCount sound.tidy sound.collected
    | spend neededMoney fakeOutputsCount lock =>
      exact spend_sound sound.tidy sound.collected (sound.bounded _) lock
    | abandon neededMoney fakeOutputsCount =>
      exact abandon_sound sound.tidy sound.collected (sound.bounded _) regular.2
    | undo indices => exact undo_sound sound.tidy sound.collected regular.2.1 regular.2.2
    | checkAvailableSources amounts =>
      obtain ⟨res, after, checked, tidy, collected⟩ :=
        checkAvailableSources_sound amounts sound.tidy sound.collected (sound.bounded 0)
      rw [Purse.step, checked]
      exact ⟨tidy, collected⟩
  exact ⟨kept.1, kept.2, regular.1⟩

theorem start_sound (start : system.start p) : p.Sound := by
  obtain ⟨wallet, coreTime⟩ := p
  obtain rfl : wallet = Wallet.new := start
  have none := dropped_sound Wallet.new coreTime
  have nothing : ∀ fakeOutputsCount, Wallet.new.readyMoney coreTime fakeOutputsCount = 0 :=
    fun _ => rfl
  exact ⟨none.1, none.2, fun fakeOutputsCount => by rw [nothing]; decide⟩

/-- In every run in which no sets are kept without a transfer that becomes ready, every selection
is what it is to be. -/
theorem selectsCoins_of_reaches (reached : system.Reaches (fun event p => p.Regular event) p) :
    p.SelectsCoins := by
  have sound : p.Sound := by
    induction reached with
    | start initial => exact start_sound initial
    | step _ event meets ih => exact sound_step ih meets
  exact sound.selectsCoins

theorem bounded_of (small : ((List.range p.wallet.transfers.length).map
    p.wallet.amountAt).sum < 2 ^ 64) : p.Bounded := by
  intro fakeOutputsCount
  refine lt_of_le_of_lt ?_ small
  rw [readyMoney, readyIndices]
  exact (List.filter_sublist.map p.wallet.amountAt).sum_le_sum fun _ _ => Nat.zero_le _

/-- A selection that finds too little although enough is ready. -/
theorem not_selectsCoins {neededMoney fakeOutputsCount : Nat}
    (short : (p.wallet.selectTransfers p.coreTime fakeOutputsCount neededMoney).any
      (fun result => decide (result.1.foundMoney < neededMoney)) = true ∧
        neededMoney ≤ p.wallet.readyMoney p.coreTime fakeOutputsCount) : ¬ p.SelectsCoins := by
  intro selects
  obtain ⟨s, wallet, selected, chosen⟩ := selects neededMoney fakeOutputsCount
  rw [selected, Option.any_some, decide_eq_true_eq] at short
  exact absurd (chosen.enough short.2) (Nat.not_le.mpr short.1)

end Purse

/-! ## Selections that find too little -/

namespace LostSets

open Purse

/-- An output of an amount, in the genesis block. -/
def received (amount : Nat) : TransferDetails where
  ptxWalletInfo := ⟨0, 0, { (default : Transaction) with vout := [⟨amount, .toKey ⟨⟨1⟩, 0⟩⟩] }⟩
  internalOutputIndex := 0
  spentHeight := 0
  flags := {}
  globalOutputIndex := 0
  keyImage := ⟨amount⟩

/-- A wallet with two outputs, under twenty blocks. -/
def funded : Wallet :=
  { Wallet.new with
    blockchain := List.replicate 20 ⟨0⟩
    transfers := [received 5, received 3] }

def fresh : Purse := ⟨Wallet.new, 0⟩

/-- The node is busy when the wallet asks for outputs to mix with. -/
def busy : List PurseEvent := [.refreshed funded 0, .abandon 4 1]

/-- A template is reserved, the proposal fails, and the template is given back. -/
def undone : List PurseEvent :=
  [.refreshed funded 0, .spend 3 0 .proposal, .spend 9 0 .spent, .undo [1]]

/-- After either run an output is ready and in no set. -/
theorem selection_short :
    system.Reachable (system.after fresh busy) ∧ ¬ (system.after fresh busy).SelectsCoins ∧
      system.Reachable (system.after fresh undone) ∧
      ¬ (system.after fresh undone).SelectsCoins := by
  refine ⟨System.Reachable.after (.start rfl) busy, @not_selectsCoins _ 4 1 ?_,
    System.Reachable.after (.start rfl) undone, @not_selectsCoins _ 5 0 ?_⟩
  · decide +kernel
  · decide +kernel

/-- A transfer is spent, sources for an amount are looked for, and an exception drops the sets. -/
def spending : List PurseEvent :=
  [.refreshed funded 0, .spend 4 1 .spent, .checkAvailableSources [3], .exceptionHandler]

theorem selectsCoins_spending : (system.after fresh spending).SelectsCoins := by
  refine selectsCoins_of_reaches (System.Reaches.after (.start rfl)
    ⟨⟨bounded_of ?_, trivial⟩, ⟨bounded_of ?_, trivial⟩, ⟨bounded_of ?_, trivial⟩,
      ⟨bounded_of ?_, trivial⟩, trivial⟩)
  · decide +kernel
  · decide +kernel
  · decide +kernel
  · decide +kernel

end LostSets
end Virie.Wallet
