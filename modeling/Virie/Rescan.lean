import Virie.Wallet.Agreement
import Virie.Foundation.Following

/-! # Following splits or rescanning

A wallet that followed a chain through its splits is compared with a new wallet that is given
only the blocks of the chain at its end. Detaching a chain undoes what its blocks did to the
chain-derived state, but it leaves the multisig outputs of the detached blocks in the table. A
later transaction that spends such an output gets a history entry in the first wallet only. As
long as no block does that, both wallets agree. -/

open Foundation Foundation.Procedure

namespace Virie.Wallet

/-- How a wallet follows a chain. -/
def follower (W : WalletEnv) : Follower BlockEntry Hash Wallet where
  id := BlockEntry.blId W
  start := Wallet.new
  push height entry w w' := addBlock W entry height w = .ok () w'
  cut height w w' := detachBlockchain height w = .ok () w'

/-- Blocks as a daemon accepts them: the coinbases name their heights, and no block spends a key
image that a block below it spends. -/
structure SoundChain (chain : List BlockEntry) : Prop where
  heights : chain.map (fun entry => getBlockHeight entry.bl) = List.range chain.length
  images : chain.Pairwise fun entry later => ∀ ki ∈ later.keyImages, ki ∉ entry.keyImages

namespace SoundChain

variable {chain : List BlockEntry} {entry : BlockEntry}

theorem take (sound : SoundChain chain) (n : Nat) : SoundChain (chain.take n) := by
  refine ⟨?_, sound.images.sublist (List.take_sublist n chain)⟩
  rw [List.map_take, sound.heights, List.take_range, List.length_take]

theorem front (sound : SoundChain (chain ++ [entry])) : SoundChain chain := by
  have below := sound.take chain.length
  rwa [List.take_left] at below

theorem height_last (sound : SoundChain (chain ++ [entry])) :
    getBlockHeight entry.bl = chain.length := by
  have heights := sound.heights
  rw [List.map_append, List.length_append, List.length_singleton, List.range_succ,
    sound.front.heights] at heights
  exact List.singleton_inj.mp (List.append_cancel_left heights)

theorem images_last (sound : SoundChain (chain ++ [entry])) :
    ∀ ki ∈ entry.keyImages, ki ∉ chain.flatMap BlockEntry.keyImages := by
  intro ki spent below
  obtain ⟨earlier, member, named⟩ := List.mem_flatMap.mp below
  exact (List.pairwise_append.mp sound.images).2.2 earlier member entry (.head _) ki spent named

end SoundChain

section Replaying

variable {W : WalletEnv} {chain : List BlockEntry} {t u : Wallet} {h : Nat}

/-- What a wallet is after it processed a chain. -/
structure Replay (W : WalletEnv) (chain : List BlockEntry) (t : Wallet) : Prop where
  indexed : t.chainDerived.Indexed
  bounded : Bounded chain.length (chain.flatMap BlockEntry.keyImages) t.chainDerived
  blockchain : t.blockchain = chain.map (BlockEntry.blId W)
  lists : ∀ id, t.lists id ↔ id ∈ ownMultisigIds W chain

theorem replay_new : Replay W [] Wallet.new := by
  refine ⟨fun ki stored => ⟨fun found => ?_, ?_⟩, ?_, rfl, fun id => ⟨fun listed => ?_, ?_⟩⟩
  · cases found
  · rintro ⟨td, found, _⟩
    cases found
  · refine ⟨rfl, ?_, ?_, ?_, ?_, ?_⟩ <;> intro _ member <;> cases member
  · cases listed
  · intro member
    cases member

/-- A replayed chain with one more block. -/
theorem Replay.addBlock (full : W.Full) {entry : BlockEntry} {result : Unit}
    (sound : SoundChain (chain ++ [entry])) (replay : Replay W chain t)
    (ran : addBlock W entry chain.length t = .ok result u) : Replay W (chain ++ [entry]) u := by
  obtain ⟨_, ⟨images, grown, inside, grows, derived⟩, listed⟩ :=
    addBlock_ok full sound.height_last replay.indexed ran
  refine ⟨?_, ?_, ?_, fun id => ?_⟩
  · rw [derived]
    exact grows.indexed.congr rfl rfl
  · rw [derived, List.length_append, List.flatMap_append, List.flatMap_singleton]
    exact replay.bounded.grow grows inside
  · have blocks : u.blockchain = t.blockchain ++ [entry.blId W] :=
      congrArg ChainDerived.blockchain derived
    rw [blocks, replay.blockchain, List.map_append, List.map_singleton]
  · rw [listed id, replay.lists id, ownMultisigIds_concat, List.mem_append]

theorem replay_of_replayed (full : W.Full) (sound : SoundChain chain)
    (replayed : (follower W).Replayed chain t) : Replay W chain t := by
  induction replayed with
  | nil => exact replay_new
  | snoc before pushed ih => exact (ih sound.front).addBlock full sound pushed

theorem replayed_unique (first : (follower W).Replayed chain t)
    (second : (follower W).Replayed chain u) : t = u := by
  refine first.unique (fun i entry w w' w'' pushed pushedToo => ?_) second
  have same := pushed.symm.trans pushedToo
  injection same

/-- Cutting a wallet that replayed a chain gives the wallet that replayed the chain below. -/
theorem cut_replayed (full : W.Full) (sound : SoundChain chain)
    (replayed : (follower W).Replayed chain t) (positive : 0 < h) (inside : h ≤ chain.length) :
    ∃ u, (follower W).Replayed (chain.take h) u ∧ (∀ id, u.lists id → t.lists id) ∧
      ∀ d, CutTo h t.chainDerived d → d = u.chainDerived := by
  induction replayed with
  | nil => exact absurd inside (by rw [List.length_nil]; omega)
  | @snoc chain entry before after replayed pushed ih =>
    by_cases lower : h ≤ chain.length
    · obtain ⟨u, below, listed, cut⟩ := ih sound.front lower
      rw [List.take_append_of_le_length lower]
      have replay := replay_of_replayed full sound.front replayed
      obtain ⟨_, ⟨images, grown, named, grows, derived⟩, gained⟩ :=
        addBlock_ok full sound.height_last replay.indexed pushed
      refine ⟨u, below, fun id there => (gained id).mpr (.inl (listed id there)), fun d cutTo => ?_⟩
      rw [derived] at cutTo
      refine cut d (cutTo.of_grown grows lower positive replay.bounded.blockchain ?_
        replay.bounded.unspent)
      intro td member spent spends
      exact sound.images_last _ (named spends) (replay.bounded.spent td member spent).1
    · have whole : h = chain.length + 1 := by
        rw [List.length_append, List.length_singleton] at inside
        omega
      have replay := replay_of_replayed full sound (.snoc replayed pushed)
      refine ⟨after, ?_, fun _ there => there, fun d cutTo => ?_⟩
      · rw [List.take_of_length_le (by rw [List.length_append, List.length_singleton]; omega)]
        exact .snoc replayed pushed
      · refine cutTo.unique (replay.bounded.cut_self replay.indexed ?_ positive)
        rw [List.length_append, List.length_singleton]
        omega

/-- One more block delivered after others. -/
theorem handlePulledBlocks_concat {w : Wallet} {first : List BlockEntry} {entry : BlockEntry}
    {start i : Nat} (ran : handlePulledBlocks W start i first w = .ok () t)
    (one : handlePulledBlock W start (i + first.length) entry t = .ok () u) :
    handlePulledBlocks W start i (first ++ [entry]) w = .ok () u := by
  induction first generalizing i w with
  | nil =>
    obtain ⟨_, rfl⟩ := pure_ok.mp ran
    exact bind_of_ok one
  | cons earlier rest ih =>
    obtain ⟨_, middle, here, others⟩ := bind_ok.mp ran
    rw [List.length_cons, show i + (rest.length + 1) = i + 1 + rest.length by omega] at one
    rw [List.cons_append, handlePulledBlocks, bind_of_ok here]
    exact ih others one

/-- A chain is replayed by delivering it to a new wallet. -/
theorem rescans (full : W.Full) (sound : SoundChain chain)
    (replayed : (follower W).Replayed chain t) :
    handlePulledBlocks W 0 0 chain Wallet.new = .ok () t := by
  induction replayed with
  | nil => rfl
  | @snoc chain entry before after replayed pushed ih =>
    refine handlePulledBlocks_concat (ih sound.front) ?_
    have length := (replay_of_replayed full sound.front replayed).bounded.blockchain
    have top : before.blockchain[0 + chain.length]? = none :=
      List.getElem?_eq_none (by rw [Nat.zero_add]; exact Nat.le_of_eq length)
    unfold handlePulledBlock
    rw [get_bind, top, Nat.zero_add]
    exact pushed

end Replaying

/-! ## Agreement with a wallet that replays -/

section Agreement

variable (W : WalletEnv)

/-- A block spends no multisig output that the wallet lists and the chain below did not give. -/
def SpendsKnown (chain : List BlockEntry) (entry : BlockEntry) (w : Wallet) : Prop :=
  entry.isScanned W chain.length = true →
    SpendsGiven W w.lists (ownMultisigIds W chain) entry.delivered

/-- Two wallets agree on the chain-derived state, and the first one lists the multisig outputs of
the second one. -/
def Agrees (s t : Wallet) : Prop :=
  s.chainDerived = t.chainDerived ∧ ∀ id, t.lists id → s.lists id

variable {W} {chain : List BlockEntry}

theorem respects (full : W.Full) :
    Follower.Respects (follower W) (SpendsKnown W) SoundChain Agrees where
  start := ⟨rfl, fun _ there => there⟩
  push := by
    rintro chain entry s s' t sound replayed ⟨same, more⟩ met pushed
    have replay := replay_of_replayed full sound.front replayed
    have indexed : s.chainDerived.Indexed := by
      rw [same]
      exact replay.indexed
    obtain ⟨_, t', ran, agree⟩ := addBlock_mimics full sound.height_last indexed same replay.lists
      (fun id given => more id ((replay.lists id).mpr given)) met _ _ pushed
    refine ⟨t', ran, agree, fun id there => ?_⟩
    obtain ⟨_, _, listed⟩ := addBlock_ok full sound.height_last indexed pushed
    obtain ⟨_, _, listedToo⟩ := addBlock_ok full sound.height_last replay.indexed ran
    exact (listed id).mpr (((listedToo id).mp there).imp_left (more id))
  cut := by
    rintro chain h s s' t u sound replayed ⟨same, more⟩ positive inside trimmed below
    have replay := replay_of_replayed full sound replayed
    obtain ⟨cutTo, kept⟩ := detachBlockchain_ok (by rw [same]; exact replay.indexed) trimmed
    obtain ⟨u', belowToo, listed, cut⟩ := cut_replayed full sound replayed positive inside
    obtain rfl := replayed_unique below belowToo
    rw [same] at cutTo
    refine ⟨cut _ cutTo, fun id there => ?_⟩
    rw [lists, kept]
    exact more id (listed id there)

end Agreement

/-! ## Runs -/

section Following

variable (W : WalletEnv) (condition : List BlockEntry → Nat → BlockEntry → Wallet → Prop)

/-- Each block that is delivered from a height on meets a condition on the chain before it, its
height and the wallet before it. -/
def EachMeets (start : Nat) : List BlockEntry → Nat → List BlockEntry → Wallet → Prop
  | _, _, [], _ => True
  | chain, i, entry :: rest, w =>
    condition chain i entry w ∧
      ∀ w', handlePulledBlock W start i entry w = .ok () w' →
        EachMeets start ((follower W).splice chain i entry) (i + 1) rest w'

/-- A wallet that followed a chain: each batch is a stretch of a sound chain which agrees with the
chain of the wallet below it, and block ids stand for all blocks up to them. -/
inductive Followed : List BlockEntry → Wallet → Prop
  | new : Followed [] Wallet.new
  | pulled {chain other : List BlockEntry} {w w' : Wallet} {start n : Nat}
      (before : Followed chain w) (sound : SoundChain other)
      (commits : (follower W).IdsCommit chain other)
      (agree : chain.take start = other.take start) (inside : start ≤ chain.length)
      (met : EachMeets W condition start chain start ((other.drop start).take n) w)
      (ran : handlePulledBlocks W start start ((other.drop start).take n) w = .ok () w') :
      Followed ((follower W).spliceAll chain start ((other.drop start).take n)) w'

/-- A block that is processed spends no multisig output which the wallet lists only because of
blocks that are not below it. -/
def SpendsOwn (chain : List BlockEntry) (i : Nat) (entry : BlockEntry) (w : Wallet) : Prop :=
  w.blockchain[i]? ≠ some (entry.blId W) → SpendsKnown W (chain.take i) entry w

variable {W condition} {chain blocks : List BlockEntry} {entry : BlockEntry} {w w' : Wallet}
  {start i : Nat}

theorem eachMeets_of_forall (always : ∀ chain i entry w, condition chain i entry w) :
    EachMeets W condition start chain i blocks w := by
  induction blocks generalizing chain i w with
  | nil => trivial
  | cons entry rest ih => exact ⟨always _ _ _ _, fun _ _ => ih⟩

/-- Whatever the wallet lists, a block may spend what the chain below it gave. -/
theorem spendsOwn_of_given (given : SpendsGiven W (fun _ => True)
    (ownMultisigIds W (chain.take i)) entry.delivered) : SpendsOwn W chain i entry w :=
  fun _ _ => given.mono fun _ _ => trivial

theorem delivers_of_ran (met : EachMeets W condition start chain i blocks w)
    (ran : handlePulledBlocks W start i blocks w = .ok () w') :
    (follower W).Delivers (fun chain i entry w w' =>
      handlePulledBlock W start i entry w = .ok () w' ∧ condition chain i entry w)
      chain i blocks w w' := by
  induction blocks generalizing chain i w with
  | nil =>
    obtain ⟨_, rfl⟩ := pure_ok.mp ran
    exact .nil
  | cons entry rest ih =>
    obtain ⟨_, middle, here, others⟩ := bind_ok.mp ran
    exact .cons ⟨here, met.1⟩ (ih (met.2 middle here) others)

/-- A delivered block extends the chain, is known, or splits the chain. -/
theorem handles_of_pulled (full : W.Full) (sound : SoundChain chain)
    (like : ∃ t, (follower W).Replayed chain t ∧ Agrees w t)
    (met : SpendsOwn W chain i entry w) (inside : i ≤ chain.length)
    (ran : handlePulledBlock W start i entry w = .ok () w') :
    (follower W).Handles (SpendsKnown W) start chain i entry w w' := by
  obtain ⟨t, replayed, same, _⟩ := like
  have replay := replay_of_replayed full sound replayed
  have blocks : w.blockchain = chain.map (BlockEntry.blId W) := by
    rw [← replay.blockchain]
    exact congrArg ChainDerived.blockchain same
  unfold handlePulledBlock at ran
  rw [get_bind] at ran
  unfold SpendsOwn at met
  rw [blocks, List.getElem?_map] at ran met
  cases found : chain[i]? with
  | none =>
    rw [found] at ran met
    have top : i = chain.length := by
      have := List.getElem?_eq_none_iff.mp found
      omega
    subst top
    rw [List.take_length] at met
    exact .extend (met (by simp)) ran
  | some old =>
    rw [found] at ran met
    dsimp only [Option.map_some] at ran met
    by_cases known : entry.blId W = old.blId W
    · rw [if_pos known] at ran
      obtain ⟨_, rfl⟩ := pure_ok.mp ran
      exact .known found known
    · rw [if_neg known] at ran
      obtain ⟨_, _, passed, ran⟩ := bind_ok.mp ran
      obtain ⟨later, rfl⟩ := throwIf_ok.mp passed
      obtain ⟨_, middle, trimmed, pushed⟩ := bind_ok.mp ran
      have kept := (detachBlockchain_ok (by rw [same]; exact replay.indexed) trimmed).2
      refine .split found known (by simpa using later) trimmed ?_ pushed
      intro scanned
      have lists : middle.lists = w.lists := by
        funext id
        rw [Wallet.lists, kept]
        rfl
      rw [lists]
      exact met (fun there => known (Option.some.inj there).symm) scanned

/-- A wallet that followed splits is like the one that replayed the chain at the end. -/
theorem followed_like (full : W.Full) (followed : Followed W (SpendsOwn W) chain w) :
    SoundChain chain ∧ ∃ t, (follower W).Replayed chain t ∧ Agrees w t := by
  induction followed with
  | new =>
    refine ⟨⟨rfl, .nil⟩, Wallet.new, .nil, rfl, fun _ there => there⟩
  | pulled before sound commits agree inside met ran ih =>
    obtain ⟨now, like⟩ := ih
    refine (delivers_of_ran met ran).like (respects full) ?_ (fun _ n sound => sound.take n) sound
      commits agree inside (Nat.le_refl _) now like
    rintro chain i entry w w' sound inside like ⟨pulled, own⟩
    exact handles_of_pulled full sound like own inside pulled

end Following

/-- After any batches with splits above the first delivered block, the chain-derived state is that
of a new wallet which is given the chain at the end, in every run where no block spends a multisig
output which the wallet lists only because of blocks that are not below it. -/
theorem followed_eq_rescanned {W : WalletEnv} (full : W.Full) {chain : List BlockEntry} {w : Wallet}
    (followed : Followed W (SpendsOwn W) chain w) :
    ∃ t, handlePulledBlocks W 0 0 chain Wallet.new = .ok () t ∧
      w.chainDerived = t.chainDerived := by
  obtain ⟨sound, t, replayed, same, _⟩ := followed_like full followed
  exact ⟨t, rescans full sound replayed, same⟩

/-! ## A deposit on both sides of a split -/

namespace Rescans

/-- An account that was created at a time. -/
def account (createtime : Nat) : WalletEnv := { WalletEnv.plain with createtime }

theorem account_full (createtime : Nat) : (account createtime).Full := by
  refine ⟨rfl, fun txPubKey o same => ?_⟩
  have zero : txPubKey.val + o + 1 = 0 := congrArg KeyImage.val same
  omega

/-- A transaction with a multisig output of the account. -/
def deposit : Transaction where
  version := 10
  vin := [.toKey { amount := 5, keyOffsets := [.index 0], kImage := ⟨90⟩, etcDetails := [] }]
  vout := [⟨5, .multisig ⟨2, [⟨3⟩, ⟨4⟩]⟩⟩]
  extra := [.publicKey ⟨3⟩]
  signatures := []
  attachment := []

/-- A transaction that spends it and pays somebody else. -/
def spend : Transaction where
  version := 11
  vin := [.multisig { amount := 5, multisigOutId := ⟨1008⟩, sigsCount := 2, etcDetails := [] }]
  vout := [⟨4, .toKey ⟨⟨70⟩, 0⟩⟩]
  extra := [.publicKey ⟨8⟩]
  signatures := []
  attachment := []

/-- A block with some transactions. -/
def blockAt (id height timestamp prevId : Nat) (txs : List Transaction) : BlockEntry where
  bl :=
    { Block.plain id height 0 ⟨prevId⟩ (txs.map fun tx => ⟨tx.version⟩) with timestamp }
  minerReply := .ok [0]
  txs := txs.map fun tx => ⟨tx, .ok (tx.vout.map fun _ => 0)⟩

def genesis : BlockEntry := blockAt 1 0 0 0 []

/-- The deposit in a block that is detached. -/
def before : List BlockEntry := [genesis, blockAt 2 1 113700 1 [deposit]]

/-- The deposit in an older block, and the spend in the next one. -/
def after : List BlockEntry :=
  [genesis, blockAt 3 1 113500 1 [deposit], blockAt 4 2 113800 3 [spend]]

theorem before_sound : SoundChain before := ⟨by decide +kernel, by decide +kernel⟩

theorem after_sound : SoundChain after := ⟨by decide +kernel, by decide +kernel⟩

theorem ids_commit (createtime : Nat) :
    (follower (account createtime)).IdsCommit before after := by
  intro i entry other found foundToo same
  rcases i with _ | _ | i
  · rfl
  · cases found
    cases foundToo
    cases same
  · cases found

/-- A wallet that is given the first chain. -/
def pulled (createtime : Nat) : Wallet :=
  final (handlePulledBlocks (account createtime) 0 0 before Wallet.new)

/-- A wallet that is given the second chain then. -/
def switched (createtime : Nat) : Wallet :=
  final (handlePulledBlocks (account createtime) 0 0 after (pulled createtime))

/-- A wallet that is given both chains one after the other follows the second one. -/
theorem switched_followed {createtime : Nat}
    {condition : List BlockEntry → Nat → BlockEntry → Wallet → Prop}
    (first : EachMeets (account createtime) condition 0 [] 0 before Wallet.new)
    (second : EachMeets (account createtime) condition 0 before 0 after (pulled createtime))
    (ran : handlePulledBlocks (account createtime) 0 0 before Wallet.new =
      .ok () (pulled createtime))
    (ranToo : handlePulledBlocks (account createtime) 0 0 after (pulled createtime) =
      .ok () (switched createtime)) :
    Followed (account createtime) condition after (switched createtime) := by
  have followed : Followed (account createtime) condition before (pulled createtime) :=
    .pulled (n := 2) .new before_sound (fun _ _ _ found => by cases found) rfl (Nat.le_refl 0)
      first ran
  exact .pulled (n := 3) followed after_sound (ids_commit createtime) rfl (Nat.zero_le _)
    second ranToo

end Rescans

open Rescans

/-- An account that is older than all blocks finds the deposit on both sides of the split. -/
theorem followed_eq_rescanned_deposit :
    Followed (account 0) (SpendsOwn (account 0)) after (switched 0) ∧
      (switched 0).transferHistory.length = 1 ∧
      ∃ t, handlePulledBlocks (account 0) 0 0 after Wallet.new = .ok () t ∧
        (switched 0).chainDerived = t.chainDerived := by
  obtain ⟨_, ran⟩ := ok_of_succeeds (handlePulledBlocks (account 0) 0 0 before Wallet.new)
    (by decide +kernel)
  obtain ⟨_, ranToo⟩ := ok_of_succeeds (handlePulledBlocks (account 0) 0 0 after (pulled 0))
    (by decide +kernel)
  have first : EachMeets (account 0) (SpendsOwn (account 0)) 0 [] 0 before Wallet.new :=
    .intro (spendsOwn_of_given (by decide +kernel)) fun _ _ =>
      .intro (spendsOwn_of_given (by decide +kernel)) fun _ _ => trivial
  have second : EachMeets (account 0) (SpendsOwn (account 0)) 0 before 0 after (pulled 0) :=
    .intro (spendsOwn_of_given (by decide +kernel)) fun _ _ =>
      .intro (spendsOwn_of_given (by decide +kernel)) fun _ _ =>
        .intro (spendsOwn_of_given (by decide +kernel)) fun _ _ => trivial
  have followed := switched_followed first second ran ranToo
  exact ⟨followed, by decide +kernel, followed_eq_rescanned (account_full 0) followed⟩

/-- An account that was created when the blocks were a day old lists the deposit of the detached
block only. -/
theorem followed_keeps_stale :
    ¬ ∀ (W : WalletEnv) (chain : List BlockEntry) (w : Wallet), W.Full →
      Followed W (fun _ _ _ _ => True) chain w →
        ∃ t, handlePulledBlocks W 0 0 chain Wallet.new = .ok () t ∧
          w.chainDerived = t.chainDerived := by
  intro always
  obtain ⟨_, ran⟩ := ok_of_succeeds (handlePulledBlocks (account 200000) 0 0 before Wallet.new)
    (by decide +kernel)
  obtain ⟨_, ranToo⟩ := ok_of_succeeds
    (handlePulledBlocks (account 200000) 0 0 after (pulled 200000)) (by decide +kernel)
  obtain ⟨t, rescanned, same⟩ := always _ _ _ (account_full 200000)
    (switched_followed (eachMeets_of_forall fun _ _ _ _ => trivial)
      (eachMeets_of_forall fun _ _ _ _ => trivial) ran ranToo)
  obtain rfl : final (handlePulledBlocks (account 200000) 0 0 after Wallet.new) = t := by
    rw [rescanned]
    rfl
  have entries := congrArg (fun c => c.history.length) same
  exact absurd entries (by decide +kernel)

end Virie.Wallet
