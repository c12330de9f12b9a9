import Virie.Amounts
import Virie.OfferOwnership
import Virie.Wallet.Minting

/-! # Every payment is found

An output carries one-time keys for the addresses of its destination, derived with its number in
the transaction. Hints of 16 bits in the extra field tell an account early that nothing in a
transaction is for it; a hint that several recipients share is written once. The outputs that an
account finds are the ones whose destinations list its address. -/

open Foundation

namespace Virie

/-! ## Coinbase transactions -/

section Coinbase

variable (S : Sending)

/-- The coinbase transaction for destinations, with a generated key. -/
def constructMinerTx (height : Nat) (destinations : List TxDestinationEntry) (tx : Transaction)
    (extraNonce : String) (pos : Bool) (pe : PosEntry) (txkey : Keypair) : Option Transaction := do
  guard (destinations.length ≤ currencyTxMaxAllowedOuts ∨ height = 0)
  guard (extraNonce.utf8ByteSize ≤ 255)
  let userData := if extraNonce.utf8ByteSize ≠ 0 then [PayloadItem.extraUserData extraNonce] else []
  let posin : TxinToKey := ⟨pe.amount, [.index pe.index], pe.keyimage, []⟩
  let begun : Transaction := { tx with
    vin := .gen height :: if pos then [.toKey posin] else []
    vout := []
    extra := .publicKey txkey.pub :: userData ++ [.extraPadding []]
    signatures := if pos then [[nullSig]] else tx.signatures }
  let (tx, _) ← destinations.foldlM
    (fun (tx, derivCache) de => constructTxOut S txkey.sec 0 tx derivCache de) (begun, [])
  pure { tx with
    version := currentTransactionVersion
    extra := updateOrAddField isUnlockTime
      (.etcTxDetailsUnlockTime (height + currencyMinedMoneyUnlockWindow)) tx.extra }

end Coinbase

/-! ## What an output pays -/

/-- The keys of a target. -/
def TxoutTarget.targetKeys : TxoutTarget → List PublicKey
  | .toKey out => [out.key]
  | .multisig out => out.keys

def TxoutTarget.isToKey : TxoutTarget → Bool
  | .toKey _ => true
  | .multisig _ => false

section Paid

variable (S : Sending) (txSecKey : SecretKey)

/-- Money for this address is burned. -/
def AccountPublicAddress.Burned (apa : AccountPublicAddress) : Prop :=
  apa.spendPublicKey = nullPkey ∧ apa.viewPublicKey = nullPkey

/-- The key of an address in the output with a number. -/
def KeyFor (outputIndex : Nat) (apa : AccountPublicAddress) (key : PublicKey) : Prop :=
  (apa.Burned ∧ key = nullPkey) ∨
    (¬ apa.Burned ∧ DerivedAt S apa txSecKey outputIndex key)

/-- The output with a number pays a destination. -/
structure PaysEntry (outputIndex : Nat) (de : TxDestinationEntry) (out : TxOut) : Prop where
  amount : out.amount = de.amount
  keys : List.Forall₂ (KeyFor S txSecKey outputIndex) de.addr out.target.targetKeys
  single : out.target.isToKey = true ↔ de.addr.length = 1

/-- Outputs from a number on pay destinations one by one. -/
def PaidFrom : Nat → List TxDestinationEntry → List TxOut → Prop
  | _, [], [] => True
  | outputIndex, de :: dests, out :: outs =>
    PaysEntry S txSecKey outputIndex de out ∧ PaidFrom (outputIndex + 1) dests outs
  | _, _, _ => False

/-- The hint of an address stands in an extra field. -/
def Hinted (extra : List PayloadItem) (apa : AccountPublicAddress) : Prop :=
  apa.Burned ∨ ∃ derivation, S.generateKeyDerivation apa.viewPublicKey txSecKey = some derivation ∧
    .etcTxDerivationHint (getDerivationXor derivation) ∈ extra

/-- The outputs of a transaction pay destinations, and every address has its hint. -/
structure Paid (dests : List TxDestinationEntry) (tx : Transaction) : Prop where
  outs : PaidFrom S txSecKey 0 dests tx.vout
  hints : ∀ de ∈ dests, ∀ apa ∈ de.addr, Hinted S txSecKey tx.extra apa

/-- The hints that are remembered were written. -/
def CacheWritten (extra : List PayloadItem) (derivCache : List Nat) : Prop :=
  ∀ hint ∈ derivCache, .etcTxDerivationHint hint ∈ extra

end Paid

section Outputs

variable {S : Sending} {txSecKey : SecretKey} {dests : List TxDestinationEntry}
  {de : TxDestinationEntry} {tx after : Transaction} {derivCache cache : List Nat}

theorem Hinted.mono {extra more : List PayloadItem}
    (kept : ∀ hint, .etcTxDerivationHint hint ∈ extra → .etcTxDerivationHint hint ∈ more)
    {apa : AccountPublicAddress} (hinted : Hinted S txSecKey extra apa) :
    Hinted S txSecKey more apa := by
  rcases hinted with burned | ⟨derivation, derived, there⟩
  · exact .inl burned
  · exact .inr ⟨derivation, derived, kept _ there⟩

theorem Paid.mono (paid : Paid S txSecKey dests tx) (vout : after.vout = tx.vout)
    (kept : ∀ hint, .etcTxDerivationHint hint ∈ tx.extra →
      .etcTxDerivationHint hint ∈ after.extra) : Paid S txSecKey dests after :=
  ⟨by rw [vout]; exact paid.outs, fun de member apa listed =>
    (paid.hints de member apa listed).mono kept⟩

theorem Paid.nil (none_ : tx.vout = []) : Paid S txSecKey [] tx :=
  ⟨by rw [none_]; trivial, fun _ member => by cases member⟩

theorem PaidFrom.append {outputIndex : Nat} {outs : List TxOut} {out : TxOut}
    (paid : PaidFrom S txSecKey outputIndex dests outs)
    (pays : PaysEntry S txSecKey (outputIndex + outs.length) de out) :
    PaidFrom S txSecKey outputIndex (dests ++ [de]) (outs ++ [out]) := by
  induction dests generalizing outputIndex outs with
  | nil =>
    cases outs with
    | nil => exact ⟨pays, trivial⟩
    | cons _ _ => cases paid
  | cons first rest ih =>
    cases outs with
    | nil => cases paid
    | cons head tail =>
      refine ⟨paid.1, ih paid.2 ?_⟩
      rw [List.length_cons] at pays
      rwa [Nat.add_assoc, Nat.add_comm 1]

/-- A key for an address is added, and its hint is written unless it was before. -/
theorem constructTargetKey_pays {outputIndex : Nat}
    {state next : List PublicKey × List PayloadItem × List Nat} {apa : AccountPublicAddress}
    (written : CacheWritten state.2.1 state.2.2)
    (constructed : constructTargetKey S txSecKey outputIndex state apa = some next) :
    (∃ key, next.1 = state.1 ++ [key] ∧ KeyFor S txSecKey outputIndex apa key) ∧
      Hinted S txSecKey next.2.1 apa ∧ CacheWritten next.2.1 next.2.2 := by
  obtain ⟨targetKeys, extra, derivCache⟩ := state
  simp only [constructTargetKey] at constructed
  split at constructed
  · next burned =>
    obtain rfl := Option.some.inj constructed
    exact ⟨⟨nullPkey, rfl, .inl ⟨burned, rfl⟩⟩, .inl burned, written⟩
  · next alive =>
    simp only [Option.bind_eq_bind, Option.bind_eq_some_iff] at constructed
    obtain ⟨⟨key, derivation⟩, derives, constructed⟩ := constructed
    have keyFor : KeyFor S txSecKey outputIndex apa key := .inr ⟨alive, derivation, derives⟩
    have derived : S.generateKeyDerivation apa.viewPublicKey txSecKey = some derivation := by
      simp only [derivePublicKeyFromTargetAddress, Option.bind_eq_bind, Option.bind_eq_some_iff,
        Option.pure_def, Option.some.injEq, Prod.mk.injEq] at derives
      obtain ⟨_, generated, _, _, _, rfl⟩ := derives
      exact generated
    split at constructed
    · next known =>
      obtain rfl := Option.some.inj constructed
      exact ⟨⟨key, rfl, keyFor⟩,
        .inr ⟨derivation, derived, written _ (List.contains_iff_mem.mp known)⟩, written⟩
    · obtain rfl := Option.some.inj constructed
      have new : .etcTxDerivationHint (getDerivationXor derivation) ∈
          extra ++ [.etcTxDerivationHint (getDerivationXor derivation)] :=
        List.mem_append_right _ (List.mem_singleton_self _)
      refine ⟨⟨key, rfl, keyFor⟩, .inr ⟨derivation, derived, new⟩, fun hint member => ?_⟩
      cases List.mem_cons.mp member with
      | inl same =>
        rw [same]
        exact new
      | inr before => exact List.mem_append_left _ (written hint before)

theorem constructTargetKeys_pays {outputIndex : Nat} {addr : List AccountPublicAddress}
    {state final : List PublicKey × List PayloadItem × List Nat}
    (written : CacheWritten state.2.1 state.2.2)
    (constructed : addr.foldlM (constructTargetKey S txSecKey outputIndex) state = some final) :
    (∃ keys, final.1 = state.1 ++ keys ∧ List.Forall₂ (KeyFor S txSecKey outputIndex) addr keys) ∧
      (∀ apa ∈ addr, Hinted S txSecKey final.2.1 apa) ∧ CacheWritten final.2.1 final.2.2 := by
  induction addr generalizing state with
  | nil =>
    obtain rfl := Option.some.inj constructed
    exact ⟨⟨[], (List.append_nil _).symm, .nil⟩, fun _ member => (by cases member), written⟩
  | cons apa rest ih =>
    rw [List.foldlM_cons, Option.bind_eq_bind, Option.bind_eq_some_iff] at constructed
    obtain ⟨next, first, later⟩ := constructed
    obtain ⟨⟨key, here, keyFor⟩, hinted, writtenNext⟩ := constructTargetKey_pays written first
    obtain ⟨⟨keys, there, keysFor⟩, hints, writtenFinal⟩ := ih writtenNext later
    refine ⟨⟨key :: keys, ?_, .cons keyFor keysFor⟩, fun other member => ?_, writtenFinal⟩
    · rw [there, here, List.append_assoc, List.singleton_append]
    · cases List.mem_cons.mp member with
      | inl same =>
        rw [same]
        exact hinted.mono fun _ there => (constructTargetKeys_extra later).subset there
      | inr inRest => exact hints other inRest

/-- An output is added that pays the destination. -/
theorem constructTxOut_pays {txOutsAttr : Nat} (paid : Paid S txSecKey dests tx)
    (written : CacheWritten tx.extra derivCache)
    (constructed : constructTxOut S txSecKey txOutsAttr tx derivCache de = some (after, cache)) :
    Paid S txSecKey (dests ++ [de]) after ∧ CacheWritten after.extra cache := by
  have grows := constructTxOut_grows constructed
  simp only [constructTxOut, Option.bind_eq_bind, Option.bind_eq_some_iff, Option.pure_def,
    Option.some.injEq, Prod.mk.injEq, Prod.exists] at constructed
  obtain ⟨_, _, targetKeys, extra, cacheNext, made, rfl, rfl⟩ := constructed
  obtain ⟨⟨keys, same, keysFor⟩, hints, writtenNext⟩ := constructTargetKeys_pays written made
  obtain rfl : targetKeys = keys := same
  refine ⟨⟨paid.outs.append ?_, fun other member apa listed => ?_⟩, writtenNext⟩
  · have lengths := keysFor.length_eq
    rw [Nat.zero_add]
    refine ⟨rfl, ?_, ?_⟩
    · dsimp only
      split
      · exact keysFor
      · exact keysFor
    · rw [lengths]
      dsimp only
      split
      · exact iff_of_true rfl rfl
      · next several =>
        refine iff_of_false Bool.false_ne_true fun one => ?_
        obtain ⟨key, only⟩ := List.length_eq_one_iff.mp one
        exact several key only
  · cases List.mem_append.mp member with
    | inl before => exact (paid.hints other before apa listed).mono fun _ there =>
      grows.extra.subset there
    | inr last =>
      rw [List.mem_singleton.mp last] at listed
      exact hints apa listed

theorem constructTxOuts_pays {txOutsAttr : Nat} {dsts : List TxDestinationEntry}
    (paid : Paid S txSecKey dests tx) (written : CacheWritten tx.extra derivCache)
    (constructed : constructTxOuts S txSecKey txOutsAttr dsts tx derivCache = some after) :
    Paid S txSecKey (dests ++ dsts) after := by
  induction dsts generalizing dests tx derivCache with
  | nil =>
    obtain rfl := Option.some.inj constructed
    rwa [List.append_nil]
  | cons de rest ih =>
    simp only [constructTxOuts, Option.bind_eq_bind, Option.bind_eq_some_iff, Prod.exists]
      at constructed
    obtain ⟨_, _, next, cache, first, later⟩ := constructed
    obtain ⟨paidNext, writtenNext⟩ := constructTxOut_pays paid written first
    have all := ih paidNext writtenNext later
    rwa [List.append_assoc, List.singleton_append] at all

end Outputs

/-! ## Transactions -/

/-- The destinations of a call in the order of its outputs. -/
def ConstructTx.shuffledDsts (args : ConstructTx) : List TxDestinationEntry :=
  if args.shuffle then args.destinations.mergeSort (fun a b => decide (a.amount ≤ b.amount))
  else args.destinations

/-- A transaction with a key pair, begun by one call and extended by others in append mode. The
extra entries that the first call is given name no transaction key of their own. -/
inductive BuiltWith (S : Sending) (E : Env) (txkey : Keypair) :
    List TxDestinationEntry → TxDraft → Prop
  | begin {args : ConstructTx} {draft result : TxDraft}
      (fresh : args.separate = false ∨ draft.tx.vin = []) (generated : args.generated = txkey)
      (unnamed : ∀ item ∈ args.extra, item.publicKeyEntry = none)
      (built : constructTx S E args draft = some result) :
      BuiltWith S E txkey args.shuffledDsts result
  | append {args : ConstructTx} {dests : List TxDestinationEntry} {draft result : TxDraft}
      (earlier : BuiltWith S E txkey dests draft) (separate : args.separate = true)
      (inputs : draft.tx.vin ≠ []) (built : constructTx S E args draft = some result) :
      BuiltWith S E txkey (dests ++ args.shuffledDsts) result

/-- A coinbase transaction, or one that calls have built. -/
inductive Payment (S : Sending) (E : Env) (txkey : Keypair) :
    List TxDestinationEntry → Transaction → Prop
  | coinbase {height : Nat} {dests : List TxDestinationEntry} {tx result : Transaction}
      {extraNonce : String} {pos : Bool} {pe : PosEntry}
      (built : constructMinerTx S height dests tx extraNonce pos pe txkey = some result) :
      Payment S E txkey dests result
  | transfer {dests : List TxDestinationEntry} {draft : TxDraft}
      (built : BuiltWith S E txkey dests draft) : Payment S E txkey dests draft.tx

section Transactions

variable {S : Sending} {E : Env} {txkey : Keypair} {args : ConstructTx} {draft result : TxDraft}
  {dests : List TxDestinationEntry}

/-- The outputs of a call, with what is appended to the extra field after them. -/
theorem constructTx_outs (built : constructTx S E args draft = some result) :
    ∃ base key after trailing, beginTx S args draft = some (base, key) ∧
      constructTxOuts S key.sec args.txOutsAttr args.shuffledDsts base [] = some after ∧
      result.tx.vout = after.vout ∧ result.tx.extra = after.extra ++ trailing ∧
      result.oneTimeSecretKey = key.sec := by
  simp only [constructTx, Option.bind_eq_bind, Option.bind_eq_some_iff,
    Option.guard_eq_some', Option.pure_def, Option.some.injEq] at built
  obtain ⟨_, _, ⟨base, key⟩, started, inputs, _, grown, outs, _, _, attachment, _, sigs, _, rfl⟩ :=
    built
  cases separate : args.separate with
  | true =>
    refine ⟨base, key, grown, [], started, outs, ?_, ?_, rfl⟩
    · simp only [↓reduceIte]
    · simp only [↓reduceIte, List.append_nil]
  | false =>
    refine ⟨base, key, grown,
      ((attachmentInfoOf E attachment).map PayloadItem.extraAttachmentInfo).toList, started, outs,
      ?_, ?_, rfl⟩
    · simp only [Bool.false_eq_true, ↓reduceIte]
    · simp only [Bool.false_eq_true, ↓reduceIte]

/-- The key of a transaction is the first one in its extra field. -/
theorem findSome?_append_some {items more : List PayloadItem} {key : PublicKey}
    (found : items.findSome? PayloadItem.publicKeyEntry = some key) :
    (items ++ more).findSome? PayloadItem.publicKeyEntry = some key := by
  rw [List.findSome?_append, found, Option.some_or]

theorem updateOrAddField_unnamed {sameType : PayloadItem → Bool} {entry : PayloadItem}
    {extra : List PayloadItem} (own : entry.publicKeyEntry = none)
    (unnamed : ∀ item ∈ extra, item.publicKeyEntry = none) :
    ∀ item ∈ updateOrAddField sameType entry extra, item.publicKeyEntry = none := by
  induction extra with
  | nil =>
    intro item member
    rw [List.mem_singleton.mp member, own]
  | cons ev rest ih =>
    have unnamedRest := ih fun item member => unnamed item (.tail _ member)
    unfold updateOrAddField
    intro item member
    split at member
    · cases List.mem_cons.mp member with
      | inl same => rw [same, own]
      | inr later => exact unnamed item (.tail _ later)
    · cases List.mem_cons.mp member with
      | inl same =>
        rw [same]
        exact unnamed ev (.head _)
      | inr later => exact unnamedRest item later

theorem setField_unnamed {value : Nat} {sameType : PayloadItem → Bool} {entry : PayloadItem}
    {extra : List PayloadItem} (own : entry.publicKeyEntry = none)
    (unnamed : ∀ item ∈ extra, item.publicKeyEntry = none) :
    ∀ item ∈ setField value sameType entry extra, item.publicKeyEntry = none := by
  unfold setField
  split
  · exact updateOrAddField_unnamed own unnamed
  · exact unnamed

/-- A new transaction names the generated key. -/
theorem startTx_publicKeyEntry (unnamed : ∀ item ∈ args.extra, item.publicKeyEntry = none) :
    (startTx S args).extra.findSome? PayloadItem.publicKeyEntry = some args.generated.pub := by
  let R : Reading := { S with unpack := id }
  obtain ⟨toExtra, _, extra, _⟩ := encryptAttachments_payload (R := R)
    { version := currentTransactionVersion, vin := [], vout := []
      extra := fieldsOf args ++ [.publicKey args.generated.pub], signatures := []
      attachment := args.attachments }
    args.senderAccountKeys args.cryptDestinationAddr args.generated
  change (startTx R.toSending args).extra.findSome? PayloadItem.publicKeyEntry = _
  rw [startTx_eq, extra, List.findSome?_map]
  have same : PayloadItem.publicKeyEntry ∘ sealItem R
      (R.generateKeyDerivation args.cryptDestinationAddr.viewPublicKey args.generated.sec) =
      PayloadItem.publicKeyEntry := funext fun item => sealItem_publicKeyEntry item
  have fields : (fieldsOf args).findSome? PayloadItem.publicKeyEntry = none :=
    List.findSome?_eq_none_iff.mpr
      (setField_unnamed rfl (setField_unnamed rfl (setField_unnamed rfl unnamed)))
  rw [same]
  dsimp only
  rw [List.append_assoc, List.findSome?_append, fields, Option.none_or]
  rfl

theorem encryptAttachments_vout (tx : Transaction) (senderKeys : AccountKeys)
    (addr : AccountPublicAddress) (key : Keypair) :
    (encryptAttachments S tx senderKeys addr key).vout = tx.vout := by
  unfold encryptAttachments
  cases S.generateKeyDerivation addr.viewPublicKey key.sec with
  | none => rfl
  | some derivation =>
    dsimp only
    split
    · rfl
    · split <;> rfl

/-- What every call keeps: the outputs pay the destinations with the key of the transaction. -/
structure PaidWith (S : Sending) (txkey : Keypair) (dests : List TxDestinationEntry)
    (tx : Transaction) : Prop where
  paid : Paid S txkey.sec dests tx
  named : tx.extra.findSome? PayloadItem.publicKeyEntry = some txkey.pub

theorem BuiltWith.paidWith (built : BuiltWith S E txkey dests draft) :
    PaidWith S txkey dests draft.tx ∧ draft.oneTimeSecretKey = txkey.sec := by
  induction built with
  | @begin args draft result fresh generated unnamed built =>
    obtain ⟨base, key, after, trailing, began, outs, vout, extra, secret⟩ :=
      constructTx_outs built
    rw [(constructTx_generated fresh built).1, generated] at began
    obtain ⟨rfl, rfl⟩ := Prod.mk.inj (Option.some.inj began)
    have named : after.extra.findSome? PayloadItem.publicKeyEntry = some txkey.pub := by
      obtain ⟨more, longer⟩ := (constructTxOuts_grows outs).extra
      rw [← longer]
      exact findSome?_append_some (generated ▸ startTx_publicKeyEntry unnamed)
    have nothing : Paid S txkey.sec [] (startTx S args) :=
      .nil (encryptAttachments_vout _ _ _ _)
    have paid := constructTxOuts_pays nothing (fun _ member => by cases member) outs
    rw [List.nil_append] at paid
    refine ⟨⟨paid.mono vout fun item member => ?_, ?_⟩, secret⟩
    · rw [extra]
      exact List.mem_append_left _ member
    · rw [extra]
      exact findSome?_append_some named
  | @append args dests draft result earlier separate inputs built ih =>
    obtain ⟨⟨paid, named⟩, sameSecret⟩ := ih
    obtain ⟨base, key, after, trailing, began, outs, vout, extra, secret⟩ :=
      constructTx_outs built
    obtain ⟨appended, sec⟩ := beginTx_append separate inputs began
    obtain ⟨derivation, rfl⟩ := appendTx_some appended
    rw [sec, sameSecret] at outs
    have begun : Paid S txkey.sec dests { draft.tx with
        attachment := draft.tx.attachment ++ (encryptAll S derivation args.attachments).1
        extra := draft.tx.extra ++ (encryptAll S derivation args.extra).1 } := paid.mono rfl
      fun item member => List.mem_append_left _ member
    have paidAfter := constructTxOuts_pays begun (fun _ member => by cases member) outs
    refine ⟨⟨paidAfter.mono vout fun item member => ?_, ?_⟩, ?_⟩
    · rw [extra]
      exact List.mem_append_left _ member
    · obtain ⟨more, longer⟩ := (constructTxOuts_grows outs).extra
      rw [extra, ← longer]
      exact findSome?_append_some (findSome?_append_some (findSome?_append_some named))
    · rw [secret, sec, sameSecret]

/-- The outputs of a coinbase transaction are added in turn. -/
theorem minerOuts_pays {txSecKey : SecretKey} {more : List TxDestinationEntry}
    {state final : Transaction × List Nat}
    (paid : Paid S txSecKey dests state.1) (written : CacheWritten state.1.extra state.2)
    (constructed : more.foldlM
      (fun (tx, derivCache) de => constructTxOut S txSecKey 0 tx derivCache de) state = some final) :
    Paid S txSecKey (dests ++ more) final.1 ∧ state.1.extra <+: final.1.extra := by
  induction more generalizing dests state with
  | nil =>
    obtain rfl := Option.some.inj constructed
    rw [List.append_nil]
    exact ⟨paid, List.prefix_refl _⟩
  | cons de rest ih =>
    rw [List.foldlM_cons, Option.bind_eq_bind, Option.bind_eq_some_iff] at constructed
    obtain ⟨next, first, later⟩ := constructed
    obtain ⟨paidNext, writtenNext⟩ := constructTxOut_pays paid written first
    obtain ⟨all, longer⟩ := ih paidNext writtenNext later
    rw [List.append_assoc, List.singleton_append] at all
    exact ⟨all, (constructTxOut_grows first).extra.trans longer⟩

/-- Setting the unlock time leaves hints where they are. -/
theorem updateOrAddField_hint {entry : PayloadItem} {extra : List PayloadItem} {hint : Nat}
    (there : .etcTxDerivationHint hint ∈ extra) :
    .etcTxDerivationHint hint ∈ updateOrAddField isUnlockTime entry extra := by
  induction extra with
  | nil => cases there
  | cons ev rest ih =>
    unfold updateOrAddField
    split
    · next set =>
      cases List.mem_cons.mp there with
      | inl same =>
        rw [← same] at set
        cases set
      | inr later => exact .tail _ later
    · cases List.mem_cons.mp there with
      | inl same => exact same ▸ .head _
      | inr later => exact .tail _ (ih later)

theorem constructMinerTx_paidWith {height : Nat} {tx after : Transaction} {extraNonce : String}
    {pos : Bool} {pe : PosEntry}
    (built : constructMinerTx S height dests tx extraNonce pos pe txkey = some after) :
    PaidWith S txkey dests after := by
  simp only [constructMinerTx, Option.bind_eq_bind, Option.bind_eq_some_iff, Option.pure_def,
    Option.some.injEq] at built
  obtain ⟨_, _, _, _, final, outs, rfl⟩ := built
  have paid := minerOuts_pays (.nil (by rfl)) (fun _ member => by cases member) outs
  rw [List.nil_append] at paid
  obtain ⟨paid, more, longer⟩ := paid
  refine ⟨paid.mono rfl fun hint there => updateOrAddField_hint there, ?_⟩
  dsimp only
  rw [← longer]
  rfl

/-- The outputs of every payment pay its destinations, and it names its key. -/
theorem Payment.paidWith {tx : Transaction} (payment : Payment S E txkey dests tx) :
    PaidWith S txkey dests tx := by
  cases payment with
  | coinbase built => exact constructMinerTx_paidWith built
  | transfer built => exact built.paidWith.1

end Transactions

/-! ## Looking up -/

/-- Idealised derivations: those of matching keys are the same on both sides, and with one
transaction key the keys of different addresses or numbers differ. No secret key belongs to the
null key, and no derived key is null. -/
structure Sending.Separates (S : Sending) : Prop where
  symmetric : ∀ {pub sec pubToo secToo}, S.Matching pub sec → S.Matching pubToo secToo →
    S.generateKeyDerivation pub secToo = S.generateKeyDerivation pubToo sec
  total : ∀ {pub sec pubToo secToo}, S.Matching pub sec → S.Matching pubToo secToo →
    (S.generateKeyDerivation pub secToo).isSome = true
  unique : ∀ {pub sec apa apaToo index indexToo key}, S.Matching pub sec →
    DerivedAt S apa sec index key → DerivedAt S apaToo sec indexToo key →
    apa = apaToo ∧ index = indexToo
  nonnull : ∀ {derivation index pub key}, S.derivePublicKey derivation index pub = some key →
    key ≠ nullPkey
  unowned : ∀ sec, ¬ S.Matching nullPkey sec

/-- The wallet looks with the keys of an account. -/
structure WalletEnv.LooksAs (W : WalletEnv) (S : Sending) (keys : AccountKeys) : Prop where
  derivation : ∀ pub, W.generateKeyDerivation pub = S.generateKeyDerivation pub keys.viewSecretKey
  key : ∀ derivation index, W.derivePublicKey derivation index =
    S.derivePublicKey derivation index keys.accountAddress.spendPublicKey
  hint : ∀ derivation, W.getDerivationXor derivation = Virie.getDerivationXor derivation

/-- The numbers of the destinations that list an address, counted from a number on. -/
def ownDestinations (address : AccountPublicAddress) (outputIndex : Nat)
    (dests : List TxDestinationEntry) : List Nat :=
  ((dests.zipIdx outputIndex).filter fun de => de.1.addr.contains address).map Prod.snd

/-- The amounts for an address alone. -/
def ownAmounts (address : AccountPublicAddress) (dests : List TxDestinationEntry) : List Nat :=
  (dests.filter fun de => de.addr == [address]).map TxDestinationEntry.amount

theorem ownDestinations_cons (address : AccountPublicAddress) (outputIndex : Nat)
    (de : TxDestinationEntry) (dests : List TxDestinationEntry) :
    ownDestinations address outputIndex (de :: dests) =
      if de.addr.contains address then
        outputIndex :: ownDestinations address (outputIndex + 1) dests
      else ownDestinations address (outputIndex + 1) dests := by
  rw [ownDestinations, List.zipIdx_cons, List.filter_cons, apply_ite (List.map Prod.snd)]
  rfl

theorem ownAmounts_cons (address : AccountPublicAddress) (de : TxDestinationEntry)
    (dests : List TxDestinationEntry) :
    ownAmounts address (de :: dests) =
      if de.addr == [address] then de.amount :: ownAmounts address dests
      else ownAmounts address dests := by
  rw [ownAmounts, List.filter_cons, apply_ite (List.map TxDestinationEntry.amount)]
  rfl

/-- An address that no destination lists owns nothing. -/
theorem own_absent {address : AccountPublicAddress} {dests : List TxDestinationEntry}
    (absent : ∀ de ∈ dests, de.addr.contains address = false) (outputIndex : Nat) :
    ownDestinations address outputIndex dests = [] ∧ ownAmounts address dests = [] := by
  induction dests generalizing outputIndex with
  | nil => exact ⟨rfl, rfl⟩
  | cons de rest ih =>
    have here := absent de (.head _)
    obtain ⟨noNumbers, noAmounts⟩ :=
      ih (fun other member => absent other (.tail _ member)) (outputIndex + 1)
    have shared : (de.addr == [address]) = false := by
      rw [beq_eq_false_iff_ne]
      intro only
      rw [only, List.contains_cons, beq_self_eq_true, Bool.true_or] at here
      cases here
    rw [ownDestinations_cons, ownAmounts_cons, here, shared, if_neg Bool.false_ne_true,
      if_neg Bool.false_ne_true]
    exact ⟨noNumbers, noAmounts⟩

section Lookup

open Wallet

variable {S : Sending} {W : WalletEnv} {keys : AccountKeys} {txkey : Keypair}
  {derivation : KeyDerivation} {dests : List TxDestinationEntry}

theorem isOutToAcc_eq (derivation : KeyDerivation) (outputIndex : Nat) (target : TxoutTarget) :
    isOutToAcc W derivation outputIndex target =
      ((W.derivePublicKey derivation outputIndex).any fun pk => target.targetKeys.contains pk) := by
  unfold isOutToAcc
  cases W.derivePublicKey derivation outputIndex with
  | none => rfl
  | some pk =>
    cases target with
    | toKey out =>
      simp only [Option.any_some, TxoutTarget.targetKeys, List.contains_cons, List.contains_nil,
        Bool.or_false]
    | multisig out => rfl

theorem mem_of_forall₂ {α β : Type} {related : α → β → Prop} {left : List α} {right : List β}
    (all : List.Forall₂ related left right) :
    (∀ a ∈ left, ∃ b ∈ right, related a b) ∧ ∀ b ∈ right, ∃ a ∈ left, related a b := by
  induction all with
  | nil => exact ⟨fun _ member => (by cases member), fun _ member => (by cases member)⟩
  | @cons a b left right here later ih =>
    constructor
    · intro other member
      cases List.mem_cons.mp member with
      | inl same => exact ⟨b, .head _, same ▸ here⟩
      | inr inRest =>
        obtain ⟨found, there, holds⟩ := ih.1 other inRest
        exact ⟨found, .tail _ there, holds⟩
    · intro other member
      cases List.mem_cons.mp member with
      | inl same => exact ⟨a, .head _, same ▸ here⟩
      | inr inRest =>
        obtain ⟨found, there, holds⟩ := ih.2 other inRest
        exact ⟨found, .tail _ there, holds⟩

/-- The address of an account is not burned. -/
theorem Sending.Separates.not_burned (ideal : S.Separates)
    (view : S.Matching keys.accountAddress.viewPublicKey keys.viewSecretKey) :
    ¬ keys.accountAddress.Burned := fun burned =>
  ideal.unowned keys.viewSecretKey (burned.2 ▸ view)

/-- An account finds exactly the outputs whose destinations list it. -/
theorem PaysEntry.isOutToAcc_eq (ideal : S.Separates) (looks : W.LooksAs S keys)
    (view : S.Matching keys.accountAddress.viewPublicKey keys.viewSecretKey)
    (matching : S.Matching txkey.pub txkey.sec)
    (derived : S.generateKeyDerivation keys.accountAddress.viewPublicKey txkey.sec =
      some derivation)
    {outputIndex : Nat} {de : TxDestinationEntry} {out : TxOut}
    (pays : PaysEntry S txkey.sec outputIndex de out) :
    isOutToAcc W derivation outputIndex out.target = de.addr.contains keys.accountAddress := by
  have alive := ideal.not_burned view
  rw [Virie.isOutToAcc_eq, looks.key, Bool.eq_iff_iff, Option.any_eq_true,
    List.contains_iff_mem]
  constructor
  · rintro ⟨pk, own, member⟩
    have derivedAt : DerivedAt S keys.accountAddress txkey.sec outputIndex pk := by
      refine ⟨derivation, ?_⟩
      simp only [derivePublicKeyFromTargetAddress, derived, own, Option.bind_eq_bind,
        Option.bind_some, Option.pure_def]
    obtain ⟨apa, listed, keyFor⟩ := (mem_of_forall₂ pays.keys).2 pk (List.contains_iff_mem.mp member)
    rcases keyFor with ⟨_, null⟩ | ⟨_, other⟩
    · exact absurd null (ideal.nonnull own)
    · rw [(ideal.unique matching derivedAt other).1]
      exact listed
  · intro listed
    obtain ⟨key, there, keyFor⟩ := (mem_of_forall₂ pays.keys).1 _ listed
    rcases keyFor with ⟨burned, _⟩ | ⟨_, derivationToo, derives⟩
    · exact absurd burned alive
    · simp only [derivePublicKeyFromTargetAddress, derived, Option.bind_eq_bind, Option.bind_some,
        Option.bind_eq_some_iff, Option.pure_def, Option.some.injEq, Prod.mk.injEq] at derives
      obtain ⟨_, own, rfl, _⟩ := derives
      exact ⟨_, own, List.contains_iff_mem.mpr there⟩

/-- The outputs that pay destinations are found by their numbers. -/
theorem ownOuts_paid (ideal : S.Separates) (looks : W.LooksAs S keys)
    (view : S.Matching keys.accountAddress.viewPublicKey keys.viewSecretKey)
    (matching : S.Matching txkey.pub txkey.sec)
    (derived : S.generateKeyDerivation keys.accountAddress.viewPublicKey txkey.sec =
      some derivation)
    {outputIndex : Nat} {outs : List TxOut} (paid : PaidFrom S txkey.sec outputIndex dests outs)
    (found : List Nat) (money : Nat) :
    ownOuts W derivation outputIndex outs (found, money) =
      (found ++ ownDestinations keys.accountAddress outputIndex dests,
        (ownAmounts keys.accountAddress dests).foldl addU64 money) := by
  induction dests generalizing outputIndex outs found money with
  | nil =>
    cases outs with
    | nil => exact Prod.ext (List.append_nil _).symm rfl
    | cons _ _ => cases paid
  | cons de rest ih =>
    cases outs with
    | nil => cases paid
    | cons out later =>
      obtain ⟨pays, paidRest⟩ := paid
      have own := pays.isOutToAcc_eq ideal looks view matching derived
      rw [ownOuts, own, ih paidRest, ownDestinations_cons, ownAmounts_cons]
      cases listed : de.addr.contains keys.accountAddress with
      | false =>
        have shared : (de.addr == [keys.accountAddress]) = false := by
          rw [beq_eq_false_iff_ne]
          intro only
          rw [only, List.contains_cons, beq_self_eq_true, Bool.true_or] at listed
          cases listed
        simp only [Bool.false_eq_true, ↓reduceIte, shared]
      | true =>
        have alone : (de.addr == [keys.accountAddress]) = out.target.isToKey := by
          rw [Bool.eq_iff_iff, beq_iff_eq, pays.single]
          constructor
          · intro only
            rw [only, List.length_singleton]
          · intro one
            obtain ⟨apa, only⟩ := List.length_eq_one_iff.mp one
            have member := List.contains_iff_mem.mp listed
            rw [only, List.mem_singleton] at member
            rw [only, member]
        cases target : out.target with
        | toKey key =>
          rw [target] at alone
          simp only [↓reduceIte, alone, TxoutTarget.isToKey, List.foldl_cons, pays.amount,
            List.append_assoc, List.singleton_append]
        | multisig shared =>
          rw [target] at alone
          simp only [↓reduceIte, alone, TxoutTarget.isToKey, Bool.false_eq_true,
            List.append_assoc, List.singleton_append]

/-- No hint hides an own output. -/
theorem checkTxDerivationHint_of_own (looks : W.LooksAs S keys)
    (derived : S.generateKeyDerivation keys.accountAddress.viewPublicKey txkey.sec =
      some derivation) (alive : ¬ keys.accountAddress.Burned) {tx : Transaction}
    (paid : Paid S txkey.sec dests tx) {de : TxDestinationEntry} (member : de ∈ dests)
    (listed : keys.accountAddress ∈ de.addr) : checkTxDerivationHint W tx derivation = true := by
  rcases paid.hints de member _ listed with burned | ⟨derivationToo, again, written⟩
  · exact absurd burned alive
  · obtain rfl := Option.some.inj (derived.symm.trans again)
    unfold checkTxDerivationHint
    rw [looks.hint, Bool.or_eq_true]
    refine .inr (List.contains_iff_mem.mpr ?_)
    exact List.mem_filterMap.mpr ⟨_, written, rfl⟩

theorem PaidFrom.amounts {txSecKey : SecretKey} {outputIndex : Nat} {outs : List TxOut}
    (paid : PaidFrom S txSecKey outputIndex dests outs) :
    outs.map TxOut.amount = dests.map TxDestinationEntry.amount := by
  induction dests generalizing outputIndex outs with
  | nil =>
    cases outs with
    | nil => rfl
    | cons _ _ => cases paid
  | cons de rest ih =>
    cases outs with
    | nil => cases paid
    | cons out later => rw [List.map_cons, List.map_cons, paid.1.amount, ih paid.2]

end Lookup

/-! ## A payment in two calls -/

namespace TwoCalls

open SharedOffer (account seller buyer)

/-- A derivation is the product of the keys, and a one-time key is a pairing of everything it is
derived from. -/
def sending : Sending :=
  { SharedOffer.sending with
    derivePublicKey := fun derivation index pub =>
      some ⟨Nat.pair (Nat.pair derivation.val index) pub.val + 1⟩
    deriveSecretKey := fun derivation index sec =>
      ⟨Nat.pair (Nat.pair derivation.val index) sec.val + 1⟩
    secretKeyToPublicKey := fun sec => if sec.val = 0 then none else some ⟨sec.val⟩ }

theorem matching_iff {pub : PublicKey} {sec : SecretKey} :
    sending.Matching pub sec ↔ sec.val ≠ 0 ∧ pub = ⟨sec.val⟩ := by
  change (if sec.val = 0 then none else some (⟨sec.val⟩ : PublicKey)) = some pub ↔ _
  rw [Option.ite_none_left_eq_some, Option.some.injEq, eq_comm (a := pub)]

theorem separates : sending.Separates where
  symmetric {pub sec pubToo secToo} first second := by
    rw [(matching_iff.mp first).2, (matching_iff.mp second).2]
    exact congrArg (fun product => some (KeyDerivation.mk product)) (Nat.mul_comm _ _)
  total _ _ := rfl
  unique {pub sec apa apaToo index indexToo key} matching derived derivedToo := by
    obtain ⟨derivation, made⟩ := derived
    obtain ⟨derivationToo, madeToo⟩ := derivedToo
    have present := (matching_iff.mp matching).1
    have first := congrArg PublicKey.val (Prod.mk.inj (Option.some.inj made)).1
    have second := congrArg PublicKey.val (Prod.mk.inj (Option.some.inj madeToo)).1
    have same := Nat.succ.inj (first.trans second.symm)
    simp only [Nat.pair_eq_pair] at same
    obtain ⟨⟨product, number⟩, spend⟩ := same
    obtain ⟨⟨spendKey⟩, ⟨viewKey⟩⟩ := apa
    obtain ⟨⟨spendKeyToo⟩, ⟨viewKeyToo⟩⟩ := apaToo
    have view : viewKey = viewKeyToo :=
      Nat.eq_of_mul_eq_mul_right (Nat.pos_of_ne_zero present) product
    obtain rfl : spendKey = spendKeyToo := spend
    exact ⟨by rw [view], number⟩
  nonnull {derivation index pub key} made := by
    obtain rfl := Option.some.inj made
    exact fun null => Nat.succ_ne_zero _ (congrArg PublicKey.val null)
  unowned sec owned :=
    (matching_iff.mp owned).1 (congrArg PublicKey.val (matching_iff.mp owned).2).symm

/-- An own output of an account as a source. -/
def source (spend view : Nat) (complete : Bool) : TxSourceEntry :=
  { SharedOffer.source spend view complete with
    outputs := [(.index 0, ⟨Nat.pair (Nat.pair view 0) spend + 1⟩)] }

def nobody : AccountPublicAddress := ⟨nullPkey, nullPkey⟩

/-- A call of one account with destinations and a comment for the other one. -/
def call (spend view : Nat) (receiver : AccountPublicAddress) (dests : List TxDestinationEntry)
    (complete : Bool) : ConstructTx :=
  { SharedOffer.call spend view receiver [.txComment "for both"] complete with
    sources := [source spend view complete]
    destinations := dests }

def firstCall : ConstructTx := call 3 2 buyer [⟨3, [buyer], 0⟩, ⟨4, [seller, buyer], 2⟩] false

def secondCall : ConstructTx := call 7 5 seller [⟨2, [nobody], 0⟩, ⟨6, [buyer], 0⟩] true

def drafted (args : ConstructTx) (draft : TxDraft) : TxDraft :=
  (constructTx sending SharedOffer.env args draft).getD default

theorem drafted_eq {args : ConstructTx} {draft : TxDraft}
    (built : (constructTx sending SharedOffer.env args draft).isSome = true) :
    constructTx sending SharedOffer.env args draft = some (drafted args draft) := by
  obtain ⟨result, made⟩ := Option.isSome_iff_exists.mp built
  rw [drafted, made, Option.getD_some]

def paidTwice : TxDraft := drafted secondCall (drafted firstCall default)

theorem paidTwice_built :
    BuiltWith sending SharedOffer.env ⟨⟨11⟩, ⟨11⟩⟩
      (firstCall.shuffledDsts ++ secondCall.shuffledDsts) paidTwice :=
  .append (.begin (.inr rfl) rfl (fun _ member => by cases member) (drafted_eq (by decide)))
    rfl (by decide) (drafted_eq (by decide))

/-- The wallet of the buyer. -/
def wallet : WalletEnv :=
  { WalletEnv.plain with
    generateKeyDerivation := fun pub => sending.generateKeyDerivation pub ⟨5⟩
    derivePublicKey := fun derivation index => sending.derivePublicKey derivation index ⟨7⟩
    getDerivationXor := Virie.getDerivationXor
    genesisTxPubKey := ⟨1⟩ }

theorem wallet_looksAs : wallet.LooksAs sending (account 7 5) where
  derivation _ := rfl
  key _ _ := rfl
  hint _ := rfl

end TwoCalls

open TwoCalls in
example : ownDestinations SharedOffer.buyer 0
    (firstCall.shuffledDsts ++ secondCall.shuffledDsts) = [0, 1, 3] := by decide

namespace TwoCalls

/-- A call whose extra entries name a transaction key of their own. -/
def namedTwice : ConstructTx := { firstCall with extra := [.publicKey ⟨99⟩] }

end TwoCalls

end Virie
