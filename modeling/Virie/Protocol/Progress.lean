import Virie.Protocol.Handler

/-! # What handlers keep of a connection

A connection that synchronizes must wait for something: an answer, a callback or its end. Each
handler either leaves the requests and callbacks of a connection alone or adds to them, unless it
drops the connection or sets it aside. -/

open Foundation

namespace Virie.Protocol

section Progress

variable {σ Blob : Type}

/-- The connection has an unanswered request or a queued callback, or is being dropped. -/
def Session.Waits (s : Session σ Blob) : Prop :=
  s.outstanding ≠ [] ∨ 0 < s.callbacks ∨ s.closed = true

/-- While the connection synchronizes, it waits for something. -/
def Session.Progresses (s : Session σ Blob) : Prop :=
  s.context.state = .synchronizing → s.Waits

/-- Every counted callback is queued. -/
def Session.Counted (s : Session σ Blob) : Prop :=
  s.context.callbackRequestCount = s.callbacks

variable {E : Env} {C : Core σ Blob} {s : Session σ Blob}

/-! ## Single actions -/

namespace Session

theorem Waits.of_closed (closed : s.closed = true) : s.Waits := .inr (.inr closed)

theorem waits_postNotify {n : Notification Blob} (asks : (n.asksChain || n.asksObjects) = true) :
    (s.postNotify n).Waits := by
  refine .inl ?_
  rw [postNotify, if_pos asks]
  exact List.append_ne_nil_of_right_ne_nil _ (List.cons_ne_nil _ _)

theorem Waits.postNotify (waits : s.Waits) (n : Notification Blob) : (s.postNotify n).Waits := by
  rcases waits with outstanding | rest
  · refine .inl ?_
    rw [Session.postNotify]
    split
    · exact List.append_ne_nil_of_left_ne_nil outstanding _
    · exact outstanding
  · exact .inr rest

end Session

theorem allowedBlockedIps_addAddressFail (book : AddressBook) (address : NetAddress) :
    (book.addAddressFail address).allowedBlockedIps = book.allowedBlockedIps := by
  rw [AddressBook.addAddressFail]
  split <;> rfl

/-- A fail of an address that is not blocked drops the connection. -/
theorem failAddress_closed (unblocked : s.addressBlocked = false) :
    s.failAddress.closed = true := by
  have denied : (s.shared.book.addAddressFail s.context.address).addressAllowedToOutgoing
      s.context.address = false := by
    rw [AddressBook.addressAllowedToOutgoing, allowedBlockedIps_addAddressFail,
      Bool.eq_false_iff]
    intro allowed
    have blocked := s.shared.book.allowedBlocked _ allowed
    rw [Session.addressBlocked, AddressBook.addressBlocked, blocked] at unblocked
    cases unblocked
  rw [Session.failAddress]
  dsimp only
  rw [denied]
  rfl

theorem waits_postRequestChain : (postRequestChain C s).Waits := Session.waits_postNotify rfl

theorem onConnectionSynchronized_context :
    (onConnectionSynchronized C s).context = s.context := by
  rw [onConnectionSynchronized]
  split <;> rfl

/-- The last known height lies below the height of the peer. -/
def HeightsFit (lastResponseHeight remoteBlockchainHeight : UInt64) : Prop :=
  lastResponseHeight ≤ remoteBlockchainHeight - 1

/-- Asking for what is missing leaves a request, or the connection is synchronized, unless nothing
is needed and the last height does not fit. -/
theorem requestMissingObjects_cases (checkHavingBlocks : Bool) (s : Session σ Blob) :
    (requestMissingObjects C checkHavingBlocks s).Waits ∨
    (requestMissingObjects C checkHavingBlocks s).context.state = .normal ∨
    (requestMissingObjects C checkHavingBlocks s = s ∧ s.context.neededObjects = [] ∧
      (HeightsFit s.context.lastResponseHeight s.context.remoteBlockchainHeight →
        s.context.lastResponseHeight = s.context.remoteBlockchainHeight - 1 ∧
          s.context.requestedObjects.isEmpty = false)) := by
  rw [requestMissingObjects]
  by_cases needed : s.context.neededObjects ≠ []
  · rw [if_pos needed]
    exact .inl (Session.waits_postNotify rfl)
  rw [if_neg needed]
  by_cases below : s.context.lastResponseHeight < s.context.remoteBlockchainHeight - 1
  · rw [if_pos below]
    exact .inl waits_postRequestChain
  rw [if_neg below]
  by_cases final : s.context.lastResponseHeight = s.context.remoteBlockchainHeight - 1 ∧
      s.context.requestedObjects.isEmpty
  · rw [if_pos final, onConnectionSynchronized_context]
    exact .inr (.inl rfl)
  · rw [if_neg final]
    refine .inr (.inr ⟨rfl, not_not.mp needed, fun fit => ?_⟩)
    have same := UInt64.le_antisymm fit (UInt64.not_lt.mp below)
    exact ⟨same, Bool.eq_false_iff.mpr fun empty => final ⟨same, empty⟩⟩

/-! ## What handlers keep -/

/-- What a handler keeps of a connection. It sets the connection aside only if a condition holds. -/
structure Advances (repeated : Prop) (s s' : Session σ Blob) : Prop where
  counted : s.Counted → s'.Counted
  waits : s.Waits → s'.Waits
  starts : s'.context.state = .synchronizing → s.context.state = .synchronizing ∨ s'.Waits
  aside : s'.context.state = .idle → s.context.state = .idle ∨ repeated

namespace Advances

variable {repeated : Prop} {s s' s'' : Session σ Blob}

theorem progresses (advances : Advances repeated s s') (progresses : s.Progresses) :
    s'.Progresses := by
  intro synchronizing
  rcases advances.starts synchronizing with before | waits
  · exact advances.waits (progresses before)
  · exact waits

theorem refl (s : Session σ Blob) : Advances repeated s s := ⟨id, id, .inl, .inl⟩

theorem trans (first : Advances repeated s s') (second : Advances repeated s' s'') :
    Advances repeated s s'' where
  counted := second.counted ∘ first.counted
  waits := second.waits ∘ first.waits
  starts after := by
    rcases second.starts after with middle | waits
    · rcases first.starts middle with before | waits
      · exact .inl before
      · exact .inr (second.waits waits)
    · exact .inr waits
  aside after := by
    rcases second.aside after with middle | condition
    · exact first.aside middle
    · exact .inr condition

/-- A change of other parts than the state, the requests, the callbacks and the closing. -/
theorem frame (state : s'.context.state = s.context.state)
    (counter : s'.context.callbackRequestCount = s.context.callbackRequestCount)
    (callbacks : s'.callbacks = s.callbacks) (outstanding : s'.outstanding = s.outstanding)
    (closed : s'.closed = s.closed) : Advances repeated s s' where
  counted counted := by rw [Session.Counted, counter, callbacks, counted]
  waits waits := by rwa [Session.Waits, callbacks, outstanding, closed]
  starts after := .inl (by rwa [← state])
  aside after := .inl (by rwa [← state])

theorem drop (s : Session σ Blob) : Advances repeated s s.dropConnection where
  counted counted := counted
  waits _ := .of_closed rfl
  starts _ := .inr (.of_closed rfl)
  aside after := .inl after

theorem post (s : Session σ Blob) (n : Notification Blob) :
    Advances repeated s (s.postNotify n) where
  counted counted := counted
  waits waits := waits.postNotify n
  starts after := .inl after
  aside after := .inl after

theorem normal (s : Session σ Blob) : Advances repeated s (s.withState .normal) where
  counted counted := counted
  waits waits := waits
  starts after := by cases after
  aside after := by cases after

theorem setIdle (s : Session σ Blob) (condition : repeated) : Advances repeated s s.setIdle where
  counted counted := counted
  waits waits := waits
  starts after := by cases after
  aside _ := .inr condition

theorem withCore (s : Session σ Blob) (core : σ) : Advances repeated s (s.withCore core) :=
  frame rfl rfl rfl rfl rfl

theorem onConnectionSynchronized (s : Session σ Blob) :
    Advances repeated s (onConnectionSynchronized C s) := by
  rw [Protocol.onConnectionSynchronized]
  split
  · exact refl s
  · exact frame rfl rfl rfl rfl rfl

/-- A connection that starts to synchronize with a request on its way. -/
theorem askChain (s : Session σ Blob) :
    Advances repeated s (postRequestChain C (s.withState .synchronizing)) where
  counted counted := counted
  waits _ := waits_postRequestChain
  starts _ := .inr waits_postRequestChain
  aside after := by cases after

theorem stopsForTime (s : Session σ Blob) : Advances repeated s (stopsForTime C s).2 := by
  rw [Protocol.stopsForTime]
  split
  · exact refl s
  dsimp only
  split <;> exact withCore s _

theorem startSynchronization (hshd : CoreSyncData) (s : Session σ Blob) :
    Advances repeated s (startSynchronization C hshd s).2 := by
  rw [Protocol.startSynchronization]
  split
  · exact refl s
  · refine ⟨fun counted => ?_, fun _ => .inr (.inl (Nat.succ_pos _)),
      fun _ => .inr (.inr (.inl (Nat.succ_pos _))), fun after => by cases after⟩
    change s.context.callbackRequestCount + 1 = ((s.callbacks + 1 : Nat) : Int)
    rw [counted]
    rfl

theorem processPayloadSyncData (hshd : CoreSyncData) (isInital : Bool) (s : Session σ Blob) :
    Advances repeated s (processPayloadSyncData C hshd isInital s).2 := by
  rw [Protocol.processPayloadSyncData]
  dsimp only
  split
  · exact frame rfl rfl rfl rfl rfl
  have seen : Advances repeated s
      { s with
        context :=
          { s.context with
            remoteVersion := hshd.clientVersion
            timeDelta := C.coreTime s.shared.core - hshd.coreTime } } :=
    frame rfl rfl rfl rfl rfl
  refine (seen.trans (stopsForTime (C := C) _)).trans ?_
  generalize Protocol.stopsForTime C _ = timed
  split
  · exact refl _
  split
  · exact refl _
  split
  · refine (normal _).trans ?_
    dsimp only
    split
    · exact onConnectionSynchronized _
    · exact refl _
  · exact startSynchronization hshd _

theorem processNewBlock (arg : NotifyNewBlock Blob) (b : Block) (s : Session σ Blob) :
    Advances repeated s (processNewBlock E C arg b s) := by
  rw [Protocol.processNewBlock]
  dsimp only
  split
  · exact (withCore s _).trans (drop _)
  split
  · exact (withCore s _).trans (drop _)
  split
  · exact (withCore s _).trans (drop _)
  split
  · exact withCore s _
  split
  · exact (withCore s _).trans (askChain _)
  · exact withCore s _

theorem handleNotifyNewBlock (arg : NotifyNewBlock Blob) (s : Session σ Blob) :
    Advances repeated s (handleNotifyNewBlock E C arg s) := by
  rw [Protocol.handleNotifyNewBlock]
  split
  · exact refl s
  split
  · exact refl s
  split
  · exact drop s
  · dsimp only
    split
    · exact refl s
    split
    · exact refl s
    · exact processNewBlock arg _ s

theorem handleNotifyNewTransactions (txs : List Blob) (s : Session σ Blob) :
    Advances repeated s (handleNotifyNewTransactions C txs s) := by
  rw [Protocol.handleNotifyNewTransactions]
  split
  · exact refl s
  split
  · exact refl s
  dsimp only
  split
  · exact withCore s _
  · exact (withCore s _).trans (drop _)

theorem handleRequestGetObjects (arg : RequestGetObjects) (s : Session σ Blob) :
    Advances repeated s (handleRequestGetObjects C arg s) := by
  rw [Protocol.handleRequestGetObjects]
  dsimp only
  split
  · exact post s _
  · exact (drop s).trans (post _ _)

theorem handleRequestChain (blockIds : List Hash) (s : Session σ Blob) :
    Advances repeated s (handleRequestChain C blockIds s) := by
  rw [Protocol.handleRequestChain]
  split
  · exact post s _
  · exact refl s

theorem failAddress (s : Session σ Blob) : Advances repeated s s.failAddress := by
  rw [Session.failAddress]
  dsimp only
  split
  · exact frame rfl rfl rfl rfl rfl
  · refine trans ?_ (drop _)
    exact frame rfl rfl rfl rfl rfl

theorem requestMissingObjects (checkHavingBlocks : Bool) (s : Session σ Blob) :
    Advances repeated s (requestMissingObjects C checkHavingBlocks s) := by
  rw [Protocol.requestMissingObjects]
  split
  · refine trans ?_ (post _ _)
    exact frame rfl rfl rfl rfl rfl
  split
  · exact post s _
  split
  · exact (normal s).trans (onConnectionSynchronized _)
  · exact refl s

theorem handleResponseChainEntry (arg : ResponseChainEntry) (s : Session σ Blob) :
    Advances repeated s (handleResponseChainEntry C arg s) := by
  rw [Protocol.handleResponseChainEntry]
  split
  · exact refl s
  split
  · exact failAddress s
  split
  · exact failAddress s
  · refine trans ?_ (requestMissingObjects false _)
    exact frame rfl rfl rfl rfl rfl

end Advances

/-! ## Delivered blocks -/

/-- The state of the core after it has processed a delivered block, and what it found. -/
def deliver (C : Core σ Blob) (entry : BlockCompleteEntry Blob) (core : σ) : BlockVerdict × σ :=
  handleIncomingBlockBlob C entry.block
    (entry.txs.foldl (fun core txBlob => (C.handleIncomingTx txBlob true core).2) core)

/-- The state of the core after it has processed delivered blocks. -/
def deliverAll (C : Core σ Blob) (entries : List (BlockCompleteEntry Blob)) (core : σ) : σ :=
  entries.foldl (fun core entry => (deliver C entry core).2) core

/-- The core has the second delivered block, or finds a later one than the third to exist. -/
def Repeats (E : Env) (C : Core σ Blob) (blocks : List (BlockCompleteEntry Blob)) (core : σ) :
    Prop :=
  (∃ entry b, blocks[1]? = some entry ∧
      C.parseAndValidateBlockFromBlob entry.block = some b ∧
      C.haveBlock core (getBlockHash E b) = true) ∨
    ∃ before entry after, blocks = before ++ entry :: after ∧ 2 < before.length ∧
      (deliver C entry (deliverAll C before core)).1.alreadyExists = true

/-- How a pass over delivered blocks ends: it goes on with a session of some kind, or the
connection is dropped or set aside. -/
structure Passes (repeated : Prop) (goesOn : Session σ Blob → Prop) (s : Session σ Blob)
    (result : Bool × Session σ Blob) : Prop where
  advances : Advances repeated s result.2
  ends : (result.1 = true ∧ goesOn result.2) ∨
    (result.1 = false ∧ (result.2.closed = true ∨ result.2.context.state = .idle))

namespace Passes

variable {repeated : Prop} {goesOn : Session σ Blob → Prop} {s s' : Session σ Blob}
  {result : Bool × Session σ Blob}

theorem done (holds : goesOn s) : Passes repeated goesOn s (true, s) := ⟨.refl s, .inl ⟨rfl, holds⟩⟩

theorem drop (s : Session σ Blob) : Passes repeated goesOn s (false, s.dropConnection) :=
  ⟨.drop s, .inr ⟨rfl, .inl rfl⟩⟩

theorem fail (unblocked : s.addressBlocked = false) :
    Passes repeated goesOn s (false, s.failAddress) :=
  ⟨.failAddress s, .inr ⟨rfl, .inl (failAddress_closed unblocked)⟩⟩

theorem setIdle (s : Session σ Blob) (condition : repeated) :
    Passes repeated goesOn s (false, s.setIdle) :=
  ⟨.setIdle s condition, .inr ⟨rfl, .inr rfl⟩⟩

theorem after (advances : Advances repeated s s') (passes : Passes repeated goesOn s' result) :
    Passes repeated goesOn s result :=
  ⟨advances.trans passes.advances, passes.ends⟩

end Passes

section Deliveries

variable {repeated : Prop}

/-- A block with the id is among the delivered ones. -/
def Delivers (E : Env) (C : Core σ Blob) (entries : List (BlockCompleteEntry Blob)) (id : Hash) :
    Prop :=
  ∃ entry ∈ entries, ∃ b,
    C.parseAndValidateBlockFromBlob entry.block = some b ∧ getBlockHash E b = id

/-- The first pass goes on with the same session, apart from the requested ids that are
delivered. -/
theorem checkBlocks_passes {count : Nat} {entries : List (BlockCompleteEntry Blob)}
    (unblocked : s.addressBlocked = false)
    (repeats : ∀ i entry b, entries[i]? = some entry → count + i + 1 = 2 →
      C.parseAndValidateBlockFromBlob entry.block = some b →
      C.haveBlock s.shared.core (getBlockHash E b) = true → repeated) :
    Passes repeated
      (fun s' => ∃ requestedObjects,
        s' = { s with context := { s.context with requestedObjects } } ∧
          ∀ id, s.context.requestedObjects.contains id = true →
            requestedObjects.contains id = true ∨ Delivers E C entries id)
      s (checkBlocks E C count entries s) := by
  induction entries generalizing count s with
  | nil => exact .done ⟨s.context.requestedObjects, rfl, fun _ => .inl⟩
  | cons entry rest ih =>
    rw [checkBlocks]
    split
    · exact .drop s
    split
    · exact .fail unblocked
    · next b parsed =>
      dsimp only
      split
      · next second =>
        exact .setIdle s (repeats 0 entry b rfl second.1 parsed second.2)
      split
      · exact .drop s
      split
      · exact .drop s
      · have later := @ih
          { s with
            context :=
              { s.context with
                requestedObjects :=
                  Container.erase s.context.requestedObjects (getBlockHash E b) } }
          (count + 1) unblocked fun i entry b found second parsed known =>
            repeats (i + 1) entry b found (by omega) parsed known
        refine ⟨Advances.trans ?_ later.advances, ?_⟩
        · exact .frame rfl rfl rfl rfl rfl
        · rcases later.ends with ⟨goesOn, requested, same, remain⟩ | stops
          · refine .inl ⟨goesOn, requested, same, fun id asked => ?_⟩
            by_cases sameId : getBlockHash E b = id
            · exact .inr ⟨entry, .head _, b, parsed, sameId⟩
            · have still : KeySet.contains
                  (Container.erase s.context.requestedObjects (getBlockHash E b)) id = true := by
                rw [KeySet.contains_erase, asked, decide_eq_false sameId]
                rfl
              rcases remain id still with left | ⟨other, member, found⟩
              · exact .inl left
              · exact .inr ⟨other, .tail _ member, found⟩
          · exact .inr stops

theorem processBlockTxs_passes {txs : List Blob} :
    Passes repeated
      (fun s' => s' = s.withCore
        (txs.foldl (fun core txBlob => (C.handleIncomingTx txBlob true core).2) s.shared.core))
      s (processBlockTxs C txs s) := by
  induction txs generalizing s with
  | nil => exact .done rfl
  | cons txBlob rest ih =>
    rw [processBlockTxs]
    split
    · exact .drop s
    dsimp only
    split
    · exact .after (.withCore s _) (.drop _)
    · have later := @ih (s.withCore (C.handleIncomingTx txBlob true s.shared.core).2)
      exact ⟨.trans (.withCore s _) later.advances, later.ends⟩

/-- The second pass goes on with the same session, apart from the core. -/
theorem processBlocks_passes {count : Nat} {entries : List (BlockCompleteEntry Blob)}
    (unblocked : s.addressBlocked = false)
    (repeats : ∀ before entry after, entries = before ++ entry :: after →
      2 < count + before.length →
      (deliver C entry (deliverAll C before s.shared.core)).1.alreadyExists = true → repeated) :
    Passes repeated (fun s' => ∃ core, s' = s.withCore core) s
      (processBlocks C count entries s) := by
  induction entries generalizing count s with
  | nil => exact .done ⟨s.shared.core, rfl⟩
  | cons entry rest ih =>
    rw [processBlocks]
    split
    · exact .drop s
    have verified : Passes repeated _ s (processBlockTxs C entry.txs s) := processBlockTxs_passes
    generalize processBlockTxs C entry.txs s = result at verified
    obtain ⟨goesOn, s'⟩ := result
    dsimp only
    rcases verified.ends with ⟨rfl, same⟩ | ⟨rfl, stops⟩
    · dsimp only at same
      subst same
      rw [Bool.not_true, if_neg Bool.false_ne_true]
      split
      · next existing =>
        exact .after (.trans verified.advances (.withCore _ _)) (.setIdle _
          (repeats [] entry rest rfl existing.1 existing.2))
      split
      · exact .after (.trans verified.advances (.withCore _ _)) (.fail unblocked)
      split
      · exact .after (.trans verified.advances (.withCore _ _)) (.fail unblocked)
      · have later := @ih (s.withCore (deliver C entry s.shared.core).2) (count + 1) unblocked
          fun before other after splits later known =>
            repeats (entry :: before) other after (by rw [splits, List.cons_append])
              (by rw [List.length_cons]; omega) known
        refine ⟨.trans (.trans verified.advances (.withCore _ _)) later.advances, ?_⟩
        rcases later.ends with ⟨goesOn, core, same⟩ | stops
        · exact .inl ⟨goesOn, core, same⟩
        · exact .inr stops
    · exact ⟨verified.advances, .inr ⟨rfl, stops⟩⟩

/-- A response with blocks drops the connection, sets it aside, or leads to asking for what is
missing once all requested blocks are there. -/
theorem handleResponseGetObjects_cases {arg : ResponseGetObjects Blob}
    (unblocked : s.addressBlocked = false) :
    Advances (Repeats E C arg.blocks s.shared.core) s (handleResponseGetObjects E C arg s) ∧
    ((handleResponseGetObjects E C arg s).closed = true ∨
      (handleResponseGetObjects E C arg s).context.state = .idle ∨
      ∃ s' : Session σ Blob, handleResponseGetObjects E C arg s = requestMissingObjects C true s' ∧
        s'.context.neededObjects = s.context.neededObjects ∧
        s'.context.requestedObjects.isEmpty = true ∧
        (∀ id, s.context.requestedObjects.contains id = true → Delivers E C arg.blocks id) ∧
        s'.context.lastResponseHeight = s.context.lastResponseHeight ∧
        s'.context.remoteBlockchainHeight = arg.currentBlockchainHeight ∧
        s.context.lastResponseHeight ≤ arg.currentBlockchainHeight) := by
  rw [handleResponseGetObjects, unblocked, if_neg Bool.false_ne_true]
  by_cases above : s.context.lastResponseHeight > arg.currentBlockchainHeight
  · rw [if_pos above]
    exact ⟨.drop s, .inl rfl⟩
  rw [if_neg above]
  dsimp only
  have checked : Passes (Repeats E C arg.blocks s.shared.core) _ _
      (checkBlocks E C 0 arg.blocks
        { s with
          context := { s.context with remoteBlockchainHeight := arg.currentBlockchainHeight } }) :=
    checkBlocks_passes unblocked fun i entry b found second parsed known =>
      .inl ⟨entry, b, by rwa [show i = 1 by omega] at found, parsed, known⟩
  generalize checkBlocks E C 0 arg.blocks _ = result at checked
  obtain ⟨goesOn, s₁⟩ := result
  have advances : Advances (Repeats E C arg.blocks s.shared.core) s s₁ := by
    refine Advances.trans ?_ checked.advances
    exact .frame rfl rfl rfl rfl rfl
  rcases checked.ends with ⟨rfl, requested, same, remain⟩ | ⟨rfl, stops⟩
  · dsimp only at same
    subst same
    rw [Bool.not_true, if_neg Bool.false_ne_true]
    by_cases empty : requested.isEmpty = true
    · dsimp only
      rw [empty, Bool.not_true, if_neg Bool.false_ne_true]
      have processed : Passes (Repeats E C arg.blocks s.shared.core) _ _
          (processBlocks C 0 arg.blocks
            { s with
              context :=
                { s.context with
                  remoteBlockchainHeight := arg.currentBlockchainHeight
                  requestedObjects := requested } }) :=
        processBlocks_passes unblocked fun before entry after splits later known =>
          .inr ⟨before, entry, after, splits, by omega, known⟩
      generalize processBlocks C 0 arg.blocks _ = result at processed
      obtain ⟨goesOn, s₂⟩ := result
      rcases processed.ends with ⟨rfl, core, same⟩ | ⟨rfl, stops⟩
      · dsimp only at same
        rw [if_pos rfl]
        refine ⟨(advances.trans processed.advances).trans (.requestMissingObjects true s₂),
          .inr (.inr ⟨s₂, rfl, ?_⟩)⟩
        subst same
        refine ⟨rfl, empty, fun id asked => ?_, rfl, rfl, UInt64.not_lt.mp above⟩
        rcases remain id asked with left | delivered
        · rw [(KeySet.isEmpty_iff _).mp empty id] at left
          cases left
        · exact delivered
      · rw [if_neg Bool.false_ne_true]
        refine ⟨advances.trans processed.advances, ?_⟩
        rcases stops with closed | aside
        · exact .inl closed
        · exact .inr (.inl aside)
    · dsimp only
      rw [Bool.eq_false_iff.mpr empty, Bool.not_false, if_pos rfl]
      exact ⟨advances.trans (.drop _), .inl rfl⟩
  · rw [Bool.not_false, if_pos rfl]
    refine ⟨advances, ?_⟩
    rcases stops with closed | aside
    · exact .inl closed
    · exact .inr (.inl aside)

theorem handleResponseGetObjects_advances (arg : ResponseGetObjects Blob) (s : Session σ Blob) :
    Advances (Repeats E C arg.blocks s.shared.core) s (handleResponseGetObjects E C arg s) := by
  by_cases blocked : s.addressBlocked = true
  · rw [handleResponseGetObjects, if_pos blocked]
    exact .refl s
  · exact (handleResponseGetObjects_cases (Bool.eq_false_iff.mpr blocked)).1

end Deliveries

end Progress
end Virie.Protocol
