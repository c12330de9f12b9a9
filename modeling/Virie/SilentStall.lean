import Virie.Protocol.Progress

/-! # Progress of synchronizing connections

The handlers keep a synchronizing connection waiting for something, except where a response is
ignored because the peer's address is blocked, and where the last known id does not fit the
height that the peer reports. -/

open Foundation

namespace Virie.Protocol

section Progress

variable {σ Blob : Type} {E : Env} {C : Core σ Blob} {s : Session σ Blob}

/-! ## Runs -/

/-- The ids of a response that must be requested, with those that are still needed. -/
def missingAfter (C : Core σ Blob) (arg : ResponseChainEntry) (s : Session σ Blob) :
    List BlockContextInfo :=
  s.context.neededObjects ++
    arg.blockIds.filter fun info => !C.haveBlock s.shared.core info.h

/-- The height of the last id of a response. -/
def lastHeightOf (arg : ResponseChainEntry) : UInt64 :=
  UInt64.ofNat arg.startHeight + UInt64.ofNat arg.blockIds.length - 1

/-- A response that settles the last request of a synchronizing connection comes from an address
that is not blocked. If it delivers what was requested and nothing remains to be requested, the
last height fits the reported one. -/
def Timely (E : Env) (C : Core σ Blob) (event : Event σ Blob) (s : Session σ Blob) : Prop :=
  match event with
  | .responseGetObjects arg =>
    (s.settle Notification.asksObjects).Progresses ∨
      s.addressBlocked = false ∧
        ((∀ id, s.context.requestedObjects.contains id = true → Delivers E C arg.blocks id) →
          s.context.neededObjects = [] →
          arg.currentBlockchainHeight < s.context.lastResponseHeight ∨
            HeightsFit s.context.lastResponseHeight arg.currentBlockchainHeight)
  | .responseChainEntry arg =>
    (s.settle Notification.asksChain).Progresses ∨
      s.addressBlocked = false ∧
        (∀ first, arg.blockIds.head? = some first → C.haveBlock s.shared.core first.h = true →
          missingAfter C arg s = [] →
          HeightsFit (lastHeightOf arg) (UInt64.ofNat arg.totalHeight) ∧
            (lastHeightOf arg = UInt64.ofNat arg.totalHeight - 1 →
              s.context.requestedObjects.isEmpty = true))
  | _ => True

/-- No response delivers what the core already has. -/
def Unrepeated (E : Env) (C : Core σ Blob) (event : Event σ Blob) (s : Session σ Blob) : Prop :=
  match event with
  | .responseGetObjects arg => ¬ Repeats E C arg.blocks s.shared.core
  | _ => True

/-- What is left to wait for after a timely response with blocks. -/
theorem responseGetObjects_progresses {arg : ResponseGetObjects Blob}
    (timely : Timely E C (.responseGetObjects arg) s) :
    (handleResponseGetObjects E C arg (s.settle Notification.asksObjects)).Progresses := by
  by_cases blocked : (s.settle Notification.asksObjects).addressBlocked = true
  · rcases timely with waits | ⟨unblocked, _⟩
    · rwa [handleResponseGetObjects, if_pos blocked]
    · exact absurd (blocked.symm.trans unblocked) (by decide)
  obtain ⟨advances, outcome⟩ : Advances _ _ (handleResponseGetObjects E C arg _) ∧ _ :=
    handleResponseGetObjects_cases (Bool.eq_false_iff.mpr blocked)
  rcases timely with waits | ⟨_, fits⟩
  · exact advances.progresses waits
  rcases outcome with closed | aside | ⟨s', same, needed, empty, delivered, last, remote, within⟩
  · exact fun _ => .of_closed closed
  · intro synchronizing
    cases synchronizing.symm.trans aside
  · rw [same]
    rcases requestMissingObjects_cases (C := C) true s' with waits | normal | ⟨_, nothing, stuck⟩
    · exact fun _ => waits
    · intro synchronizing
      cases synchronizing.symm.trans normal
    · rw [last, remote, empty] at stuck
      rw [needed] at nothing
      rcases fits delivered nothing with above | fit
      · exact absurd within (UInt64.not_le.mpr above)
      · cases (stuck fit).2

/-- What is left to wait for after a timely response with ids. -/
theorem responseChainEntry_progresses {arg : ResponseChainEntry}
    (timely : Timely E C (.responseChainEntry arg) s) :
    (handleResponseChainEntry C arg (s.settle Notification.asksChain)).Progresses := by
  rcases timely with waits | ⟨unblocked, fits⟩
  · have advances : Advances True _ (handleResponseChainEntry C arg _) :=
      .handleResponseChainEntry arg (s.settle Notification.asksChain)
    exact advances.progresses waits
  change (s.settle Notification.asksChain).addressBlocked = false at unblocked
  rw [handleResponseChainEntry, unblocked, if_neg Bool.false_ne_true]
  split
  · exact fun _ => .of_closed (failAddress_closed unblocked)
  · next first listed =>
    by_cases known : C.haveBlock s.shared.core first.h = true
    · rw [show C.haveBlock (s.settle Notification.asksChain).shared.core first.h = true from known,
        Bool.not_true, if_neg Bool.false_ne_true]
      rcases requestMissingObjects_cases (C := C) false
          (noteChainEntry C arg (s.settle Notification.asksChain)) with
        waits | normal | ⟨_, nothing, stuck⟩
      · exact fun _ => waits
      · intro synchronizing
        cases synchronizing.symm.trans normal
      · obtain ⟨fit, none_requested⟩ := fits first listed known nothing
        obtain ⟨same, requested⟩ := stuck fit
        cases (none_requested same).symm.trans requested
    · rw [show C.haveBlock (s.settle Notification.asksChain).shared.core first.h = false from
        Bool.eq_false_iff.mpr known, Bool.not_false, if_pos rfl]
      exact fun _ => .of_closed (failAddress_closed unblocked)

/-! ### Steps and runs -/

/-- A callback that is called leaves a request if the connection synchronizes. -/
theorem onCallback_keeps (counted : s.Counted) (queued : s.callbacks ≠ 0) :
    (onCallback C { s with callbacks := s.callbacks - 1 }).Counted ∧
      (onCallback C { s with callbacks := s.callbacks - 1 }).Progresses ∧
      (onCallback C { s with callbacks := s.callbacks - 1 }).context.state = s.context.state := by
  have due : s.context.callbackRequestCount > 0 := by
    rw [counted]
    omega
  have counts : s.context.callbackRequestCount - 1 = ((s.callbacks - 1 : Nat) : Int) := by
    rw [counted]
    omega
  rw [onCallback]
  dsimp only
  rw [if_pos due]
  by_cases synchronizing : s.context.state = .synchronizing
  · rw [if_pos synchronizing]
    exact ⟨counts, fun _ => waits_postRequestChain, rfl⟩
  · rw [if_neg synchronizing]
    exact ⟨counts, fun other => absurd other synchronizing, rfl⟩

/-- A handshake or a timed sync drops the connection when its data are refused. -/
theorem Advances.dropUnless {repeated : Prop} {result : Bool × Session σ Blob}
    (advances : Advances repeated s result.2) :
    Advances repeated s (if result.1 then result.2 else result.2.dropConnection) := by
  split
  · exact advances
  · exact advances.trans (.drop _)

/-- A step of a connection that is counted and progresses. -/
theorem react_keeps {event : Event σ Blob} (timely : Timely E C event s) (counted : s.Counted)
    (progresses : s.Progresses) :
    (react E C event s).Counted ∧ (react E C event s).Progresses := by
  have advanced : ∀ {s' : Session σ Blob}, Advances True s s' → s'.Counted ∧ s'.Progresses :=
    fun advances => ⟨advances.counted counted, advances.progresses progresses⟩
  unfold react
  split
  · exact ⟨counted, progresses⟩
  cases event with
  | callback =>
    dsimp only
    split
    · exact ⟨counted, progresses⟩
    · next queued =>
      obtain ⟨counted', progresses', _⟩ := onCallback_keeps (C := C) counted queued
      exact ⟨counted', progresses'⟩
  | handshake hshd => exact advanced (.dropUnless (.processPayloadSyncData hshd true s))
  | timedSync hshd => exact advanced (.dropUnless (.processPayloadSyncData hshd false s))
  | timedSyncAnswer hshd => exact advanced (.processPayloadSyncData hshd false s)
  | notifyNewBlock arg => exact advanced (.handleNotifyNewBlock arg s)
  | notifyNewTransactions txs => exact advanced (.handleNotifyNewTransactions txs s)
  | requestGetObjects arg => exact advanced (.handleRequestGetObjects arg s)
  | responseGetObjects arg =>
    exact ⟨(handleResponseGetObjects_advances arg _).counted counted,
      responseGetObjects_progresses timely⟩
  | requestChain blockIds => exact advanced (.handleRequestChain blockIds s)
  | responseChainEntry arg =>
    have advances : Advances True _ (handleResponseChainEntry C arg _) :=
      .handleResponseChainEntry arg (s.settle Notification.asksChain)
    exact ⟨advances.counted counted, responseChainEntry_progresses timely⟩
  | others shared => exact advanced (.frame rfl rfl rfl rfl rfl)
  | close => exact advanced (.drop s)

/-- A connection is only set aside for a response that repeats blocks. -/
theorem react_state {event : Event σ Blob} (unrepeated : Unrepeated E C event s)
    (counted : s.Counted) (active : s.context.state ≠ .idle) :
    (react E C event s).context.state ≠ .idle := by
  have advanced : ∀ {s' : Session σ Blob}, Advances False s s' → s'.context.state ≠ .idle :=
    fun advances aside => (advances.aside aside).elim active id
  unfold react
  split
  · exact active
  cases event with
  | callback =>
    dsimp only
    split
    · exact active
    · next queued =>
      rw [(onCallback_keeps (C := C) counted queued).2.2]
      exact active
  | handshake hshd => exact advanced (.dropUnless (.processPayloadSyncData hshd true s))
  | timedSync hshd => exact advanced (.dropUnless (.processPayloadSyncData hshd false s))
  | timedSyncAnswer hshd => exact advanced (.processPayloadSyncData hshd false s)
  | notifyNewBlock arg => exact advanced (.handleNotifyNewBlock arg s)
  | notifyNewTransactions txs => exact advanced (.handleNotifyNewTransactions txs s)
  | requestGetObjects arg => exact advanced (.handleRequestGetObjects arg s)
  | responseGetObjects arg =>
    intro aside
    rcases (handleResponseGetObjects_advances arg _).aside aside with before | repeats
    · exact active before
    · exact unrepeated repeats
  | requestChain blockIds => exact advanced (.handleRequestChain blockIds s)
  | responseChainEntry arg =>
    have advances : Advances False _ (handleResponseChainEntry C arg _) :=
      .handleResponseChainEntry arg (s.settle Notification.asksChain)
    exact fun aside => (advances.aside aside).elim active id
  | others shared => exact advanced (.frame rfl rfl rfl rfl rfl)
  | close => exact advanced (.drop s)

theorem session_keeps (reached : (sessionSystem E C).Reaches (Timely E C) s) :
    s.Counted ∧ s.Progresses := by
  induction reached with
  | start opened =>
    obtain ⟨fresh, _, _, counter, _, _, callbacks, _⟩ := opened
    refine ⟨?_, fun synchronizing => ?_⟩
    · rw [Session.Counted, counter, callbacks]
      rfl
    · cases synchronizing.symm.trans fresh
  | step _ event timely ih => exact react_keeps timely ih.1 ih.2

/-- Without repeated blocks a connection is never set aside. -/
theorem session_active
    (reached : (sessionSystem E C).Reaches
      (fun event s => Timely E C event s ∧ Unrepeated E C event s) s) :
    s.Counted ∧ s.Progresses ∧ s.context.state ≠ .idle := by
  induction reached with
  | start opened =>
    obtain ⟨counted, progresses⟩ := session_keeps (C := C) (E := E) (.start opened)
    refine ⟨counted, progresses, fun aside => ?_⟩
    cases aside.symm.trans opened.1
  | step _ event meets ih =>
    obtain ⟨counted, progresses, active⟩ := ih
    obtain ⟨counted', progresses'⟩ := react_keeps meets.1 counted progresses
    exact ⟨counted', progresses', react_state meets.2 counted active⟩

/-- In a run with timely responses a synchronizing connection always waits for something. If no
response repeats blocks either, every other connection is synchronized or still before its
handshake. -/
theorem synchronizing_waits {σ Blob : Type} (E : Env) (C : Core σ Blob) :
    (∀ s : Session σ Blob, (sessionSystem E C).Reaches (Timely E C) s →
      s.context.state = .synchronizing → s.Waits) ∧
    ∀ s : Session σ Blob,
      (sessionSystem E C).Reaches
        (fun event s => Timely E C event s ∧ Unrepeated E C event s) s →
      s.context.state = .synchronizing ∧ s.Waits ∨ s.context.state = .normal ∨
        s.context.state = .beforHandshake := by
  constructor
  · exact fun s reached => (session_keeps reached).2
  · intro s reached
    obtain ⟨_, progresses, active⟩ := session_active reached
    cases state : s.context.state with
    | beforHandshake => exact .inr (.inr rfl)
    | synchronizing => exact .inl ⟨rfl, progresses state⟩
    | idle => exact absurd state active
    | normal => exact .inr (.inl rfl)

end Progress

/-! ## A peer whose chain gets shorter -/

namespace ShorterPeer

/-- The core of a node for blocks that are sent as they are and have no transactions. -/
def nodeCore (E : Env) : Core Node Block where
  haveBlock node id := node.chain.haveBlock id
  currentBlockchainSize node := UInt64.ofNat node.chain.db.blocks.length
  topCheckpointHeight _ := UInt64.ofNat (getTopCheckpointHeight E)
  coreTime node := UInt64.ofNat node.chain.coreTime
  stopSignal _ := false
  shortChainHistory node := node.chain.db.getShortChainHistory E
  findBlockchainSupplement node ids := (node.chain.db.findBlockchainSupplement E ids).toOption
  handleGetObjects node arg :=
    let found := node.chain.db.blocks.filter fun bei => arg.blocks.contains (getBlockHash E bei.bl)
    (true, ⟨[], found.map fun bei => ⟨bei.bl, []⟩,
      arg.blocks.filter (fun id => !node.chain.db.blocksIndex.has id),
      UInt64.ofNat node.chain.db.blocks.length⟩)
  parseAndValidateBlockFromBlob b := some b
  parseBlock b := some b
  preValidateBlock _ _ node := (⟨false, false, false, false, false⟩, node)
  handleIncomingTx _ _ node := (⟨false, true, false, false⟩, node)
  handleIncomingBlock b _ node := (⟨(addNewBlock E b node).1.2, 0⟩, (addNewBlock E b node).2)
  onSynchronized node := node
  addTimeDeltaAndCheckTimeSync _ node := (true, node)
  stopFromTimeSync node := (false, node)

/-- A connection of a node that has only the genesis block. -/
def opened : Session Node Block where
  context :=
    { address := ⟨1, 11522⟩, isIncome := false, state := .beforHandshake
      remoteBlockchainHeight := 0, lastResponseHeight := 0, timeDelta := 0, remoteVersion := ""
      neededObjects := [], requestedObjects := ∅, callbackRequestCount := 0 }
  shared :=
    { core := ForkedPeers.peer [], book := .empty 1000, wantStop := false
      haveBeenSynchronized := false, maxHeightSeen := 0, coreInitalHeight := 0, blocksIdQue := ∅ }
  posted := []
  outstanding := []
  callbacks := 0
  closed := false

theorem opened_start : (sessionSystem .plain (nodeCore .plain)).start opened :=
  ⟨rfl, rfl, rfl, rfl, rfl, rfl, rfl, rfl⟩

/-- The peer has two more blocks. It tells their ids, and sends them when its chain has a given
height. -/
def events (height : UInt64) : List (Event Node Block) :=
  [.handshake ⟨3, ⟨3⟩, 0, 1000, ""⟩, .callback,
    .responseChainEntry ⟨0, 3, [⟨⟨1⟩, 1⟩, ⟨⟨2⟩, 1⟩, ⟨⟨3⟩, 1⟩]⟩,
    .responseGetObjects
      ⟨[], [⟨.plain 2 1 coin ⟨1⟩ [], []⟩, ⟨.plain 3 2 coin ⟨2⟩ [], []⟩], [], height⟩]

def synchronized (height : UInt64) : Session Node Block :=
  (sessionSystem .plain (nodeCore .plain)).after opened (events height)

/-- The peer's chain has lost its top block when it sends the last ones. -/
theorem shorterPeer_stalls :
    ¬ ∀ (σ Blob : Type) (E : Env) (C : Core σ Blob) (s : Session σ Blob),
      (sessionSystem E C).Reachable s → s.context.state = .synchronizing → s.Waits := by
  intro claim
  have stalled : (synchronized 2).context.state = .synchronizing ∧
      (synchronized 2).outstanding.isEmpty = true ∧ (synchronized 2).callbacks = 0 ∧
      (synchronized 2).closed = false := by
    decide +kernel
  obtain ⟨synchronizing, outstanding, callbacks, remains⟩ := stalled
  rcases claim Node Block .plain (nodeCore .plain) (synchronized 2)
      (System.Reachable.after (.start opened_start) _) synchronizing with waits | waits | waits
  · exact waits (List.isEmpty_iff.mp outstanding)
  · rw [callbacks] at waits
    cases waits
  · rw [remains] at waits
    cases waits

/-- The responses of a peer whose chain stays as it is are timely, and repeat no blocks. -/
theorem events_meet : (sessionSystem .plain (nodeCore .plain)).Meets
    (fun event s => Timely .plain (nodeCore .plain) event s ∧
      Unrepeated .plain (nodeCore .plain) event s) opened (events 3) := by
  refine ⟨⟨trivial, trivial⟩, ⟨trivial, trivial⟩, ⟨?_, trivial⟩, ⟨?_, ?_⟩, trivial⟩
  · refine .inr ⟨by decide +kernel, fun first _ _ nothing => ?_⟩
    have missing : (missingAfter (nodeCore .plain) ⟨0, 3, [⟨⟨1⟩, 1⟩, ⟨⟨2⟩, 1⟩, ⟨⟨3⟩, 1⟩]⟩
        ((sessionSystem .plain (nodeCore .plain)).after opened
          ((events 3).take 2))).isEmpty = false := by
      decide +kernel
    rw [List.isEmpty_eq_false_iff] at missing
    exact absurd nothing missing
  · refine .inr ⟨by decide +kernel, fun _ _ => .inr ?_⟩
    rw [HeightsFit]
    decide +kernel
  · rintro (⟨entry, b, second, parsed, known⟩ | ⟨before, entry, after, splits, later, _⟩)
    · cases second
      cases parsed
      revert known
      decide +kernel
    · have length := congrArg List.length splits
      rw [List.length_append, List.length_cons] at length
      change 2 = _ at length
      omega

/-- With a peer whose chain stays as it is, the connection does not stall. -/
theorem steadyPeer_waits :
    (synchronized 3).context.state = .synchronizing ∧ (synchronized 3).Waits ∨
      (synchronized 3).context.state = .normal ∨ (synchronized 3).context.state = .beforHandshake :=
  (synchronizing_waits .plain (nodeCore .plain)).2 _
    (System.Reaches.after (.start opened_start) events_meet)

end ShorterPeer
end Virie.Protocol
