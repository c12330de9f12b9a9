import Virie.CheckpointFinality

/-! # The zone flag

Each block that is attempted on the main chain sets the flag whether its own height lies in the
checkpoint zone, and the flag stays until the next attempt, also when the block is rejected and its
database transaction aborted. Between two events it is nevertheless set only while the top block
lies in the zone: above the last checkpoint every attempt is above it too, because no branch that
leaves the main chain below a passed checkpoint can be completed. -/

open Foundation

namespace Virie

open Procedure

section ZoneFlag

variable {E : Env} {node node' : Node} {bl : Block} {id : Hash} {height : Nat}

/-! ## The zone -/

theorem isInCheckpointZone_iff :
    isInCheckpointZone E height = true ↔ height ≤ getTopCheckpointHeight E := by
  unfold isInCheckpointZone
  cases points : E.points.toList with
  | nil =>
    have top : getTopCheckpointHeight E = 0 := by
      rw [getTopCheckpointHeight, points]
      rfl
    rw [top, List.isEmpty_nil, Bool.not_true, Bool.false_and, Bool.or_false, beq_iff_eq]
    omega
  | cons point rest =>
    rw [List.isEmpty_cons, Bool.not_false, Bool.true_and, Bool.or_eq_true, beq_iff_eq,
      decide_eq_true_eq]
    omega

theorem outside_iff :
    isInCheckpointZone E height = false ↔ getTopCheckpointHeight E < height := by
  rw [Bool.eq_false_iff, ne_eq, isInCheckpointZone_iff, Nat.not_le]

/-- The last checkpoint, unless it is the genesis block. -/
theorem topCheckpoint (high : 0 < getTopCheckpointHeight E) :
    ∃ point, E.points.get (getTopCheckpointHeight E) = some point := by
  unfold getTopCheckpointHeight at high ⊢
  cases newest : E.points.toList.getLast? with
  | none =>
    rw [newest] at high
    cases high
  | some last =>
    have member := List.mem_of_getLast? newest
    exact ⟨last.2, (Container.mem_toList E.points last.1 last.2).mp member⟩

/-! ## Alternative blocks -/

/-- Blocks with the same id have the same height, which their coinbase contains. -/
def HeightsNamed (E : Env) : Prop :=
  ∀ bl other, getBlockHash E bl = getBlockHash E other → getBlockHeight bl = getBlockHeight other

/-- What a stored alternative block says about itself and the block below it. -/
structure AltFits (E : Env) (id : Hash) (entry : AltBlockExtendedInfo) : Prop where
  named : id = getBlockHash E entry.bl
  above : 1 ≤ entry.height
  height : getBlockHeight entry.bl = entry.height
  checkpoint : ∀ point, E.points.get entry.height = some point → id = point
  parent : ∀ bl, getBlockHash E bl = entry.bl.prevId → getBlockHeight bl + 1 = entry.height

theorem altAncestors_last {stored : Container Hash AltBlockExtendedInfo} {fuel : Nat} {id : Hash}
    {last : Hash × AltBlockExtendedInfo}
    (newest : (altAncestors stored fuel id).getLast? = some last) : last.1 = id := by
  cases fuel with
  | zero => cases newest
  | succ fuel =>
    unfold altAncestors at newest
    split at newest
    · cases newest
    · rw [List.getLast?_concat] at newest
      rw [← Option.some.inj newest]

/-- A branch has blocks at all heights from its bottom to its top. -/
theorem altAncestors_heights {stored : Container Hash AltBlockExtendedInfo}
    (fits : ∀ id entry, stored.get id = some entry → AltFits E id entry) {fuel : Nat} {id : Hash}
    {first last : Hash × AltBlockExtendedInfo}
    (head : (altAncestors stored fuel id).head? = some first)
    (newest : (altAncestors stored fuel id).getLast? = some last) (low : first.2.height ≤ height)
    (high : height ≤ last.2.height) : ∃ entry ∈ altAncestors stored fuel id,
      entry.2.height = height := by
  induction fuel generalizing id last with
  | zero => cases head
  | succ fuel ih =>
    unfold altAncestors at head newest ⊢
    cases found : stored.get id with
    | none =>
      rw [found] at head
      cases head
    | some entry =>
      rw [found] at head newest
      dsimp only at head newest ⊢
      rw [List.getLast?_concat] at newest
      obtain rfl := Option.some.inj newest
      by_cases top : height = entry.height
      · exact ⟨(id, entry), List.mem_append_right _ (List.mem_singleton.mpr rfl), top.symm⟩
      · cases below : (altAncestors stored fuel entry.bl.prevId).getLast? with
        | none =>
          rw [List.getLast?_eq_none_iff.mp below] at head
          obtain rfl := Option.some.inj head
          exact absurd (Nat.le_antisymm high low) top
        | some parent =>
          have inside := List.mem_of_getLast? below
          have parentFits := fits _ _ (mem_altAncestors inside)
          have linked := (fits id entry found).parent parent.2.bl
            (parentFits.named.symm.trans (altAncestors_last below))
          have parentHeight := parentFits.height
          have headBelow : (altAncestors stored fuel entry.bl.prevId).head? = some first := by
            rw [← head, List.head?_append_of_ne_nil _ (List.ne_nil_of_mem inside)]
          have under : height ≤ parent.2.height := by
            have strict : height ≤ entry.height := high
            omega
          obtain ⟨other, member, same⟩ := ih headBelow below under
          exact ⟨other, List.mem_append_left _ member, same⟩

/-- The checkpoint test of an accepted alternative block. -/
theorem checkpoint_of_prepare {position : AltPosition} {accepted : AltAcceptance}
    (prepared : prepareAltBlock E node bl id = .ok (some (position, accepted))) {point : Hash}
    (checkpoint : E.points.get position.height = some point) : id = point := by
  obtain ⟨_, _, _, _, validated⟩ := prepareAltBlock_ok prepared
  simp only [validateAltBlock, Outcome.bind_ok, Outcome.require_ok] at validated
  obtain ⟨_, _, _, _, _, _, _, _, _, passed, _⟩ := validated
  rw [isInCheckpointZone_of_point checkpoint, Bool.not_true, Bool.false_or, checkBlock,
    checkpoint] at passed
  exact (beq_iff_eq.mp passed).symm

/-- Stored alternative blocks fit, and their ids are among the ones that are offered. -/
theorem storeRule_fits (named : HeightsNamed E) (allowed : Hash → Prop) :
    StoreRule E (fun _ => True) anyBlock (fun _ bl => allowed (getBlockHash E bl))
      fun id entry => AltFits E id entry ∧ allowed id where
  aboveGenesis _ _ fits := fits.1.above
  isKnown _ _ _ := trivial
  stores node bl position accepted before _ offered prepared := by
    have checked := altAccepted_of_prepare prepared
    have placed := altPlaced_of_prepare prepared
    refine ⟨⟨?_, ?_, ?_, ?_, ?_⟩, offered⟩
    · rw [checked.entryBl]
    · rw [checked.entryHeight]
      exact placed.height_pos
    · rw [checked.entryBl, checked.entryHeight]
      exact checked.height
    · rw [checked.entryHeight]
      exact fun point checkpoint => checkpoint_of_prepare prepared checkpoint
    · intro other same
      rw [checked.entryBl] at same
      rw [checked.entryHeight]
      cases newest : position.altChain.getLast? with
      | none =>
        obtain ⟨parent, indexed, present, height, above, _⟩ :=
          placed.alone (List.getLast?_eq_none_iff.mp newest)
        obtain ⟨_, there, parentId⟩ := (before.built.blocksIndex_get _ _).mp indexed
        obtain rfl := Option.some.inj (there.symm.trans present)
        rw [named other _ (same.trans parentId.symm), before.built.coinbaseHeight present, height]
        omega
      | some last =>
        have fits := (before.keeps.frame _ _ (placed.mem_branch (List.mem_of_getLast? newest))).1
        rw [placed.branch] at newest
        have parentId := fits.named.symm.trans (altAncestors_last newest)
        rw [named other _ (same.trans parentId.symm), fits.height]
        rw [← placed.branch] at newest
        exact (placed.top last newest).1.symm

/-- Stored blocks fit. -/
abbrev StoredFits (E : Env) : Chain → Prop := Stored fun id entry => AltFits E id entry ∧ True

/-- A branch that a block above a checkpoint of the main chain completes leaves the main chain
above the checkpoint, if the checkpoint is not stored beside the main chain. -/
theorem branch_above (fits : StoredFits E node.chain) {position : AltPosition}
    {accepted : AltAcceptance}
    (prepared : prepareAltBlock E node bl id = .ok (some (position, accepted))) {c : Nat}
    {point : Hash} (checkpoint : E.points.get c = some point)
    (passed : c < node.chain.db.blocks.length)
    (unstored : node.chain.alternativeChains.get point = none) : c < position.connectionHeight := by
  have above := above_of_prepare prepared checkpoint passed
  have checked := altAccepted_of_prepare prepared
  have placed := altPlaced_of_prepare prepared
  rw [checked.height] at above
  by_contra low
  cases newest : position.altChain.getLast? with
  | none =>
    obtain ⟨_, _, _, height, _⟩ := placed.alone (List.getLast?_eq_none_iff.mp newest)
    omega
  | some last =>
    have top := (placed.top last newest).1
    cases branch : position.altChain with
    | nil =>
      rw [branch] at newest
      cases newest
    | cons first rest =>
      have head : position.altChain.head? = some first := by rw [branch]; rfl
      have bottom := (placed.split first head).1
      rw [placed.branch] at head newest
      obtain ⟨entry, member, same⟩ : ∃ entry ∈ altAncestors _ _ _, entry.2.height = c :=
        altAncestors_heights (fun id entry found => (fits id entry found).1) head newest (by omega)
          (by omega)
      have stored := mem_altAncestors member
      have isPoint := (fits _ _ stored).1.checkpoint point (same ▸ checkpoint)
      rw [isPoint, unstored] at stored
      cases stored

/-! ## Attempts -/

/-- Storages of a number of blocks whose flag is as it was or says whether the next height lies in
the zone. -/
def FlagOf (E : Env) (flag : Bool) (count : Nat) (chain : Chain) : Prop :=
  chain.db.blocks.length = count ∧
    (chain.isInCheckpointZone = flag ∨ chain.isInCheckpointZone = isInCheckpointZone E count)

section Queries

variable {I : Chain → Prop}

theorem preserves_getNextDiffConditional_of
    (free : ∀ chain diffCache, I chain → I { chain with diffCache }) (pos : Bool) :
    Preserves I (getNextDiffConditional pos) := by
  refine preserves_bind (preserves_reading _) fun _ =>
    preserves_bind (preserves_modify fun chain holds => ?_) fun _ => preserves_pure _
  split
  · exact holds
  · exact free chain _ holds

theorem preserves_getCachedNextDifficulty_of
    (free : ∀ chain diffCache, I chain → I { chain with diffCache }) (pos : Bool) :
    Preserves I (getCachedNextDifficulty pos) :=
  preserves_get_bind fun chain holds => preserves_bind (preserves_set (free chain _ holds)) fun _ =>
    preserves_ite (fun _ => preserves_pure _) fun _ => preserves_getNextDiffConditional_of free _

end Queries

theorem preserves_checkBlockHeader_flag (flag : Bool) (count : Nat) (bl : Block) (id : Hash) :
    Preserves (FlagOf E flag count) (checkBlockHeader E bl id) :=
  preserves_get_bind fun _ holds => preserves_bind (preserves_require _) fun _ =>
    preserves_bind (preserves_require _) fun _ => preserves_bind
    (preserves_set ⟨holds.1, .inr (congrArg (isInCheckpointZone E) holds.1)⟩) fun _ =>
    preserves_bind (preserves_require _) fun _ => preserves_bind (preserves_require _) fun _ =>
    preserves_bind (preserves_getNextDiffConditional_of (fun _ _ holds => holds) _) fun _ =>
    preserves_bind (preserves_require _) fun _ => preserves_bind (preserves_reading _) fun _ =>
    preserves_bind (preserves_require _) fun _ => preserves_pure _

/-- After the checks of a header the flag says whether the height of the block lies in the zone. -/
theorem checkBlockHeader_ok_flag {checked : Nat × Hash} {chain chain' : Chain}
    (run : checkBlockHeader E bl id chain = .ok checked chain') :
    chain'.isInCheckpointZone = isInCheckpointZone E chain.db.blocks.length := by
  simp only [checkBlockHeader, bind_ok, get_ok, require_ok, set_ok, reading_ok,
    getNextDiffConditional_ok, pure_ok] at run
  obtain ⟨_, _, ⟨rfl, rfl⟩, _, _, ⟨_, rfl⟩, _, _, ⟨_, rfl⟩, _, _, rfl, _, _, ⟨_, rfl⟩, _, _,
    ⟨_, rfl⟩, _, _, ⟨_, rfl⟩, _, _, ⟨_, rfl⟩, _, _, ⟨_, rfl⟩, _, _, ⟨_, rfl⟩, _, rfl⟩ := run
  rfl

variable {good : TransactionPrefix → Prop} {known : Block → Prop} {J : Chain → Prop}

/-- An attempt leaves the flag alone or sets it to whether its own height lies in the zone. -/
theorem handleBlock_flag (sound : NodeSound E good node) (bl : Block) (id : Hash) :
    (final (handleBlockToMainChain E bl id node)).chain.isInCheckpointZone =
        node.chain.isInCheckpointZone ∨
      (final (handleBlockToMainChain E bl id node)).chain.isInCheckpointZone =
        isInCheckpointZone E node.chain.db.blocks.length :=
  (keeps_handleBlock_of_header (J := fun frame =>
      frame.isInCheckpointZone = node.chain.isInCheckpointZone ∨
      frame.isInCheckpointZone = isInCheckpointZone E node.chain.db.blocks.length) sound
    (preserves_checkBlockHeader_flag _ _ bl id node.chain ⟨rfl, .inl rfl⟩).2).frame

/-- A connected block leaves the flag that says whether its height lies in the zone. -/
theorem handleBlock_ok_flag (sound : NodeSound E good node)
    (run : handleBlockToMainChain E bl id node = .ok () node') :
    node'.chain.isInCheckpointZone = isInCheckpointZone E node.chain.db.blocks.length := by
  obtain ⟨⟨diff, proof⟩, checked, header, connects⟩ := bind_ok.mp run
  obtain ⟨chain, headerRun, rfl⟩ := onChain_ok.mp header
  have checkedSound : NodeSound E good { node with chain } :=
    (keeps_onChain (preserves_checkBlockHeader cacheFree_true bl id)).of_ok header sound
  have marked := checkBlockHeader_ok_flag headerRun
  have kept := (keeps_connectCheckedBlock (J := fun frame => frame.isInCheckpointZone =
    isInCheckpointZone E node.chain.db.blocks.length) (coinbase_of_checkBlockHeader headerRun) id
    diff proof).of_ok connects ⟨checkedSound.pool, checkedSound.txs, marked⟩
  exact kept.frame

/-! ## Switches -/

/-- The flag is set only if it was. -/
def Unset (flag : Bool) (node : Node) : Prop := node.chain.isInCheckpointZone = true → flag = true

theorem booksFree_unset (flag : Bool) :
    BooksFree fun chain => chain.isInCheckpointZone = true → flag = true :=
  fun _ _ _ _ _ holds => holds

/-- Above the last checkpoint a branch never sets the flag. -/
theorem connectBranch_outside (free : CacheFree J) (before : NodeBuilt E good anyBlock J node)
    (above : getTopCheckpointHeight E < node.chain.db.blocks.length) (altChain : AltChain) :
    Unset node.chain.isInCheckpointZone (final (connectBranch E altChain node)) := by
  induction altChain generalizing node with
  | nil => exact fun set => set
  | cons head rest ih =>
    intro set
    have flag := handleBlock_flag before.keeps.sound head.2.bl (getBlockHash E head.2.bl)
    rw [outside_iff.mpr above, ← final_attempt] at flag
    rw [connectBranch] at set
    cases run : attempt (handleBlockToMainChain E head.2.bl (getBlockHash E head.2.bl)) node with
    | error reason middle =>
      rw [run] at flag
      rw [bind_of_error run] at set
      rcases flag with same | clear
      · exact same ▸ set
      · cases clear.symm.trans set
    | ok connected middle =>
      rw [run] at flag
      rw [bind_of_ok run] at set
      cases connected with
      | false =>
        rcases flag with same | clear
        · exact same ▸ set
        · cases clear.symm.trans set
      | true =>
        obtain ⟨_, handled⟩ := attempt_true.mp run
        obtain ⟨pushed, bei, txs, _, connects⟩ := before.push free trivial
          (fun none => by rw [none] at above; cases above) handled
        have higher : getTopCheckpointHeight E < middle.chain.db.blocks.length := by
          rw [connects.blocks, List.length_append]
          omega
        have still := ih pushed higher set
        rw [handleBlock_ok_flag before.keeps.sound handled, outside_iff.mpr above] at still
        cases still

/-- A branch that connects leaves the flag that says whether the top block lies in the zone. -/
theorem connectBranch_ok_flag (free : CacheFree J) (before : NodeBuilt E good anyBlock J node)
    (started : node.chain.db.blocks ≠ []) {altChain : AltChain}
    (run : connectBranch E altChain node = .ok [] node') :
    altChain = [] ∨ node'.chain.isInCheckpointZone =
      isInCheckpointZone E (node'.chain.db.blocks.length - 1) := by
  induction altChain generalizing node with
  | nil => exact .inl rfl
  | cons head rest ih =>
    right
    obtain ⟨connected, middle, first, run⟩ := bind_ok.mp run
    cases connected with
    | false =>
      rw [if_neg Bool.false_ne_true] at run
      cases (pure_ok.mp run).1
    | true =>
      obtain ⟨_, handled⟩ := attempt_true.mp first
      obtain ⟨pushed, bei, txs, _, connects⟩ := before.push free trivial
        (fun none => absurd none started) handled
      have length : middle.chain.db.blocks.length = node.chain.db.blocks.length + 1 := by
        rw [connects.blocks, List.length_append, List.length_singleton]
      rw [if_pos rfl] at run
      rcases ih pushed (List.ne_nil_of_length_pos (by omega)) run with rfl | flag
      · obtain ⟨_, rfl⟩ := pure_ok.mp run
        rw [handleBlock_ok_flag before.keeps.sound handled, length, Nat.add_sub_cancel]
      · exact flag

/-- A switch to a branch above the last checkpoint does not set the flag. -/
theorem switch_outside (free : CacheFree J) (before : NodeBuilt E good anyBlock J node)
    {altChain : AltChain} {first : Hash × AltBlockExtendedInfo}
    (head : altChain.head? = some first) (above : getTopCheckpointHeight E < first.2.height)
    (low : first.2.height ≤ node.chain.db.blocks.length) :
    Unset node.chain.isInCheckpointZone
      (final (switchToAlternativeBlockchain E altChain node)) := by
  obtain ⟨lowered, built, blocks, disconnect, switch⟩ :=
    switch_runs before head (Nat.lt_of_le_of_lt (Nat.zero_le _) above) low
  have flag := ((keeps_disconnectBlocks (J := fun frame =>
    frame.isInCheckpointZone = node.chain.isInCheckpointZone) _).of_ok disconnect
      ⟨before.keeps.pool, before.keeps.txs, rfl⟩).frame
  have height : getTopCheckpointHeight E < lowered.chain.db.blocks.length := by
    rw [blocks, List.length_take]
    omega
  rw [switch, ← flag]
  exact final_bind (connectBranch_outside free built height altChain) fun _ =>
    keepsChain_finishSwitch (booksFree_unset _) _ _ _ _

theorem final_runSwitch (altChain : AltChain) (node : Node) :
    final (runSwitch E altChain node) = final (switchToAlternativeBlockchain E altChain node) := by
  unfold runSwitch
  rcases switchToAlternativeBlockchain E altChain node with ⟨_, after⟩ | ⟨_ | _, after⟩ <;> rfl

theorem preserves_finalizeLinked_unset (flag : Bool) :
    Preserves (Unset flag) (finalizeLinked E) :=
  preserves_get_bind fun _ _ => preserves_ite
    (fun _ => preserves_bind (preserves_within fun _ holds => holds) fun _ => preserves_pure _)
    fun _ => preserves_pure _

/-! ## Submissions -/

/-- Between two events the flag is set only while the top block lies in the zone, and the last
checkpoint is not stored beside a main chain that has passed it. -/
structure ZoneSettled (E : Env) (node : Node) : Prop where
  flag : node.chain.isInCheckpointZone = true →
    isInCheckpointZone E (node.chain.db.blocks.length - 1) = true
  unstored : ∀ point, E.points.get (getTopCheckpointHeight E) = some point →
    getTopCheckpointHeight E < node.chain.db.blocks.length →
    node.chain.alternativeChains.get point = none

/-- What the nodes of a run have in common, so far as the flag depends on it. -/
structure RunsSettled (E : Env) (node : Node) : Prop where
  built : NodeBuilt E (fun _ => True) anyBlock AboveGenesis node
  fits : StoredFits E node.chain
  settled : ZoneSettled E node

/-- A branch that a submission to a chain above the last checkpoint switches to leaves the main
chain above the last checkpoint. -/
theorem switches_above (runs : RunsSettled E node)
    (passed : getTopCheckpointHeight E < node.chain.db.blocks.length) {position : AltPosition}
    {accepted : AltAcceptance}
    (prepared : prepareAltBlock E node bl id = .ok (some (position, accepted))) :
    getTopCheckpointHeight E < position.connectionHeight := by
  by_cases genesis : getTopCheckpointHeight E = 0
  · rw [genesis]
    exact Nat.pos_of_ne_zero (altAccepted_of_prepare prepared).split
  · obtain ⟨point, checkpoint⟩ := topCheckpoint (Nat.pos_of_ne_zero genesis)
    exact branch_above runs.fits prepared checkpoint passed
      (runs.settled.unstored point checkpoint passed)

/-- A submission to a chain above the last checkpoint does not set the flag. -/
theorem submitBlock_outside (runs : RunsSettled E node)
    (passed : getTopCheckpointHeight E < node.chain.db.blocks.length) (bl : Block) :
    Unset node.chain.isInCheckpointZone (final (submitBlock E bl node)) := by
  have way := submits (E := E) bl node
  generalize submitBlock E bl node = result at way ⊢
  cases way with
  | known present => exact fun set => set
  | declined absent apart unplaced chain pool aborts unadded =>
    intro set
    rwa [final_ok, chain] at set
  | stored absent apart prepared tip lighter => exact fun set => set
  | switches starts =>
    obtain ⟨position, accepted, first, prepared, _, rfl, built, head, split, _, low⟩ :=
      branch_of_starts runs.built starts
    have switch := switch_outside cacheFree_stored built head
      (split ▸ switches_above runs passed prepared) low
    rw [← final_runSwitch] at switch
    rw [reorganize]
    exact final_bind switch fun _ => preserves_ite (fun _ => preserves_pure _) fun _ =>
      preserves_bind (preserves_finalizeLinked_unset _) fun _ => preserves_pure _
  | continues absent linked =>
    have flag := handleBlock_flag runs.built.keeps.sound bl (getBlockHash E bl)
    rw [outside_iff.mpr passed, ← final_attempt] at flag
    have handled : Unset node.chain.isInCheckpointZone
        (final (attempt (handleBlockToMainChain E bl (getBlockHash E bl)) node)) := by
      intro set
      rcases flag with same | clear
      · exact same ▸ set
      · cases clear.symm.trans set
    rw [submitToTip]
    refine final_bind handled fun connected => preserves_ite (fun _ => ?_) fun _ => ?_
    · exact preserves_bind (preserves_finalizeLinked_unset _) fun _ => preserves_pure _
    · exact preserves_bind (preserves_within fun _ holds => holds) fun _ => preserves_bind
        (preserves_within fun _ holds => holds) fun _ => preserves_pure _

theorem addNewBlock_chainFlag (bl : Block) (node : Node) :
    (addNewBlock E bl node).2.chain.isInCheckpointZone =
      (final (submitBlock E bl node)).chain.isInCheckpointZone := by
  unfold addNewBlock
  cases submitBlock E bl node with
  | error reason after => rfl
  | ok submission after =>
    dsimp only
    split <;> rfl

theorem addNewBlock_unset (runs : RunsSettled E node)
    (passed : getTopCheckpointHeight E < node.chain.db.blocks.length) (bl : Block) :
    Unset node.chain.isInCheckpointZone (addNewBlock E bl node).2 := by
  rw [Unset, addNewBlock_chainFlag]
  exact submitBlock_outside runs passed bl

/-- A committed submission leaves the flag that says whether the new top block lies in the zone. -/
theorem submitBlock_committed_flag
    (before : NodeBuilt E (fun _ => True) anyBlock AboveGenesis node) {submission : Submission}
    (run : submitBlock E bl node = .ok submission node') (commits : submission.committed = true) :
    node'.chain.isInCheckpointZone =
      isInCheckpointZone E (node'.chain.db.blocks.length - 1) := by
  rcases submitBlock_committed run commits with
    ⟨_, _, connected, linked, handled, finalized⟩ |
    ⟨altChain, offered, success, switched, linked, starts, switch, finalized⟩
  · obtain ⟨bei, txs, _, connects⟩ := connects_of_handleBlockToMainChain before.keeps.sound handled
    rw [finalizeLinked_chain finalized, handleBlock_ok_flag before.keeps.sound handled,
      connects.blocks, List.length_append, List.length_singleton, Nat.add_sub_cancel]
  · obtain ⟨_, position, accepted, lowered, raised, stored, _, chain, rfl, stages⟩ :=
      switchStages_of_starts before starts switch
    have started : lowered.chain.db.blocks ≠ [] := by
      apply List.ne_nil_of_length_pos
      rw [stages.loweredBlocks, List.length_take]
      exact Nat.lt_min.mpr ⟨stages.above, Nat.lt_of_lt_of_le stages.above stages.low⟩
    have flag := (connectBranch_ok_flag cacheFree_stored stages.loweredBuilt started
      stages.connects).resolve_left (by rw [chain]; exact List.concat_ne_nil _ _)
    have free : BooksFree fun chain =>
        chain.isInCheckpointZone = raised.chain.isInCheckpointZone ∧ chain.db = raised.chain.db :=
      fun _ _ _ _ _ holds => holds
    have kept := (keepsChain_eraseBranch free altChain).of_ok stages.erases
      ((keepsChain_storeDisconnected free _).of_ok stages.stores ⟨rfl, rfl⟩)
    rw [finalizeLinked_chain finalized, kept.1, kept.2, flag]

theorem addNewBlock_flag (runs : RunsSettled E node) (bl : Block) :
    (addNewBlock E bl node).2.chain.isInCheckpointZone = true →
      isInCheckpointZone E ((addNewBlock E bl node).2.chain.db.blocks.length - 1) = true := by
  -- An aborted submission restores the blocks but not the flag.
  have aborted : (final (submitBlock E bl node)).chain.isInCheckpointZone = true →
      isInCheckpointZone E (node.chain.db.blocks.length - 1) = true := by
    intro set
    by_cases passed : getTopCheckpointHeight E < node.chain.db.blocks.length
    · exact runs.settled.flag (submitBlock_outside runs passed bl set)
    · rw [isInCheckpointZone_iff]
      omega
  unfold addNewBlock
  cases run : submitBlock E bl node with
  | error reason after =>
    rw [run] at aborted
    exact aborted
  | ok submission after =>
    rw [run] at aborted
    dsimp only
    cases commits : submission.committed with
    | false => exact aborted
    | true =>
      intro set
      rw [if_pos rfl] at set ⊢
      exact (submitBlock_committed_flag runs.built run commits).symm.trans set

/-! ## The last checkpoint -/

theorem offersMeet_of_all {P : Block → Prop} {blocks : List Block} (all : ∀ bl ∈ blocks, P bl)
    (node : Node) : OffersMeet E (fun _ bl => P bl) blocks node := by
  induction blocks generalizing node with
  | nil => trivial
  | cons bl rest ih =>
    exact ⟨all bl List.mem_cons_self, fun _ after _ _ =>
      ih (fun other member => all other (List.mem_cons_of_mem _ member)) after⟩

/-- The block at a height is the only one of its chain with its id. -/
theorem Built.height_unique {db : Db} (built : Built E db) {c : Nat} {bei other : BlockExtendedInfo}
    (found : db.blocks[c]? = some bei) (foundToo : db.blocks[height]? = some other)
    (same : getBlockHash E other.bl = getBlockHash E bei.bl) : height = c := by
  have first := (built.blocksIndex_get _ _).mpr ⟨bei, found, rfl⟩
  have second := (built.blocksIndex_get _ _).mpr ⟨other, foundToo, same⟩
  exact Option.some.inj (second.symm.trans first)

/-- Above the last checkpoint no submission offers its block to the alternative chains. -/
theorem goodSubmission_unstored (runs : RunsSettled E node) {point : Hash}
    (checkpoint : E.points.get (getTopCheckpointHeight E) = some point)
    (passed : getTopCheckpointHeight E < node.chain.db.blocks.length) (event : Event) :
    GoodSubmission E anyBlock (fun _ bl => getBlockHash E bl ≠ point) event node := by
  have found := List.getElem?_eq_getElem passed
  have named := runs.built.built.checkpoint checkpoint found
  cases event with
  | submitBlock bl =>
    refine ⟨trivial, fun absent _ => ⟨fun same => ?_, fun altChain proof after offer => ?_⟩⟩
    · have indexed := (runs.built.built.blocksIndex_get _ _).mpr ⟨_, found, named.trans same.symm⟩
      rw [Chain.haveBlock, (Container.has_iff _ _).mpr ⟨_, indexed⟩] at absent
      cases absent
    · obtain ⟨position, accepted, prepared, rfl, _, rfl⟩ := prepared_of_added offer
      obtain ⟨built, stored⟩ := runs.built.offer storeRule_height trivial trivial offer
      intro first disconnected lowered raised head disconnect connect
      have placed := altPlaced_of_prepare prepared
      have split := placed.completed_height (altAccepted_of_prepare prepared) head
      have above := switches_above runs passed prepared
      have low : first.2.height ≤ node.chain.db.blocks.length := split ▸ placed.low
      obtain ⟨_, ran, _, _⟩ := disconnectBlocks_runs (node.chain.db.blocks.length - first.2.height)
        built (by
          change node.chain.db.blocks.length - first.2.height < node.chain.db.blocks.length
          omega)
      obtain ⟨rfl, _⟩ := EStateM.Result.ok.inj (disconnect.symm.trans ran)
      apply offersMeet_of_all
      intro bl member
      obtain ⟨bei, dropped, rfl⟩ := List.mem_map.mp member
      obtain ⟨k, there⟩ := List.mem_iff_getElem?.mp dropped
      rw [List.getElem?_drop] at there
      intro same
      have unique := runs.built.built.height_unique found there (same.trans named.symm)
      change node.chain.db.blocks.length -
        (node.chain.db.blocks.length - first.2.height) + k = _ at unique
      omega
  | _ => trivial

theorem eraseBranch_unstored {altChain : AltChain} (run : eraseBranch E altChain node = .ok () node')
    {entry : Hash × AltBlockExtendedInfo} (member : entry ∈ altChain) :
    node'.chain.alternativeChains.get entry.1 = none := by
  induction altChain generalizing node with
  | nil => cases member
  | cons head rest ih =>
    obtain ⟨_, middle, erased, others⟩ := bind_ok.mp run
    rcases List.mem_cons.mp member with same | later
    · have gone : middle.chain.alternativeChains.get entry.1 = none := by
        rw [modify_ok.mp erased, same]
        exact Container.get_erase_self _ _
      have kept : Preserves (fun node : Node => node.chain.alternativeChains.get entry.1 = none)
          (eraseBranch E rest) := by
        refine preserves_forEach fun _ _ => preserves_modify fun node gone => ?_
        change (node.chain.alternativeChains.erase _).get entry.1 = _
        rw [Container.get_erase, gone, ite_self]
      exact kept.of_ok others gone
    · exact ih others later

/-- The block of a branch that comes to the height of a checkpoint is the one of the checkpoint. -/
theorem SwitchStages.mem_checkpoint {altChain : AltChain} {splitHeight c : Nat}
    {lowered raised stored switched : Node}
    (stages : SwitchStages E good J altChain splitHeight node lowered raised stored switched)
    {point : Hash} (checkpoint : E.points.get c = some point) (low : splitHeight ≤ c)
    (inside : c < raised.chain.db.blocks.length) :
    ∃ entry ∈ altChain, getBlockHash E entry.2.bl = point := by
  obtain ⟨added, blocks, same⟩ := stages.raisedBlocks
  obtain ⟨bei, found⟩ : ∃ bei, raised.chain.db.blocks[c]? = some bei :=
    ⟨_, List.getElem?_eq_getElem inside⟩
  have named := stages.raisedBuilt.built.checkpoint checkpoint found
  have length : lowered.chain.db.blocks.length = splitHeight := by
    rw [stages.loweredBlocks, List.length_take, Nat.min_eq_left stages.low]
  rw [blocks, List.getElem?_append_right (by omega)] at found
  have member := List.mem_map_of_mem (f := BlockExtendedInfo.bl) (List.mem_of_getElem? found)
  rw [same] at member
  obtain ⟨entry, inBranch, sameBl⟩ := List.mem_map.mp member
  exact ⟨entry, inBranch, by rw [sameBl, named]⟩

/-- The submission whose main chain passes the last checkpoint leaves nothing stored under it. -/
theorem submitBlock_unstored (named : HeightsNamed E) (runs : RunsSettled E node)
    (started : node.chain.db.blocks ≠ []) {submission : Submission}
    (run : submitBlock E bl node = .ok submission node')
    (commits : submission.committed = true) {point : Hash}
    (checkpoint : E.points.get (getTopCheckpointHeight E) = some point)
    (below : node.chain.db.blocks.length ≤ getTopCheckpointHeight E)
    (passes : getTopCheckpointHeight E < node'.chain.db.blocks.length) :
    node'.chain.alternativeChains.get point = none := by
  rcases submitBlock_committed run commits with
    ⟨absent, _, connected, linked, handled, finalized⟩ |
    ⟨altChain, offered, success, switched, linked, starts, switch, finalized⟩
  · rw [finalizeLinked_chain finalized] at passes ⊢
    have kept : connected.chain.alternativeChains = node.chain.alternativeChains :=
      ((keeps_handleBlockToMainChain (J := fun frame =>
        frame.alternativeChains = node.chain.alternativeChains) (fun _ _ _ same => same) _ _).of_ok
          handled ⟨runs.built.keeps.pool, runs.built.keeps.txs, rfl⟩).frame
    obtain ⟨pushed, bei, txs, rfl, connects⟩ := runs.built.push cacheFree_stored trivial
      (fun none => absurd none started) handled
    rw [connects.blocks, List.length_append, List.length_singleton] at passes
    have found : connected.chain.db.blocks[getTopCheckpointHeight E]? = some bei := by
      rw [connects.blocks, List.getElem?_append_right (by omega)]
      have here : getTopCheckpointHeight E - node.chain.db.blocks.length = 0 := by omega
      rw [here]
      rfl
    have isPoint := pushed.built.checkpoint checkpoint found
    rw [Chain.haveBlock, isPoint, Bool.or_eq_false_iff, Bool.or_eq_false_iff] at absent
    rw [kept]
    exact Container.get_eq_none_of_not_has _ _ (Bool.not_eq_true _ ▸ absent.1.2)
  · rw [finalizeLinked_chain finalized] at passes ⊢
    obtain ⟨_, position, accepted, lowered, raised, stored, prepared, chain, rfl, stages⟩ :=
      switchStages_of_starts runs.built starts switch
    have fitsBuilt : NodeBuilt E (fun _ => True) anyBlock (StoredFits E) node :=
      ⟨⟨runs.built.keeps.pool, runs.built.keeps.txs, runs.fits⟩, runs.built.built,
        runs.built.known⟩
    obtain ⟨_, _, proof, _, _, offer, _⟩ := starts
    obtain ⟨entries, _⟩ := (fitsBuilt.offer (storeRule_fits named fun _ => True) trivial trivial
      offer).2 _ _ rfl
    have free : BooksFree fun chain => chain.db = raised.chain.db := fun _ _ _ _ _ holds => holds
    have db := (keepsChain_eraseBranch free altChain).of_ok stages.erases
      ((keepsChain_storeDisconnected free _).of_ok stages.stores rfl)
    rw [db] at passes
    have low : position.connectionHeight ≤ getTopCheckpointHeight E :=
      Nat.le_trans stages.low below
    obtain ⟨entry, member, isPoint⟩ := stages.mem_checkpoint checkpoint low passes
    have gone := eraseBranch_unstored stages.erases member
    rwa [(entries entry member).1.named, isPoint] at gone

/-! ## Runs -/

theorem truncateBlockchain_flag (runs : RunsSettled E node) (started : node.chain.db.blocks ≠ [])
    (toHeight : Nat) :
    (truncateBlockchain E toHeight node).chain.isInCheckpointZone = node.chain.isInCheckpointZone ∧
      (truncateBlockchain E toHeight node).chain.db.blocks.length ≤
        node.chain.db.blocks.length := by
  have before : NodeBuilt E (fun _ => True) anyBlock
      (fun frame => frame.isInCheckpointZone = node.chain.isInCheckpointZone) node :=
    ⟨⟨runs.built.keeps.pool, runs.built.keeps.txs, rfl⟩, runs.built.built, runs.built.known⟩
  obtain ⟨success, after, run, built, _, shorter⟩ :=
    popBlocks_runs (node.chain.db.blocks.length - toHeight) before started
  rw [truncateBlockchain, run]
  exact ⟨built.keeps.frame, shorter⟩

/-- Only submissions set the flag. -/
theorem step_flag (runs : RunsSettled E node) (started : node.chain.db.blocks ≠ []) {event : Event}
    (unsubmitted : ∀ bl, event ≠ .submitBlock bl) :
    (step E event node).chain.isInCheckpointZone = node.chain.isInCheckpointZone ∧
      (step E event node).chain.db.blocks.length ≤ node.chain.db.blocks.length := by
  by_cases truncates : ∃ toHeight, event = .truncate toHeight
  · obtain ⟨toHeight, rfl⟩ := truncates
    exact truncateBlockchain_flag runs started toHeight
  · have whole : ∀ toHeight, event ≠ .truncate toHeight :=
      fun toHeight same => truncates ⟨toHeight, same⟩
    refine ⟨?_, by rw [step_db unsubmitted whole]⟩
    by_cases aged : event = .pruneAged
    · rw [aged]
      exact keepsChain_pruneAgedAltBlocks
        (I := fun chain => chain.isInCheckpointZone = node.chain.isInCheckpointZone)
        (fun _ _ _ _ _ holds => holds) rfl
    · have kept := @step_keepsChain E node (fun chain => True ∧
          chain.frame.isInCheckpointZone = node.chain.isInCheckpointZone)
        (fun n => preserves_getLastNBlocksTimestampsMedian (I := fun _ => True)
          (J := fun frame => frame.isInCheckpointZone = node.chain.isInCheckpointZone) n)
        (preserves_getTxFeeMedian (I := fun _ => True)
          (J := fun frame => frame.isInCheckpointZone = node.chain.isInCheckpointZone))
        (fun pos => preserves_getCachedNextDifficulty_of (fun _ _ holds => holds) pos)
        (fun _ _ holds => holds) event unsubmitted whole aged ⟨trivial, rfl⟩
      exact kept.2

theorem step_zoneSettled (named : HeightsNamed E) (runs : RunsSettled E node)
    (started : node.chain.db.blocks ≠ []) (event : Event) : ZoneSettled E (step E event node) := by
  constructor
  · by_cases submits : ∃ bl, event = .submitBlock bl
    · obtain ⟨bl, rfl⟩ := submits
      exact addNewBlock_flag runs bl
    · obtain ⟨flag, shorter⟩ := step_flag runs started fun bl same => submits ⟨bl, same⟩
      intro set
      have zone := runs.settled.flag (flag ▸ set)
      rw [isInCheckpointZone_iff] at zone ⊢
      omega
  · intro point checkpoint passes
    by_cases passed : getTopCheckpointHeight E < node.chain.db.blocks.length
    · have unstored := runs.settled.unstored point checkpoint passed
      have before : NodeBuilt E (fun _ => True) anyBlock
          (Stored fun id entry => AltFits E id entry ∧ id ≠ point) node := by
        refine ⟨⟨runs.built.keeps.pool, runs.built.keeps.txs, fun id entry found => ?_⟩,
          runs.built.built, runs.built.known⟩
        refine ⟨(runs.fits id entry found).1, fun same => ?_⟩
        change node.chain.alternativeChains.get id = some entry at found
        rw [same, unstored] at found
        cases found
      have after := (before.step (storeRule_fits named (· ≠ point)) started
        (by cases event <;> trivial)
        (goodSubmission_unstored runs checkpoint passed event)).1.keeps.frame
      cases found : (step E event node).chain.alternativeChains.get point with
      | none => rfl
      | some entry => exact absurd rfl (after point entry found).2
    · by_cases submits : ∃ bl, event = .submitBlock bl
      · obtain ⟨bl, rfl⟩ := submits
        change getTopCheckpointHeight E < (addNewBlock E bl node).2.chain.db.blocks.length at passes
        change (addNewBlock E bl node).2.chain.alternativeChains.get point = none
        unfold addNewBlock at passes ⊢
        cases run : submitBlock E bl node with
        | error reason after =>
          rw [run] at passes
          exact absurd passes passed
        | ok submission after =>
          rw [run] at passes
          dsimp only at passes ⊢
          cases commits : submission.committed with
          | false =>
            rw [commits] at passes
            exact absurd passes passed
          | true =>
            rw [commits] at passes
            exact submitBlock_unstored named runs started run commits checkpoint (by omega) passes
      · have shorter := (step_flag runs started fun bl same => submits ⟨bl, same⟩).2
        omega

theorem zoneSettled_start (initial : Node.Started E anyBlock node) : ZoneSettled E node := by
  have bare : NodeBuilt E (fun _ => True) anyBlock (Stored fun _ _ => False) node :=
    (NodeBuilt.start initial).1
  constructor
  · obtain ⟨genesis, coreTime, _, _, _, rfl⟩ := initial
    have fresh : NodeBuilt E (fun _ => True) anyBlock AboveGenesis (Node.fresh coreTime) :=
      .fresh coreTime
    have fits : NodeBuilt E (fun _ => True) anyBlock (StoredFits E) (Node.fresh coreTime) :=
      .fresh coreTime
    refine addNewBlock_flag ⟨fresh, fits.keeps.frame, ⟨fun set => ?_, fun _ _ passes => ?_⟩⟩ genesis
    · cases set
    · cases passes
  · intro point _ _
    cases found : node.chain.alternativeChains.get point with
    | none => rfl
    | some entry => exact absurd (bare.keeps.frame point entry found) not_false

/-- Every reachable state is settled. -/
theorem RunsSettled.reachable (named : HeightsNamed E)
    (reached : (nodeSystem E anyBlock).Reachable node) : RunsSettled E node := by
  have fits : ∀ {node}, (nodeSystem E anyBlock).Reachable node →
      NodeBuilt E (fun _ => True) anyBlock (StoredFits E) node ∧ node.chain.db.blocks ≠ [] :=
    fun reached => reached.invariant (fun _ initial => NodeBuilt.start initial)
      fun event node holds => holds.1.step (storeRule_fits named fun _ => True) holds.2
        (by cases event <;> trivial) (goodSubmission_trivial event node)
  refine ⟨(NodeBuilt.reachable reached).1, (fits reached).1.keeps.frame, ?_⟩
  induction reached with
  | start initial => exact zoneSettled_start initial
  | step before event _ ih =>
    exact step_zoneSettled named
      ⟨(NodeBuilt.reachable before).1, (fits before).1.keeps.frame, ih⟩ (fits before).2 event

end ZoneFlag
end Virie
