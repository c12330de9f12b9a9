import Virie.Storage.Transactions

/-! # Spent marks

Spending the inputs of a transaction records key images, spent heights and spent
flags; purging them takes the records back. Both are described container by
container, independently of the order of the inputs. -/

open Foundation

namespace Virie

/-! ## Spent flags -/

/-- A spent flag to write: an output and its new flag. -/
abbrev Mark := (Hash × Nat) × Bool

namespace TransactionChainEntry

/-- Write a flag if it belongs to the entry. -/
def mark (id : Hash) (entry : TransactionChainEntry) (m : Mark) : TransactionChainEntry :=
  if m.1.1 = id then { entry with spentFlags := entry.spentFlags.set m.1.2 m.2 } else entry

/-- Write flags in order. -/
def markAll (id : Hash) (marks : List Mark) (entry : TransactionChainEntry) :
    TransactionChainEntry :=
  marks.foldl (mark id) entry

variable (id : Hash) (entry : TransactionChainEntry) (marks : List Mark)

@[simp] theorem markAll_nil : entry.markAll id [] = entry := rfl

theorem markAll_append (more : List Mark) :
    entry.markAll id (marks ++ more) = (entry.markAll id marks).markAll id more :=
  List.foldl_append

/-- What no single mark changes, marks do not change. -/
theorem markAll_same {β : Type} (field : TransactionChainEntry → β)
    (same : ∀ entry m, field (mark id entry m) = field entry) :
    field (entry.markAll id marks) = field entry := by
  induction marks generalizing entry with
  | nil => rfl
  | cons m marks ih => exact (ih (entry.mark id m)).trans (same entry m)

@[simp] theorem markAll_tx : (entry.markAll id marks).tx = entry.tx :=
  markAll_same id entry marks TransactionChainEntry.tx fun entry m => by unfold mark; split <;> rfl

@[simp] theorem markAll_keeperBlockHeight :
    (entry.markAll id marks).keeperBlockHeight = entry.keeperBlockHeight :=
  markAll_same id entry marks TransactionChainEntry.keeperBlockHeight fun entry m => by
    unfold mark; split <;> rfl

@[simp] theorem markAll_globalOutputIndexes :
    (entry.markAll id marks).globalOutputIndexes = entry.globalOutputIndexes :=
  markAll_same id entry marks TransactionChainEntry.globalOutputIndexes fun entry m => by
    unfold mark; split <;> rfl

@[simp] theorem length_markAll :
    (entry.markAll id marks).spentFlags.length = entry.spentFlags.length :=
  markAll_same id entry marks (fun entry => entry.spentFlags.length) fun entry m => by
    unfold mark; split <;> simp

/-- A flag that is not written keeps its value. -/
theorem spentFlags_markAll_of_not_mem {n : Nat} (untouched : ∀ m ∈ marks, m.1 ≠ (id, n)) :
    (entry.markAll id marks).spentFlags[n]? = entry.spentFlags[n]? := by
  induction marks generalizing entry with
  | nil => rfl
  | cons m marks ih =>
    have later := ih (entry.mark id m) fun other member => untouched other (.tail _ member)
    refine later.trans ?_
    have apart := untouched m (.head _)
    unfold mark
    split
    · next same =>
      have distinct : m.1.2 ≠ n := fun equal => apart (Prod.ext same equal)
      exact List.getElem?_set_ne distinct
    · rfl

/-- A flag that every mark on it clears is cleared. -/
theorem spentFlags_markAll_of_cleared {n : Nat} (touched : ∃ m ∈ marks, m.1 = (id, n))
    (cleared : ∀ m ∈ marks, m.1 = (id, n) → m.2 = false) :
    (entry.markAll id marks).spentFlags[n]? = entry.spentFlags[n]?.map fun _ => false := by
  induction marks generalizing entry with
  | nil => simp at touched
  | cons m marks ih =>
    change ((entry.mark id m).markAll id marks).spentFlags[n]? = _
    have clearedLater : ∀ other ∈ marks, other.1 = (id, n) → other.2 = false :=
      fun other member => cleared other (.tail _ member)
    by_cases here : m.1 = (id, n)
    · have written : (entry.mark id m).spentFlags[n]? = entry.spentFlags[n]?.map fun _ => false := by
        have value := cleared m (.head _) here
        simp [mark, here, value, List.getElem?_set]
        split <;> simp_all
      by_cases later : ∃ other ∈ marks, other.1 = (id, n)
      · rw [ih _ later clearedLater, written, Option.map_map]
        rfl
      · rw [spentFlags_markAll_of_not_mem id _ marks fun other member same =>
          later ⟨other, member, same⟩, written]
    · obtain ⟨other, member, same⟩ := touched
      have later : ∃ other ∈ marks, other.1 = (id, n) := by
        cases member with
        | head => exact absurd same here
        | tail _ member => exact ⟨other, member, same⟩
      rw [ih _ later clearedLater]
      have kept := spentFlags_markAll_of_not_mem id entry [m] (n := n) (by simpa using here)
      exact congrArg (Option.map fun _ => false) kept

end TransactionChainEntry

/-- Writing one flag is a mark on every entry. -/
theorem setSpentFlag_ok {txId : Hash} {n : Nat} {spent : Bool} {before after : Db} {result : Unit} :
    setSpentFlag txId n spent before = .ok result after ↔
      ∃ entry, before.transactions.get txId = some entry ∧ n < entry.spentFlags.length ∧
        after = { before with
          transactions := before.transactions.set txId
            { entry with spentFlags := entry.spentFlags.set n spent } } := by
  simp only [setSpentFlag, Procedure.bind_ok, Procedure.get_ok, Procedure.demand_ok,
    Procedure.require_ok, Procedure.set_ok, decide_eq_true_eq]
  constructor
  · rintro ⟨_, _, ⟨rfl, rfl⟩, entry, _, ⟨found, rfl⟩, _, _, ⟨inside, rfl⟩, rfl⟩
    exact ⟨entry, found, inside, rfl⟩
  · rintro ⟨entry, found, inside, rfl⟩
    exact ⟨before, before, ⟨rfl, rfl⟩, entry, before, ⟨found, rfl⟩, (), before, ⟨inside, rfl⟩, rfl⟩

theorem setSpentFlag_get {txId : Hash} {n : Nat} {spent : Bool} {before after : Db} {result : Unit}
    (run : setSpentFlag txId n spent before = .ok result after) (id : Hash) :
    after.transactions.get id =
      (before.transactions.get id).map (·.markAll id [((txId, n), spent)]) := by
  obtain ⟨entry, found, _, rfl⟩ := setSpentFlag_ok.mp run
  rw [Container.get_set]
  split
  · next same =>
    subst same
    simp [found, TransactionChainEntry.markAll, TransactionChainEntry.mark]
  · next apart =>
    have unmarked : ∀ other : TransactionChainEntry,
        other.markAll id [((txId, n), spent)] = other := by
      intro other
      simp [TransactionChainEntry.markAll, TransactionChainEntry.mark, apart]
    simp [unmarked]

/-! ## The outputs that inputs mark -/

namespace Db

/-- The output a direct reference or a multisig input marks. -/
def outputOf (db : Db) : Txin → Option (Hash × Nat)
  | .gen _ => none
  | .toKey input =>
    match input.keyOffsets with
    | [.byId ref] => some (ref.txId, ref.n)
    | [.index i] => (db.outputs.getSubitem input.amount i).map fun out => (out.txId, out.outNo)
    | _ => none
  | .multisig input =>
    (db.multisigOuts.get input.multisigOutId).map fun ms => (ms.txId, ms.outNo)

/-- The mark of an input: a key output gets the given flag, a multisig output is spent from a
nonzero height on. -/
def markOf (db : Db) (spent : Bool) (height : Nat) (input : Txin) : Option Mark :=
  (db.outputOf input).map fun output =>
    (output, if input.spentMultisigId.isSome then height != 0 else spent)

def marksOf (db : Db) (spent : Bool) (height : Nat) (vin : List Txin) : List Mark :=
  vin.filterMap (db.markOf spent height)

end Db

/-- What marking inputs does: multisig entries get the height, flags get the marks, and only
key images may change besides. -/
structure Marked (spent : Bool) (height : Nat) (vin : List Txin) (before after : Db) : Prop where
  frame : after = { before with
    spentKeys := after.spentKeys
    multisigOuts := after.multisigOuts
    transactions := after.transactions }
  multisigOuts : ∀ id, after.multisigOuts.get id =
    if id ∈ vin.filterMap Txin.spentMultisigId then
      (before.multisigOuts.get id).map fun ms => { ms with spentHeight := height }
    else before.multisigOuts.get id
  transactions : ∀ id, after.transactions.get id =
    (before.transactions.get id).map (·.markAll id (before.marksOf spent height vin))

namespace Marked

variable {spent : Bool} {height : Nat} {vin more : List Txin} {before middle after : Db}

theorem nil : Marked spent height [] before before where
  frame := rfl
  multisigOuts := by simp
  transactions := by
    intro id
    cases before.transactions.get id <;> rfl

theorem outputs_eq (marked : Marked spent height vin before after) :
    after.outputs = before.outputs := by rw [marked.frame]

theorem outputOf_eq (marked : Marked spent height vin before after) (input : Txin) :
    after.outputOf input = before.outputOf input := by
  cases input with
  | gen height => rfl
  | toKey input =>
    simp only [Db.outputOf, marked.outputs_eq]
  | multisig input =>
    simp only [Db.outputOf, marked.multisigOuts]
    split
    · rw [Option.map_map]
      rfl
    · rfl

theorem marksOf_eq (marked : Marked spent height vin before after) (flag : Bool) (level : Nat)
    (inputs : List Txin) : after.marksOf flag level inputs = before.marksOf flag level inputs := by
  unfold Db.marksOf
  congr 1
  funext input
  rw [Db.markOf, marked.outputOf_eq, Db.markOf]

theorem append (first : Marked spent height vin before middle)
    (second : Marked spent height more middle after) :
    Marked spent height (vin ++ more) before after where
  frame := by
    rw [second.frame, first.frame]
  multisigOuts := by
    intro id
    rw [second.multisigOuts, first.multisigOuts, List.filterMap_append]
    by_cases early : id ∈ vin.filterMap Txin.spentMultisigId
    · by_cases late : id ∈ more.filterMap Txin.spentMultisigId
      · rw [if_pos late, if_pos early, if_pos (List.mem_append_left _ early), Option.map_map]
        rfl
      · rw [if_neg late, if_pos early, if_pos (List.mem_append_left _ early)]
    · by_cases late : id ∈ more.filterMap Txin.spentMultisigId
      · rw [if_pos late, if_neg early, if_pos (List.mem_append_right _ late)]
      · have neither : id ∉ vin.filterMap Txin.spentMultisigId ++
            more.filterMap Txin.spentMultisigId := by
          rw [List.mem_append]
          exact fun either => either.elim early late
        rw [if_neg late, if_neg early, if_neg neither]
  transactions := by
    intro id
    have marks : before.marksOf spent height (vin ++ more) =
        before.marksOf spent height vin ++ middle.marksOf spent height more := by
      rw [first.marksOf_eq]
      exact List.filterMap_append
    rw [second.transactions, first.transactions, Option.map_map, marks]
    congr 1
    funext entry
    exact (TransactionChainEntry.markAll_append id entry _ _).symm

end Marked

/-! ## Outputs that are stored -/

/-- An input marks an output when it refers to exactly one. -/
def Txin.marksOutput : Txin → Prop
  | .gen _ => False
  | .toKey input => input.keyOffsets.length = 1
  | .multisig _ => True

/-- The output of an input is stored with a flag. -/
def Db.HasOutput (db : Db) (input : Txin) : Prop :=
  ∃ output entry, db.outputOf input = some output ∧ db.transactions.get output.1 = some entry ∧
    output.2 < entry.spentFlags.length

theorem Marked.hasOutput {spent : Bool} {height : Nat} {vin : List Txin} {before after : Db}
    (marked : Marked spent height vin before after) {input : Txin}
    (stored : before.HasOutput input) : after.HasOutput input := by
  obtain ⟨output, entry, named, found, inside⟩ := stored
  refine ⟨output, entry.markAll output.1 (before.marksOf spent height vin), ?_, ?_, ?_⟩
  · rw [marked.outputOf_eq, named]
  · rw [marked.transactions, found, Option.map_some]
  · rwa [TransactionChainEntry.length_markAll]

theorem Marked.hasOutput_before {spent : Bool} {height : Nat} {vin : List Txin} {before after : Db}
    (marked : Marked spent height vin before after) {input : Txin}
    (stored : after.HasOutput input) : before.HasOutput input := by
  obtain ⟨output, entry, named, found, inside⟩ := stored
  rw [marked.transactions, Option.map_eq_some_iff] at found
  obtain ⟨original, present, rfl⟩ := found
  refine ⟨output, original, ?_, present, ?_⟩
  · rw [← marked.outputOf_eq, named]
  · rwa [TransactionChainEntry.length_markAll] at inside

theorem Db.outputOf_of_not_marksOutput {db : Db} {input : Txin} (unmarked : ¬ input.marksOutput) :
    db.outputOf input = none := by
  cases input with
  | gen number => rfl
  | toKey input =>
    rcases offsets : input.keyOffsets with _ | ⟨direct, _ | ⟨second, rest⟩⟩
    · simp [Db.outputOf, offsets]
    · exact absurd (by simp [Txin.marksOutput, offsets]) unmarked
    · simp [Db.outputOf, offsets]
  | multisig input => exact absurd trivial unmarked

/-! ## Marking one input -/

section Inputs

variable {spent : Bool} {height : Nat} {before after : Db} {result : Unit}

/-- Key images are outside the marks. -/
theorem Marked.keys (spentKeys : Container KeyImage Nat) :
    Marked spent height [] before { before with spentKeys } where
  frame := rfl
  multisigOuts := by simp
  transactions := by
    intro id
    cases before.transactions.get id <;> rfl

/-- A single flag is the mark of an input that names its output. -/
theorem Marked.of_setSpentFlag {input : Txin} {output : Hash × Nat} {flag : Bool}
    (key : input.spentMultisigId = none) (named : before.outputOf input = some output)
    (run : setSpentFlag output.1 output.2 flag before = .ok result after) :
    Marked flag height [input] before after where
  frame := by
    obtain ⟨_, _, _, rfl⟩ := setSpentFlag_ok.mp run
    rfl
  multisigOuts := by
    obtain ⟨_, _, _, rfl⟩ := setSpentFlag_ok.mp run
    simp [key]
  transactions := by
    intro id
    rw [setSpentFlag_get run]
    simp [Db.marksOf, Db.markOf, named, key]

/-- An input that names no output marks nothing. -/
theorem Marked.of_nameless {input : Txin} (key : input.spentMultisigId = none)
    (nameless : before.outputOf input = none) : Marked spent height [input] before before where
  frame := rfl
  multisigOuts := by simp [key]
  transactions := by
    intro id
    cases before.transactions.get id <;> simp [Db.marksOf, Db.markOf, nameless]

/-- A key input marks the output of its direct reference, if it has just one. -/
theorem Marked.of_direct (height : Nat) {input : TxinToKey}
    (run : updateSpentTxFlagsForDirect input spent before = .ok result after) :
    Marked spent height [.toKey input] before after ∧ after.spentKeys = before.spentKeys ∧
      ((Txin.toKey input).marksOutput → before.HasOutput (.toKey input)) := by
  unfold updateSpentTxFlagsForDirect at run
  rcases offsets : input.keyOffsets with _ | ⟨direct, _ | ⟨second, rest⟩⟩ <;>
    simp only [offsets] at run
  · obtain ⟨-, rfl⟩ := Procedure.pure_ok.mp run
    refine ⟨.of_nameless rfl (by simp [Db.outputOf, offsets]), rfl, ?_⟩
    simp [Txin.marksOutput, offsets]
  · cases direct with
    | byId ref =>
      have named : before.outputOf (.toKey input) = some (ref.txId, ref.n) := by
        simp [Db.outputOf, offsets]
      refine ⟨.of_setSpentFlag rfl named run, ?_⟩
      obtain ⟨entry, found, inside, rfl⟩ := setSpentFlag_ok.mp run
      exact ⟨rfl, fun _ => ⟨_, entry, named, found, inside⟩⟩
    | index i =>
      simp only [updateSpentTxFlagsForInput, Procedure.bind_ok, Procedure.get_ok,
        Procedure.demand_ok] at run
      obtain ⟨_, _, ⟨rfl, rfl⟩, out, _, ⟨found, rfl⟩, run⟩ := run
      have named : before.outputOf (.toKey input) = some (out.txId, out.outNo) := by
        simp [Db.outputOf, offsets, found]
      refine ⟨.of_setSpentFlag rfl named run, ?_⟩
      obtain ⟨entry, present, inside, rfl⟩ := setSpentFlag_ok.mp run
      exact ⟨rfl, fun _ => ⟨_, entry, named, present, inside⟩⟩
  · obtain ⟨-, rfl⟩ := Procedure.pure_ok.mp run
    refine ⟨.of_nameless rfl (by simp [Db.outputOf, offsets]), rfl, ?_⟩
    simp [Txin.marksOutput, offsets]

theorem Marked.of_multisig (spent : Bool) {input : TxinMultisig}
    (run : updateSpentTxFlagsForMultisig input.multisigOutId height before = .ok result after) :
    Marked spent height [.multisig input] before after ∧ after.spentKeys = before.spentKeys ∧
      before.HasOutput (.multisig input) := by
  simp only [updateSpentTxFlagsForMultisig, Procedure.bind_ok, Procedure.get_ok,
    Procedure.demand_ok, Procedure.set_ok] at run
  obtain ⟨_, _, ⟨rfl, rfl⟩, ms, _, ⟨found, rfl⟩, _, _, rfl, run⟩ := run
  have flags := setSpentFlag_get run
  obtain ⟨entry, stored, inside, rfl⟩ := setSpentFlag_ok.mp run
  refine ⟨⟨rfl, ?_, ?_⟩, rfl, ⟨_, entry, by rw [Db.outputOf, found]; rfl, stored, inside⟩⟩
  · intro id
    simp only [List.filterMap_cons, Txin.spentMultisigId, List.filterMap_nil, List.mem_singleton,
      Container.get_set, eq_comm (a := id)]
    split
    · next same => rw [← same, found, Option.map_some]
    · rfl
  · intro id
    rw [flags]
    simp [Db.marksOf, Db.markOf, Db.outputOf, found, Txin.spentMultisigId]

end Inputs

/-! ## Spending the inputs of a transaction -/

/-- What spending inputs does: fresh, distinct key images are recorded at a height, and the
inputs are marked. -/
structure Spends (height : Nat) (vin : List Txin) (before after : Db) : Prop
    extends Marked true height vin before after where
  fresh : ∀ image ∈ vin.filterMap Txin.spentKeyImage, before.spentKeys.get image = none
  distinct : (vin.filterMap Txin.spentKeyImage).Nodup
  spentKeys : ∀ image, after.spentKeys.get image =
    if image ∈ vin.filterMap Txin.spentKeyImage then some height else before.spentKeys.get image
  stored : ∀ input ∈ vin, input.marksOutput → before.HasOutput input

/-- What purging inputs does: key images are forgotten and the marks are cleared. -/
structure Unspends (vin : List Txin) (before after : Db) : Prop
    extends Marked false 0 vin before after where
  spentKeys : ∀ image, after.spentKeys.get image =
    if image ∈ vin.filterMap Txin.spentKeyImage then none else before.spentKeys.get image

theorem spends_of_addTransactionInput {height : Nat} {input : Txin} {before after : Db}
    {result : Unit} (run : addTransactionInput height input before = .ok result after) :
    Spends height [input] before after := by
  cases input with
  | gen number =>
    obtain ⟨-, rfl⟩ := Procedure.pure_ok.mp run
    refine ⟨.of_nameless rfl rfl, List.forall_mem_nil _, List.nodup_nil, fun _ => rfl, ?_⟩
    simp [Txin.marksOutput]
  | toKey input =>
    simp only [addTransactionInput, Procedure.bind_ok, Procedure.get_ok, Procedure.require_ok,
      Procedure.set_ok] at run
    obtain ⟨_, _, ⟨rfl, rfl⟩, _, _, ⟨unspent, rfl⟩, _, _, rfl, run⟩ := run
    have absent : before.spentKeys.get input.kImage = none :=
      Container.get_eq_none_of_not_has _ _ (by simpa using unspent)
    obtain ⟨marked, keys, stored⟩ := Marked.of_direct height run
    refine ⟨(Marked.keys _).append marked, ?_, ?_, ?_, ?_⟩
    · simpa [Txin.spentKeyImage] using absent
    · simp [Txin.spentKeyImage]
    · intro image
      rw [keys, Container.get_set]
      simp [Txin.spentKeyImage, eq_comm]
    · intro other member
      rw [List.mem_singleton.mp member]
      exact stored
  | multisig input =>
    obtain ⟨marked, keys, stored⟩ := Marked.of_multisig true run
    refine ⟨marked, List.forall_mem_nil _, List.nodup_nil, fun _ => by rw [keys]; rfl, ?_⟩
    intro other member _
    rw [List.mem_singleton.mp member]
    exact stored

theorem Spends.nil {height : Nat} {before : Db} : Spends height [] before before :=
  ⟨.nil, by simp, by simp, by simp, by simp⟩

theorem Spends.cons {height : Nat} {input : Txin} {vin : List Txin} {before middle after : Db}
    (first : Spends height [input] before middle) (rest : Spends height vin middle after) :
    Spends height (input :: vin) before after := by
  refine ⟨first.toMarked.append rest.toMarked, ?_, ?_, ?_, ?_⟩
  · intro image member
    change image ∈ (([input] ++ vin).filterMap Txin.spentKeyImage) at member
    rw [List.filterMap_append, List.mem_append] at member
    by_cases early : image ∈ [input].filterMap Txin.spentKeyImage
    · exact first.fresh image early
    · have late := rest.fresh image (member.resolve_left early)
      rwa [first.spentKeys, if_neg early] at late
  · change (([input] ++ vin).filterMap Txin.spentKeyImage).Nodup
    rw [List.filterMap_append, List.nodup_append]
    refine ⟨first.distinct, rest.distinct, ?_⟩
    rintro image early _ late rfl
    have recorded := rest.fresh image late
    rw [first.spentKeys, if_pos early] at recorded
    cases recorded
  · intro image
    change _ = if image ∈ (([input] ++ vin).filterMap Txin.spentKeyImage) then _ else _
    rw [rest.spentKeys, first.spentKeys, List.filterMap_append]
    simp only [List.mem_append]
    by_cases early : image ∈ [input].filterMap Txin.spentKeyImage <;>
      by_cases late : image ∈ vin.filterMap Txin.spentKeyImage <;> simp [early, late]
  · intro other member marks
    rcases List.mem_cons.mp member with rfl | later
    · exact first.stored other (.head _) marks
    · exact first.toMarked.hasOutput_before (rest.stored other later marks)

/-- Spending inputs in turn is spending all of them. -/
theorem spends_of_addTransactionInputs {height : Nat} {vin : List Txin} {before after : Db}
    {result : Unit} (run : addTransactionInputs height vin before = .ok result after) :
    Spends height vin before after := by
  induction vin generalizing before with
  | nil =>
    obtain ⟨-, rfl⟩ := Procedure.pure_ok.mp run
    exact .nil
  | cons input vin ih =>
    obtain ⟨_, middle, first, rest⟩ := Procedure.bind_ok.mp run
    exact (spends_of_addTransactionInput first).cons (ih rest)

/-! ## Purging the inputs of a transaction -/

theorem unspends_of_purgeTransactionInput {strictCheck : Bool} {input : Txin} {before after : Db}
    {result : Unit} (run : purgeTransactionInput strictCheck input before = .ok result after) :
    Unspends [input] before after := by
  cases input with
  | gen number =>
    obtain ⟨-, rfl⟩ := Procedure.pure_ok.mp run
    exact ⟨.of_nameless rfl rfl, fun _ => rfl⟩
  | toKey input =>
    simp only [purgeTransactionInput, Procedure.bind_ok, Procedure.get_ok, Procedure.require_ok,
      Procedure.set_ok] at run
    obtain ⟨_, _, ⟨rfl, rfl⟩, _, _, ⟨_, rfl⟩, _, _, rfl, run⟩ := run
    obtain ⟨marked, keys, _⟩ := Marked.of_direct 0 run
    refine ⟨(Marked.keys _).append marked, ?_⟩
    intro image
    rw [keys, Container.get_erase]
    simp [Txin.spentKeyImage, eq_comm]
  | multisig input =>
    obtain ⟨marked, keys, _⟩ := Marked.of_multisig false run
    exact ⟨marked, fun _ => by rw [keys]; rfl⟩

theorem Unspends.cons {input : Txin} {vin : List Txin} {before middle after : Db}
    (first : Unspends [input] before middle) (rest : Unspends vin middle after) :
    Unspends (input :: vin) before after := by
  refine ⟨first.toMarked.append rest.toMarked, ?_⟩
  intro image
  change _ = if image ∈ (([input] ++ vin).filterMap Txin.spentKeyImage) then _ else _
  rw [rest.spentKeys, first.spentKeys, List.filterMap_append]
  simp only [List.mem_append]
  by_cases early : image ∈ [input].filterMap Txin.spentKeyImage <;>
    by_cases late : image ∈ vin.filterMap Txin.spentKeyImage <;> simp [early, late]

/-- An input can be purged: its key image is recorded and the output it marks is stored. -/
structure Db.Purgeable (db : Db) (input : Txin) : Prop where
  spent : ∀ image, input.spentKeyImage = some image → db.spentKeys.has image = true
  stored : input.marksOutput → db.HasOutput input

theorem setSpentFlag_runs {db : Db} {txId : Hash} {n : Nat} {entry : TransactionChainEntry}
    (flag : Bool) (found : db.transactions.get txId = some entry)
    (inside : n < entry.spentFlags.length) :
    ∃ after, setSpentFlag txId n flag db = .ok () after :=
  ⟨_, setSpentFlag_ok.mpr ⟨entry, found, inside, rfl⟩⟩

theorem updateSpentTxFlagsForDirect_runs {db : Db} {input : TxinToKey} (flag : Bool)
    (stored : (Txin.toKey input).marksOutput → db.HasOutput (.toKey input)) :
    ∃ after, updateSpentTxFlagsForDirect input flag db = .ok () after := by
  unfold updateSpentTxFlagsForDirect
  rcases offsets : input.keyOffsets with _ | ⟨direct, _ | ⟨second, rest⟩⟩
  · exact ⟨db, rfl⟩
  · obtain ⟨output, entry, named, found, inside⟩ := stored (by simp [Txin.marksOutput, offsets])
    cases direct with
    | byId ref =>
      simp only [Db.outputOf, offsets, Option.some.injEq] at named
      subst named
      exact setSpentFlag_runs flag found inside
    | index i =>
      simp only [Db.outputOf, offsets, Option.map_eq_some_iff] at named
      obtain ⟨out, indexed, rfl⟩ := named
      obtain ⟨after, run⟩ := setSpentFlag_runs flag found inside
      refine ⟨after, ?_⟩
      simp only [updateSpentTxFlagsForInput, Procedure.bind_ok, Procedure.get_ok,
        Procedure.demand_ok]
      exact ⟨db, db, ⟨rfl, rfl⟩, out, db, ⟨indexed, rfl⟩, run⟩
  · exact ⟨db, rfl⟩

theorem purgeTransactionInput_runs {db : Db} {input : Txin} (purgeable : db.Purgeable input) :
    ∃ after, purgeTransactionInput true input db = .ok () after := by
  cases input with
  | gen number => exact ⟨db, rfl⟩
  | toKey input =>
    have spent := purgeable.spent input.kImage rfl
    let unspent : Db := { db with spentKeys := db.spentKeys.erase input.kImage }
    have stored : (Txin.toKey input).marksOutput → unspent.HasOutput (.toKey input) :=
      purgeable.stored
    obtain ⟨after, run⟩ := updateSpentTxFlagsForDirect_runs false stored
    refine ⟨after, ?_⟩
    simp only [purgeTransactionInput, Procedure.bind_ok, Procedure.get_ok, Procedure.require_ok,
      Procedure.set_ok]
    exact ⟨db, db, ⟨rfl, rfl⟩, (), db, ⟨by simp [spent], rfl⟩, ⟨⟩, _, rfl, run⟩
  | multisig input =>
    obtain ⟨output, entry, named, found, inside⟩ := purgeable.stored trivial
    simp only [Db.outputOf, Option.map_eq_some_iff] at named
    obtain ⟨ms, present, rfl⟩ := named
    let unspent : Db := { db with
      multisigOuts := db.multisigOuts.set input.multisigOutId { ms with spentHeight := 0 } }
    have stored : unspent.transactions.get ms.txId = some entry := found
    obtain ⟨after, run⟩ := setSpentFlag_runs false stored inside
    refine ⟨after, ?_⟩
    simp only [purgeTransactionInput, updateSpentTxFlagsForMultisig, Procedure.bind_ok,
      Procedure.get_ok, Procedure.demand_ok, Procedure.set_ok]
    exact ⟨db, db, ⟨rfl, rfl⟩, ms, db, ⟨present, rfl⟩, ⟨⟩, _, rfl, run⟩

/-- Purging recorded inputs with distinct key images succeeds. -/
theorem purgeTransactionKeyimages_runs {vin : List Txin} {before : Db}
    (distinct : (vin.filterMap Txin.spentKeyImage).Nodup)
    (purgeable : ∀ input ∈ vin, before.Purgeable input) :
    ∃ after, purgeTransactionKeyimagesFromBlockchain true vin before = .ok () after ∧
      Unspends vin before after := by
  induction vin generalizing before with
  | nil => exact ⟨before, rfl, ⟨.nil, fun _ => by simp⟩⟩
  | cons input vin ih =>
    obtain ⟨middle, first⟩ := purgeTransactionInput_runs (purgeable input (.head _))
    have effect := unspends_of_purgeTransactionInput first
    have apart : ∀ image ∈ vin.filterMap Txin.spentKeyImage, input.spentKeyImage ≠ some image := by
      intro image member same
      simp only [List.filterMap_cons, same, List.nodup_cons] at distinct
      exact distinct.1 member
    have distinctRest : (vin.filterMap Txin.spentKeyImage).Nodup := by
      refine distinct.sublist ?_
      rw [List.filterMap_cons]
      split
      · exact .refl _
      · exact List.sublist_cons_self _ _
    have remaining : ∀ other ∈ vin, middle.Purgeable other := by
      intro other member
      refine ⟨fun image spends => ?_, fun marks =>
        effect.hasOutput ((purgeable other (.tail _ member)).stored marks)⟩
      have recorded := (purgeable other (.tail _ member)).spent image spends
      have kept : middle.spentKeys.get image = before.spentKeys.get image := by
        have fresh := apart image (List.mem_filterMap.mpr ⟨other, member, spends⟩)
        rw [effect.spentKeys, if_neg]
        rw [List.mem_filterMap]
        rintro ⟨only, single, spent⟩
        rw [List.mem_singleton.mp single] at spent
        exact fresh spent
      rwa [Container.has, kept]
    obtain ⟨after, rest, restEffect⟩ := ih distinctRest remaining
    exact ⟨after, Procedure.bind_ok.mpr ⟨(), middle, first, rest⟩, effect.cons restEffect⟩

end Virie
