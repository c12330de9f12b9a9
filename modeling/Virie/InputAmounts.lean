import Virie.Chainstate.Payments
import Virie.Chainstate.Running

/-! # The amounts of key inputs

A key input declares an amount and refers to outputs, by their places in the index of that
amount or by the ids of their transactions. The index of an amount lists outputs of that
amount only. A reference by id does without the index, and nothing compares the output it
names with the declared amount. An accepted input therefore refers to outputs of the amount it
declares exactly when its references by id do. -/

open Foundation

namespace Virie

/-- A reference of an input of an amount is to an output of a stored transaction. -/
def Db.RefersTo (db : Db) (amount : Nat) (o : TxoutRef) (out : TxOut) : Prop :=
  ∃ txId n tx, db.resolveOutput amount o = .ok (txId, n) ∧ db.storedTx txId = some tx ∧
    tx.vout[n]? = some out

/-- The references of an input can be read, and all of them are to stored outputs. -/
def Db.ReadsOutputs (db : Db) (txin : TxinToKey) : Prop :=
  ∃ absolute, relativeOutputOffsetsToAbsolute txin.keyOffsets = .ok absolute ∧
    ∀ o ∈ absolute, ∃ out, db.RefersTo txin.amount o out

/-- All references of an input are to outputs of the amount that the input declares. -/
def Db.CoversAmount (db : Db) (txin : TxinToKey) : Prop :=
  ∃ absolute, relativeOutputOffsetsToAbsolute txin.keyOffsets = .ok absolute ∧
    ∀ o ∈ absolute, ∃ out, db.RefersTo txin.amount o out ∧ out.amount = txin.amount

/-- The references by id are to outputs of the amount that the input declares. -/
def Db.NamesAmount (db : Db) (txin : TxinToKey) : Prop :=
  ∀ ref, .byId ref ∈ txin.keyOffsets → ∀ tx out, db.storedTx ref.txId = some tx →
    tx.vout[ref.n]? = some out → out.amount = txin.amount

/-- The index of an amount lists outputs of that amount only. -/
def Db.Indexed (db : Db) : Prop :=
  ∀ amount i entry, db.outputs.getSubitem amount i = some entry →
    ∃ tx out, db.storedTx entry.txId = some tx ∧ tx.vout[entry.outNo]? = some out ∧
      out.amount = amount

section InputAmounts

variable {E : Env} {db before after : Db} {node : Node} {tx : Transaction} {txId : Hash}
  {height : Nat} {txin : TxinToKey} {amount : Nat} {o : TxoutRef} {out : TxOut}

/-! ## References -/

/-- Making offsets absolute leaves the references by id as they are. -/
theorem byId_mem_accumulateOffsets {previous : TxoutRef} {offsets absolute : List TxoutRef}
    (made : accumulateOffsets previous offsets = .ok absolute) (ref : RefById) :
    .byId ref ∈ absolute ↔ .byId ref ∈ offsets := by
  induction offsets generalizing previous absolute with
  | nil =>
    cases made
    exact Iff.rfl
  | cons offset rest ih =>
    cases offset with
    | byId other =>
      cases made
      exact Iff.rfl
    | index i =>
      cases previous with
      | byId other => cases made
      | index p =>
        obtain ⟨tail, others, same⟩ := Outcome.bind_ok.mp made
        cases same
        simp only [List.mem_cons, reduceCtorEq, false_or]
        exact ih others

theorem byId_mem_absolute {offsets absolute : List TxoutRef}
    (made : relativeOutputOffsetsToAbsolute offsets = .ok absolute) (ref : RefById) :
    .byId ref ∈ absolute ↔ .byId ref ∈ offsets := by
  cases offsets with
  | nil =>
    cases made
    exact Iff.rfl
  | cons first rest =>
    obtain ⟨tail, others, same⟩ := Outcome.bind_ok.mp made
    cases same
    rw [List.mem_cons, List.mem_cons, byId_mem_accumulateOffsets others ref]

theorem refersTo_byId {ref : RefById} : db.RefersTo amount (.byId ref) out ↔
    ∃ tx, db.storedTx ref.txId = some tx ∧ tx.vout[ref.n]? = some out := by
  constructor
  · rintro ⟨_, _, tx, resolved, stored, output⟩
    cases resolved
    exact ⟨tx, stored, output⟩
  · rintro ⟨tx, stored, output⟩
    exact ⟨ref.txId, ref.n, tx, rfl, stored, output⟩

theorem refersTo_index {i : Nat} : db.RefersTo amount (.index i) out ↔
    ∃ entry tx, db.outputs.getSubitem amount i = some entry ∧
      db.storedTx entry.txId = some tx ∧ tx.vout[entry.outNo]? = some out := by
  constructor
  · rintro ⟨txId, n, tx, resolved, stored, output⟩
    obtain ⟨entry, found, same⟩ := Outcome.bind_ok.mp resolved
    cases same
    exact ⟨entry, tx, Outcome.demand_ok.mp found, stored, output⟩
  · rintro ⟨entry, tx, found, stored, output⟩
    refine ⟨entry.txId, entry.outNo, tx, ?_, stored, output⟩
    exact Outcome.bind_ok.mpr ⟨entry, Outcome.demand_ok.mpr found, rfl⟩

theorem readsOutputs_of_resolves (resolved : db.Resolves (.toKey txin)) :
    db.ReadsOutputs txin := by
  obtain ⟨absolute, offsets, members⟩ := resolved
  refine ⟨absolute, offsets, fun o member => ?_⟩
  obtain ⟨txId, n, entry, amount, key, resolves, found, output⟩ := members o member
  refine ⟨_, txId, n, entry.tx, resolves, ?_, output⟩
  rw [Db.storedTx, found]
  rfl

/-- Over an index that lists outputs of their amounts, an input that reads outputs covers its
amount exactly when its references by id do. -/
theorem Db.ReadsOutputs.covers_iff_names (reads : db.ReadsOutputs txin) (indexed : db.Indexed) :
    db.CoversAmount txin ↔ db.NamesAmount txin := by
  constructor
  · rintro ⟨absolute, offsets, members⟩ ref member tx out stored output
    have inside := (byId_mem_absolute offsets ref).mpr member
    obtain ⟨other, refers, amount⟩ := members _ inside
    obtain ⟨same, found, outputToo⟩ := refersTo_byId.mp refers
    rw [stored] at found
    cases found
    rw [output] at outputToo
    cases outputToo
    exact amount
  · intro names
    obtain ⟨absolute, offsets, members⟩ := reads
    refine ⟨absolute, offsets, fun o member => ?_⟩
    obtain ⟨out, refers⟩ := members o member
    refine ⟨out, refers, ?_⟩
    cases o with
    | byId ref =>
      obtain ⟨tx, stored, output⟩ := refersTo_byId.mp refers
      exact names ref ((byId_mem_absolute offsets ref).mp member) tx out stored output
    | index i =>
      obtain ⟨entry, tx, found, stored, output⟩ := refersTo_index.mp refers
      obtain ⟨same, listed, storedToo, outputToo, amount⟩ := indexed _ i entry found
      rw [stored] at storedToo
      cases storedToo
      rw [output] at outputToo
      cases outputToo
      exact amount

/-! ## Connecting transactions -/

/-- References keep their outputs when a transaction is connected. -/
theorem ConnectsTx.refersTo (connects : ConnectsTx E height tx txId before after)
    (refers : before.RefersTo amount o out) : after.RefersTo amount o out := by
  cases o with
  | byId ref =>
    obtain ⟨other, stored, output⟩ := refersTo_byId.mp refers
    exact refersTo_byId.mpr ⟨other, connects.keepsStoredTx stored, output⟩
  | index i =>
    obtain ⟨entry, other, found, stored, output⟩ := refersTo_index.mp refers
    refine refersTo_index.mpr ⟨entry, other, ?_, connects.keepsStoredTx stored, output⟩
    rw [ArrayContainer.getSubitem] at found ⊢
    rw [connects.effect.outputs, List.getElem?_append_left, found]
    exact (List.getElem?_eq_some_iff.mp found).1

theorem mem_keyOutputsFrom {i : Nat} {outs : List TxOut} {entry : GlobalOutputEntry}
    (member : entry ∈ keyOutputsFrom txId amount i outs) :
    entry.txId = txId ∧ ∃ j out, entry.outNo = i + j ∧ outs[j]? = some out ∧
      out.amount = amount := by
  induction outs generalizing i with
  | nil => cases member
  | cons out outs ih =>
    have later : entry ∈ keyOutputsFrom txId amount (i + 1) outs →
        entry.txId = txId ∧ ∃ j other, entry.outNo = i + j ∧ (out :: outs)[j]? = some other ∧
          other.amount = amount := by
      intro member
      obtain ⟨same, j, other, place, found, amount⟩ := ih member
      exact ⟨same, j + 1, other, by omega, found, amount⟩
    rw [keyOutputsFrom] at member
    split at member
    · split at member
      · next listed =>
        rcases List.mem_cons.mp member with rfl | member
        · exact ⟨rfl, 0, out, rfl, rfl, listed⟩
        · exact later member
      · exact later member
    · exact later member

/-- Connecting a transaction lists its outputs under their amounts. -/
theorem ConnectsTx.indexed (connects : ConnectsTx E height tx txId before after)
    (indexed : before.Indexed) : after.Indexed := by
  intro amount i entry found
  rw [ArrayContainer.getSubitem, connects.effect.outputs] at found
  rcases Nat.lt_or_ge i (before.outputs.items amount).length with inside | outside
  · rw [List.getElem?_append_left inside] at found
    obtain ⟨other, out, stored, output, same⟩ := indexed amount i entry found
    exact ⟨other, out, connects.keepsStoredTx stored, output, same⟩
  · rw [List.getElem?_append_right outside] at found
    obtain ⟨same, j, out, place, output, listed⟩ :=
      mem_keyOutputsFrom (List.mem_of_getElem? found)
    refine ⟨tx, out, ?_, ?_, listed⟩
    · rw [same, connects.storedTx, if_pos rfl]
    · rw [place, Nat.zero_add, output]

theorem Built.indexed (built : Built E db) : db.Indexed := by
  refine built.txInvariant ?_ ?_ fun connects _ => connects.indexed
  · intro amount i entry found
    cases found
  · intro a b same indexed amount i entry found
    rw [same.outputs] at found
    obtain ⟨tx, out, stored, output⟩ := indexed amount i entry found
    exact ⟨tx, out, (same.storedTx _).trans stored, output⟩

/-- The key inputs of the transactions of a chain refer to outputs of the chain. -/
theorem Built.readsOutputs (built : Built E db) (stored : db.storedTx txId = some tx)
    (member : .toKey txin ∈ tx.vin) : db.ReadsOutputs txin := by
  refine built.txInvariant (P := fun db => ∀ txId tx txin, db.storedTx txId = some tx →
    .toKey txin ∈ tx.vin → db.ReadsOutputs txin) ?_ ?_ ?_ txId tx txin stored member
  · intro txId tx txin stored
    cases stored
  · intro a b same all txId tx txin stored member
    rw [same.storedTx] at stored
    obtain ⟨absolute, offsets, members⟩ := all txId tx txin stored member
    refine ⟨absolute, offsets, fun o inside => ?_⟩
    obtain ⟨out, id, n, other, resolved, found, output⟩ := members o inside
    refine ⟨out, id, n, other, ?_, (same.storedTx id).trans found, output⟩
    cases o with
    | byId ref => exact resolved
    | index i => rwa [Db.resolveOutput, same.outputs]
  · intro height tx txId before after connects _ all id other txin stored member
    have reads : before.ReadsOutputs txin := by
      rw [connects.storedTx] at stored
      split at stored
      · cases stored
        exact readsOutputs_of_resolves (connects.resolved _ member)
      · exact all id other txin stored member
    obtain ⟨absolute, offsets, members⟩ := reads
    refine ⟨absolute, offsets, fun o inside => ?_⟩
    obtain ⟨out, refers⟩ := members o inside
    exact ⟨out, connects.refersTo refers⟩

/-! ## Reachable states -/

/-- In every reachable state an input that the scan accepts, the inputs of a transaction that is
accepted and the inputs of the transactions of the main chain cover the amounts they declare
exactly when their references by id name outputs of these amounts. -/
theorem coversAmount_iff (reached : (nodeSystem E anyBlock).Reachable node) :
    (∀ txin keys before after,
      getOutputKeysForInputWithChecks node.chain txin before = .ok keys after →
      (node.chain.db.CoversAmount txin ↔ node.chain.db.NamesAmount txin)) ∧
    (∀ tx txId, txInputsValid E node.chain tx txId = .ok () ∨
        node.chain.db.storedTx txId = some tx →
      ∀ txin, .toKey txin ∈ tx.vin →
        (node.chain.db.CoversAmount txin ↔ node.chain.db.NamesAmount txin)) := by
  obtain ⟨⟨_, built, _⟩, _⟩ := NodeBuilt.reachable reached
  constructor
  · intro txin keys before after scanned
    have reads := readsOutputs_of_resolves (resolves_of_scan scanned)
    exact reads.covers_iff_names built.indexed
  · intro tx txId accepted txin member
    refine Db.ReadsOutputs.covers_iff_names ?_ built.indexed
    rcases accepted with valid | stored
    · exact readsOutputs_of_resolves (resolves_of_txInputsValid valid _ member)
    · exact built.readsOutputs stored member

end InputAmounts

/-! ## A reference by id -/

namespace UnderpaidInput

def genesis : Block := .plain 1 0 premineAmount nullHash []

def mined (height fee : Nat) (txHashes : List Hash) : Block :=
  { Block.plain (height + 1) height (coin + fee) ⟨height⟩ txHashes with timestamp := 120 * height }

/-- An input that declares an amount and refers to the coinbase of the first mined block. -/
def firstCoin (amount : Nat) : TxinToKey where
  amount
  keyOffsets := [.byId ⟨⟨2⟩, 0⟩]
  kImage := ⟨7⟩
  etcDetails := []

/-- A transaction that claims the premine for a coin. -/
def theft : Transaction where
  version := 101
  vin := [.toKey (firstCoin premineAmount)]
  vout := [⟨premineAmount - txMinimumFee, .toKey ⟨⟨7⟩, 0⟩⟩]
  extra := []
  signatures := [[⟨0⟩]]
  attachment := []

/-- A node whose first coins may be spent. -/
def funded : Node :=
  (nodeSystem .plain anyBlock).after (addNewBlock .plain genesis (Node.fresh 1000000)).2
    ((List.range' 1 12).map fun height => Event.submitBlock (mined height 0 []))

def robbed : Node :=
  (nodeSystem .plain anyBlock).after funded
    [.incomingTx theft 100 false, .submitBlock (mined 13 txMinimumFee [⟨101⟩])]

theorem funded_reachable : (nodeSystem .plain anyBlock).Reachable funded := by
  refine System.Reachable.after ?_ _
  exact .start ⟨genesis, 1000000, trivial, rfl, by decide, rfl⟩

/-- What the scan answers to an input that declares the premine and to one that declares a coin,
with the transaction that both refer to. -/
structure ScansEvaluated : Prop where
  stored : funded.chain.db.storedTx ⟨2⟩ = some (mined 1 0 []).minerTx
  claimed : Procedure.answer (getOutputKeysForInputWithChecks funded.chain
    (firstCoin premineAmount) 0) = .ok [⟨2⟩]
  covered : Procedure.answer (getOutputKeysForInputWithChecks funded.chain
    (firstCoin coin) 0) = .ok [⟨2⟩]

theorem scans_evaluated : ScansEvaluated := by
  refine ⟨?_, ?_, ?_⟩ <;> decide +kernel

/-- An output of a coin. -/
theorem firstCoin_amount {out : TxOut} (output : (mined 1 0 []).minerTx.vout[0]? = some out) :
    out.amount = coin := by
  cases output
  rfl

/-- The scan accepts an input that declares the premine and refers to a coin, and so does the
main chain. -/
theorem claims_premine :
    (nodeSystem .plain anyBlock).Reachable robbed ∧
      robbed.chain.db.storedTx ⟨101⟩ = some theft ∧
      (∃ keys after, getOutputKeysForInputWithChecks funded.chain (firstCoin premineAmount) 0 =
        .ok keys after) ∧
      ¬ funded.chain.db.CoversAmount (firstCoin premineAmount) := by
  refine ⟨funded_reachable.after _, by decide +kernel,
    ⟨_, _, Procedure.ok_of_answer scans_evaluated.claimed⟩, ?_⟩
  rintro ⟨absolute, offsets, members⟩
  obtain ⟨out, refers, amount⟩ := members (.byId ⟨⟨2⟩, 0⟩)
    ((byId_mem_absolute offsets _).mpr (List.mem_singleton_self _))
  obtain ⟨tx, stored, output⟩ := refersTo_byId.mp refers
  rw [scans_evaluated.stored] at stored
  cases stored
  rw [firstCoin_amount output] at amount
  exact absurd amount (by decide)

/-- An input that declares a coin covers it. -/
theorem firstCoin_covered : funded.chain.db.CoversAmount (firstCoin coin) := by
  have answered := Procedure.ok_of_answer scans_evaluated.covered
  apply ((coversAmount_iff funded_reachable).1 _ _ _ _ answered).mpr
  intro ref member tx out stored output
  cases List.mem_singleton.mp member
  rw [scans_evaluated.stored] at stored
  cases stored
  exact firstCoin_amount output

end UnderpaidInput
end Virie
