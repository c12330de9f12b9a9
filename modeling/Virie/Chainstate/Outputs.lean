import Virie.Storage.Transactions

/-! # The output index

Indexing the outputs of a transaction appends its key outputs to the lists of their
amounts and enters its multisig outputs under fresh ids. Removing them again undoes
exactly that. -/

open Foundation

namespace Virie

section Outputs

variable (E : Env) (tx : TransactionPrefix) (txId : Hash)

/-- The index entries of the key outputs of an amount, from output number `i` on. -/
def keyOutputsFrom (amount i : Nat) : List TxOut → List GlobalOutputEntry
  | [] => []
  | out :: rest =>
    match out.target with
    | .toKey _ =>
      if out.amount = amount then ⟨txId, i⟩ :: keyOutputsFrom amount (i + 1) rest
      else keyOutputsFrom amount (i + 1) rest
    | .multisig _ => keyOutputsFrom amount (i + 1) rest

/-- The ids and numbers of the multisig outputs, from output number `i` on. -/
def multisigOutputsFrom (i : Nat) : List TxOut → List (Hash × Nat)
  | [] => []
  | out :: rest =>
    match out.target with
    | .toKey _ => multisigOutputsFrom (i + 1) rest
    | .multisig _ => (getMultisigOutId E tx i, i) :: multisigOutputsFrom (i + 1) rest

/-- What indexing outputs from number `i` on does. -/
structure Indexes (i : Nat) (outs : List TxOut) (before after : Db) : Prop where
  frame : after = { before with
    outputs := after.outputs
    multisigOuts := after.multisigOuts }
  items : ∀ amount, after.outputs.items amount =
    before.outputs.items amount ++ keyOutputsFrom txId amount i outs
  fresh : ∀ entry ∈ multisigOutputsFrom E tx i outs, before.multisigOuts.get entry.1 = none
  distinct : ((multisigOutputsFrom E tx i outs).map Prod.fst).Nodup
  entered : ∀ entry ∈ multisigOutputsFrom E tx i outs,
    after.multisigOuts.get entry.1 = some ⟨txId, entry.2, 0⟩
  kept : ∀ id ∉ (multisigOutputsFrom E tx i outs).map Prod.fst,
    after.multisigOuts.get id = before.multisigOuts.get id

variable {E tx txId} {i : Nat} {out : TxOut} {outs : List TxOut} {before middle after : Db}

theorem Indexes.nil : Indexes E tx txId i [] before before where
  frame := rfl
  items := by simp [keyOutputsFrom]
  fresh := by simp [multisigOutputsFrom]
  distinct := by simp [multisigOutputsFrom]
  entered := by simp [multisigOutputsFrom]
  kept := by simp

theorem indexes_of_pushOutput {index : Nat}
    (run : pushOutput E tx txId i out before = .ok index after) :
    Indexes E tx txId i [out] before after := by
  unfold pushOutput at run
  obtain ⟨_, _, got, run⟩ := Procedure.bind_ok.mp run
  obtain ⟨rfl, rfl⟩ := Procedure.get_ok.mp got
  cases target : out.target with
  | toKey key =>
    simp only [target, Procedure.bind_ok, Procedure.set_ok, Procedure.pure_ok] at run
    obtain ⟨_, _, rfl, _, rfl⟩ := run
    refine ⟨rfl, ?_, ?_, ?_, ?_, ?_⟩
    · intro amount
      rw [ArrayContainer.items_pushBackItem]
      by_cases same : out.amount = amount
      · subst same
        simp [keyOutputsFrom, target]
      · simp [keyOutputsFrom, target, same]
    all_goals simp [multisigOutputsFrom, target]
  | multisig keys =>
    simp only [target, Procedure.bind_ok, Procedure.set_ok, Procedure.require_ok,
      Procedure.pure_ok] at run
    obtain ⟨_, _, ⟨_, rfl⟩, _, _, ⟨unknown, rfl⟩, _, _, rfl, _, rfl⟩ := run
    have absent : before.multisigOuts.get (getMultisigOutId E tx i) = none :=
      Container.get_eq_none_of_not_has _ _ (by simpa using unknown)
    refine ⟨rfl, ?_, ?_, ?_, ?_, ?_⟩
    · simp [keyOutputsFrom, target]
    · simpa [multisigOutputsFrom, target] using absent
    · simp [multisigOutputsFrom, target]
    · simp [multisigOutputsFrom, target]
    · intro id apart
      rw [Container.get_set, if_neg]
      rintro rfl
      simp [multisigOutputsFrom, target] at apart

theorem keyOutputsFrom_cons (out : TxOut) (outs : List TxOut) (amount : Nat) :
    keyOutputsFrom txId amount i (out :: outs) =
      keyOutputsFrom txId amount i [out] ++ keyOutputsFrom txId amount (i + 1) outs := by
  cases target : out.target <;> simp only [keyOutputsFrom, target]
  · split <;> rfl
  · rfl

theorem multisigOutputsFrom_cons (out : TxOut) (outs : List TxOut) :
    multisigOutputsFrom E tx i (out :: outs) =
      multisigOutputsFrom E tx i [out] ++ multisigOutputsFrom E tx (i + 1) outs := by
  cases target : out.target <;> simp [multisigOutputsFrom, target]

theorem Indexes.cons (first : Indexes E tx txId i [out] before middle)
    (rest : Indexes E tx txId (i + 1) outs middle after) :
    Indexes E tx txId i (out :: outs) before after := by
  have apart : ∀ entry ∈ multisigOutputsFrom E tx i [out],
      entry.1 ∉ (multisigOutputsFrom E tx (i + 1) outs).map Prod.fst := by
    intro entry early late
    obtain ⟨other, member, same⟩ := List.mem_map.mp late
    have absent := rest.fresh other member
    rw [same, first.entered entry early] at absent
    cases absent
  refine ⟨?_, ?_, ?_, ?_, ?_, ?_⟩
  · rw [rest.frame, first.frame]
  · intro amount
    rw [rest.items, first.items, keyOutputsFrom_cons out outs, List.append_assoc]
  · intro entry member
    rw [multisigOutputsFrom_cons, List.mem_append] at member
    by_cases early : entry.1 ∈ (multisigOutputsFrom E tx i [out]).map Prod.fst
    · obtain ⟨other, present, same⟩ := List.mem_map.mp early
      rw [← same]
      exact first.fresh other present
    · rcases member with early' | late
      · exact absurd (List.mem_map_of_mem early') early
      · rw [← first.kept entry.1 early]
        exact rest.fresh entry late
  · rw [multisigOutputsFrom_cons, List.map_append, List.nodup_append]
    refine ⟨first.distinct, rest.distinct, ?_⟩
    rintro id early _ late rfl
    obtain ⟨entry, member, rfl⟩ := List.mem_map.mp early
    exact apart entry member late
  · intro entry member
    rw [multisigOutputsFrom_cons, List.mem_append] at member
    rcases member with early | late
    · rw [rest.kept entry.1 (apart entry early)]
      exact first.entered entry early
    · exact rest.entered entry late
  · intro id absent
    rw [multisigOutputsFrom_cons, List.map_append, List.mem_append, not_or] at absent
    rw [rest.kept id absent.2, first.kept id absent.1]

theorem indexes_of_pushOutputsFrom {indexes : List Nat}
    (run : pushOutputsFrom E tx txId i outs before = .ok indexes after) :
    Indexes E tx txId i outs before after := by
  induction outs generalizing i before indexes with
  | nil =>
    obtain ⟨-, rfl⟩ := Procedure.pure_ok.mp run
    exact .nil
  | cons out outs ih =>
    simp only [pushOutputsFrom, Procedure.bind_ok, Procedure.pure_ok] at run
    obtain ⟨_, middle, first, _, _, rest, -, rfl⟩ := run
    exact (indexes_of_pushOutput first).cons (ih rest)

/-! ## Removing outputs -/

/-- What removing the outputs from number `i` on does, down to the index `before`. -/
structure Unindexes (E : Env) (tx : TransactionPrefix) (i : Nat) (outs : List TxOut)
    (outputs : ArrayContainer Nat GlobalOutputEntry) (db after : Db) : Prop where
  frame : after = { db with outputs, multisigOuts := after.multisigOuts }
  multisigOuts : ∀ id, after.multisigOuts.get id =
    if id ∈ (multisigOutputsFrom E tx i outs).map Prod.fst then none else db.multisigOuts.get id

/-- The output that was indexed last can be removed. -/
theorem popOutput_runs {index : Nat} {db : Db}
    (run : pushOutput E tx txId i out before = .ok index after)
    (outputs : db.outputs = after.outputs)
    (entered : ∀ entry ∈ multisigOutputsFrom E tx i [out], db.multisigOuts.has entry.1 = true) :
    ∃ popped, popOutput E tx txId i out db = .ok () popped ∧
      Unindexes E tx i [out] before.outputs db popped := by
  unfold pushOutput at run
  obtain ⟨_, _, got, run⟩ := Procedure.bind_ok.mp run
  obtain ⟨rfl, rfl⟩ := Procedure.get_ok.mp got
  unfold popOutput
  cases target : out.target with
  | toKey key =>
    simp only [target, Procedure.bind_ok, Procedure.set_ok, Procedure.pure_ok] at run
    obtain ⟨_, _, rfl, _, rfl⟩ := run
    have last : (db.outputs.items out.amount).getLast? = some ⟨txId, i⟩ := by
      rw [outputs, ArrayContainer.items_pushBackItem]
      simp
    refine ⟨{ db with outputs := db.outputs.popBackItem out.amount }, ?_, ?_, ?_⟩
    · simp only [Procedure.bind_ok, Procedure.get_ok, Procedure.demand_ok, Procedure.require_ok,
        Procedure.set_ok]
      exact ⟨db, db, ⟨rfl, rfl⟩, _, db, ⟨last, rfl⟩, ⟨⟩, db, ⟨by simp, rfl⟩, ⟨⟩, db,
        ⟨by simp, rfl⟩, rfl⟩
    · rw [outputs, ArrayContainer.popBackItem_pushBackItem]
    · simp [multisigOutputsFrom, target]
  | multisig keys =>
    simp only [target, Procedure.bind_ok, Procedure.set_ok, Procedure.require_ok,
      Procedure.pure_ok] at run
    obtain ⟨_, _, ⟨named, rfl⟩, _, _, ⟨_, rfl⟩, _, _, rfl, _, rfl⟩ := run
    have present : db.multisigOuts.has (getMultisigOutId E tx i) = true :=
      entered (getMultisigOutId E tx i, i) (by simp [multisigOutputsFrom, target])
    refine ⟨{ db with
      multisigOuts := db.multisigOuts.erase (getMultisigOutId E tx i) }, ?_, ?_, ?_⟩
    · simp only [Procedure.bind_ok, Procedure.get_ok, Procedure.require_ok, Procedure.set_ok]
      exact ⟨db, db, ⟨rfl, rfl⟩, ⟨⟩, db, ⟨named, rfl⟩, ⟨⟩, db, ⟨present, rfl⟩, rfl⟩
    · rw [← outputs]
    · intro id
      simp [multisigOutputsFrom, target, Container.get_erase, eq_comm]

/-- Removing the outputs of a transaction restores the index they were added to. -/
theorem popOutputsFrom_runs {indexes : List Nat} (db : Db)
    (run : pushOutputsFrom E tx txId i outs before = .ok indexes after)
    (outputs : db.outputs = after.outputs)
    (entered : ∀ entry ∈ multisigOutputsFrom E tx i outs, db.multisigOuts.has entry.1 = true) :
    ∃ popped, popOutputsFrom E tx txId i outs db = .ok () popped ∧
      Unindexes E tx i outs before.outputs db popped := by
  induction outs generalizing i before indexes with
  | nil =>
    obtain ⟨-, rfl⟩ := Procedure.pure_ok.mp run
    exact ⟨db, rfl, by rw [← outputs], by simp [multisigOutputsFrom]⟩
  | cons out outs ih =>
    have whole := indexes_of_pushOutputsFrom run
    simp only [pushOutputsFrom, Procedure.bind_ok, Procedure.pure_ok] at run
    obtain ⟨_, middle, first, _, _, rest, -, rfl⟩ := run
    obtain ⟨shorter, popRest, restEffect⟩ := ih rest fun entry member => entered entry (by
      rw [multisigOutputsFrom_cons]
      exact List.mem_append_right _ member)
    have apart := whole.distinct
    rw [multisigOutputsFrom_cons, List.map_append, List.nodup_append] at apart
    have sameOutputs : shorter.outputs = middle.outputs := by rw [restEffect.frame]
    obtain ⟨popped, popFirst, firstEffect⟩ := popOutput_runs first sameOutputs (by
      intro entry member
      have early : entry.1 ∈ (multisigOutputsFrom E tx i [out]).map Prod.fst :=
        List.mem_map_of_mem member
      rw [Container.has, restEffect.multisigOuts, if_neg fun late => apart.2.2 _ early _ late rfl]
      exact entered entry (by
        rw [multisigOutputsFrom_cons]
        exact List.mem_append_left _ member))
    refine ⟨popped, Procedure.bind_ok.mpr ⟨(), shorter, popRest, popFirst⟩, ?_, ?_⟩
    · rw [firstEffect.frame, restEffect.frame]
    · intro id
      rw [firstEffect.multisigOuts, restEffect.multisigOuts,
        multisigOutputsFrom_cons out outs, List.map_append]
      simp only [List.mem_append]
      by_cases early : id ∈ (multisigOutputsFrom E tx i [out]).map Prod.fst <;>
        by_cases late : id ∈ (multisigOutputsFrom E tx (i + 1) outs).map Prod.fst <;>
        simp only [early, late, or_true, or_false, ↓reduceIte]

end Outputs
end Virie
