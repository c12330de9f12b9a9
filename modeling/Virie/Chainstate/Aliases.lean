import Virie.Storage.Transactions

/-! # The alias registry

The registry keeps the history of every name and the names of every address. The
latter follow from the former: an address has a name exactly when it is the name's
last owner. Registering and updating keep the two in step, so that taking the last
entry back restores both. -/

open Foundation

namespace Virie

abbrev AliasHistories := Container String (List ExtraAliasEntryBase)
abbrev AddressNames := Container AccountPublicAddress (KeySet String)

/-- The last owner of a name. -/
def ownerOf (aliases : AliasHistories) (name : String) : Option AccountPublicAddress :=
  ((aliases.get name).getD []).getLast?.map ExtraAliasEntryBase.address

/-- Whether an address has a name. -/
def hasName (names : AddressNames) (address : AccountPublicAddress) (name : String) : Bool :=
  ((names.get address).getD ∅).contains name

/-- The names of an address are the names it was the last to own; neither histories nor name
sets are empty. -/
structure AliasesConsistent (aliases : AliasHistories) (names : AddressNames) : Prop where
  histories : ∀ name, aliases.get name ≠ some []
  nonempty : ∀ address set, names.get address = some set → set.isEmpty = false
  owners : ∀ address name, hasName names address name = true ↔ ownerOf aliases name = some address

theorem contains_empty (name : String) : (∅ : KeySet String).contains name = false := by
  simp [KeySet.contains, Container.has]

/-- The names of addresses are determined by the histories. -/
theorem AliasesConsistent.names_unique {aliases : AliasHistories} {names other : AddressNames}
    (first : AliasesConsistent aliases names) (second : AliasesConsistent aliases other) :
    names = other := by
  have alike : ∀ address name, hasName names address name = hasName other address name := by
    intro address name
    rw [Bool.eq_iff_iff, first.owners, second.owners]
  have empty_of_none : ∀ {names other : AddressNames} {address : AccountPublicAddress},
      (∀ name, hasName names address name = hasName other address name) →
      (∀ set, other.get address = some set → set.isEmpty = false) →
      names.get address = none → other.get address = none := by
    intro names other address alike nonempty none
    by_contra present
    obtain ⟨set, found⟩ := Option.ne_none_iff_exists'.mp present
    have empty : set.isEmpty = true := by
      rw [KeySet.isEmpty_iff]
      intro name
      have same := alike name
      rw [hasName, hasName, none, found] at same
      exact same.symm.trans (contains_empty name)
    rw [nonempty set found] at empty
    cases empty
  apply Container.ext
  intro address
  cases left : names.get address with
  | none =>
    exact (empty_of_none (alike address) (second.nonempty address) left).symm
  | some set =>
    cases right : other.get address with
    | none =>
      have absent := empty_of_none (fun name => (alike address name).symm)
        (first.nonempty address) right
      rw [absent] at left
      cases left
    | some set' =>
      congr 1
      apply KeySet.ext_contains
      intro name
      have same := alike address name
      rwa [hasName, hasName, left, right] at same

/-! ## Adding and removing a name of an address -/

section Names

variable {db : Db} {address other : AccountPublicAddress} {name query : String}

theorem hasName_addAliasOfAddress :
    hasName (addAliasOfAddress address name db).addrToAlias other query =
      (decide (address = other ∧ name = query) || hasName db.addrToAlias other query) := by
  simp only [hasName, addAliasOfAddress, Container.get_set]
  by_cases same : address = other
  · subst same
    simp only [↓reduceIte, Option.getD_some, KeySet.contains_insert, true_and]
  · simp [same]

theorem nonempty_addAliasOfAddress
    (nonempty : ∀ address set, db.addrToAlias.get address = some set → set.isEmpty = false)
    (set : KeySet String)
    (found : (addAliasOfAddress address name db).addrToAlias.get other = some set) :
    set.isEmpty = false := by
  simp only [addAliasOfAddress, Container.get_set] at found
  split at found
  · obtain rfl := Option.some.inj found
    rw [Bool.eq_false_iff, ne_eq, KeySet.isEmpty_iff]
    intro empty
    have absent := empty name
    rw [KeySet.contains_insert] at absent
    simp at absent
  · exact nonempty other set found

theorem removeAliasOfAddress_frame :
    removeAliasOfAddress address name db =
      { db with addrToAlias := (removeAliasOfAddress address name db).addrToAlias } := by
  unfold removeAliasOfAddress
  split <;> rfl

theorem hasName_removeAliasOfAddress :
    hasName (removeAliasOfAddress address name db).addrToAlias other query =
      (!decide (address = other ∧ name = query) && hasName db.addrToAlias other query) := by
  unfold removeAliasOfAddress
  cases found : db.addrToAlias.get address with
  | none =>
    by_cases same : address = other
    · subst same
      simp [hasName, found, contains_empty]
    · simp [hasName, same]
  | some names =>
    simp only [storeAliasesOfAddress]
    by_cases same : address = other
    · subst same
      have after : (if KeySet.isEmpty (names.erase name) then db.addrToAlias.erase address
          else db.addrToAlias.set address (names.erase name)).get address =
          if KeySet.isEmpty (names.erase name) then none else some (names.erase name) := by
        split <;> simp
      rw [hasName, after, hasName, found]
      simp only [true_and, Option.getD_some]
      rw [← KeySet.contains_erase]
      split
      · next empty =>
        rw [Option.getD_none, contains_empty, (KeySet.isEmpty_iff _).mp empty query]
      · rfl
    · have after : (if KeySet.isEmpty (names.erase name) then db.addrToAlias.erase address
          else db.addrToAlias.set address (names.erase name)).get other =
          db.addrToAlias.get other := by
        split
        · exact Container.get_erase_of_ne _ same
        · exact Container.get_set_of_ne _ _ same
      simp [hasName, after, same]

theorem nonempty_removeAliasOfAddress
    (nonempty : ∀ address set, db.addrToAlias.get address = some set → set.isEmpty = false)
    (set : KeySet String)
    (found : (removeAliasOfAddress address name db).addrToAlias.get other = some set) :
    set.isEmpty = false := by
  unfold removeAliasOfAddress at found
  split at found
  · next names _ =>
    simp only [storeAliasesOfAddress] at found
    split at found
    · rw [Container.get_erase] at found
      split at found
      · cases found
      · exact nonempty other set found
    · next filled =>
      rw [Container.get_set] at found
      split at found
      · obtain rfl := Option.some.inj found
        simpa using filled
      · exact nonempty other set found
  · exact nonempty other set found

end Names

/-! ## Histories -/

section Histories

variable {aliases : AliasHistories} {name query : String} {history : List ExtraAliasEntryBase}
  {entry : ExtraAliasEntryBase}

theorem ownerOf_set :
    ownerOf (aliases.set name history) query =
      if name = query then history.getLast?.map ExtraAliasEntryBase.address
      else ownerOf aliases query := by
  simp only [ownerOf, Container.get_set]
  split <;> rfl

theorem ownerOf_storeAliasHistory {db : Db} :
    ownerOf (storeAliasHistory name history db).aliases query =
      if name = query then history.getLast?.map ExtraAliasEntryBase.address
      else ownerOf db.aliases query := by
  unfold storeAliasHistory
  by_cases empty : history.isEmpty = true
  · simp only [empty, ↓reduceIte, ownerOf, Container.get_erase]
    split
    · rw [List.isEmpty_iff.mp empty]
      rfl
    · rfl
  · simp only [empty, Bool.false_eq_true, ↓reduceIte]
    exact ownerOf_set

theorem histories_storeAliasHistory {db : Db} (nonempty : ∀ name, db.aliases.get name ≠ some []) :
    (storeAliasHistory name history db).aliases.get query ≠ some [] := by
  unfold storeAliasHistory
  by_cases empty : history.isEmpty = true
  · simp only [empty, ↓reduceIte, Container.get_erase]
    split
    · simp
    · exact nonempty query
  · simp only [empty, Bool.false_eq_true, ↓reduceIte, Container.get_set]
    split
    · simpa [List.isEmpty_iff] using empty
    · exact nonempty query

end Histories

/-! ## Putting and popping -/

section Registry

variable {E : Env} {ai : ExtraAliasEntry} {before after : Db}

/-- The history of a name, empty for an unknown one. -/
def Db.aliasHistory (db : Db) (name : String) : List ExtraAliasEntryBase :=
  (db.aliases.get name).getD []

theorem ownerOf_aliasHistory (db : Db) (name : String) :
    ownerOf db.aliases name =
      (db.aliasHistory name).getLast?.map ExtraAliasEntryBase.address := rfl

/-- The registry after a name got a new last entry and moved to its address, seen from a
registry in which nobody has the name. -/
theorem AliasesConsistent.add (db : Db) (history : List ExtraAliasEntryBase) {name : String}
    (entry : ExtraAliasEntryBase)
    (histories : ∀ query, db.aliases.get query ≠ some [])
    (nonempty : ∀ address set, db.addrToAlias.get address = some set → set.isEmpty = false)
    (vacant : ∀ address, hasName db.addrToAlias address name = false)
    (others : ∀ address query, query ≠ name →
      (hasName db.addrToAlias address query = true ↔ ownerOf db.aliases query = some address)) :
    AliasesConsistent (db.aliases.set name (history ++ [entry]))
      (addAliasOfAddress entry.address name db).addrToAlias where
  histories := by
    intro query
    rw [Container.get_set]
    split
    · simp
    · exact histories query
  nonempty := fun _ set found => nonempty_addAliasOfAddress nonempty set found
  owners := by
    intro address query
    rw [hasName_addAliasOfAddress, ownerOf_set]
    by_cases same : name = query
    · subst same
      simp [vacant]
    · simp [same, others address query (Ne.symm same)]

/-- Putting an alias entry concerns the registry only. -/
theorem putAliasInfo_frame {result : Unit} (run : putAliasInfo E ai before = .ok result after) :
    after = { before with aliases := after.aliases, addrToAlias := after.addrToAlias } := by
  simp only [putAliasInfo, Procedure.bind_ok, Procedure.require_ok, Procedure.get_ok] at run
  obtain ⟨_, _, ⟨_, rfl⟩, _, _, ⟨rfl, rfl⟩, run⟩ := run
  cases last : ((before.aliases.get ai.aliasName).getD []).getLast? with
  | none =>
    simp only [last, Procedure.bind_ok, Procedure.set_ok, Procedure.modify_ok] at run
    obtain ⟨_, _, rfl, rfl⟩ := run
    rfl
  | some owner =>
    simp only [last, Procedure.bind_ok, Procedure.demand_ok, Procedure.require_ok,
      Procedure.modify_ok] at run
    obtain ⟨_, _, ⟨_, rfl⟩, _, _, ⟨_, rfl⟩, _, _, rfl, _, _, rfl, rfl⟩ := run
    rw [removeAliasOfAddress_frame]
    rfl

/-- Putting an alias entry appends it to the history of its name and moves the name. -/
theorem putAliasInfo_spec {result : Unit} (run : putAliasInfo E ai before = .ok result after)
    (consistent : AliasesConsistent before.aliases before.addrToAlias) :
    ai.aliasName ≠ "" ∧
    after = { before with
      aliases := before.aliases.set ai.aliasName
        (before.aliasHistory ai.aliasName ++ [ai.toExtraAliasEntryBase])
      addrToAlias := after.addrToAlias } ∧
    AliasesConsistent after.aliases after.addrToAlias := by
  simp only [putAliasInfo, Procedure.bind_ok, Procedure.require_ok, Procedure.get_ok, bne_iff_ne]
    at run
  obtain ⟨_, _, ⟨named, rfl⟩, _, _, ⟨rfl, rfl⟩, run⟩ := run
  refine ⟨named, ?_⟩
  rw [show (before.aliases.get ai.aliasName).getD [] = before.aliasHistory ai.aliasName from rfl]
    at run
  cases last : (before.aliasHistory ai.aliasName).getLast? with
  | none =>
    rw [List.getLast?_eq_none_iff] at last
    simp only [last, List.getLast?_nil, Procedure.bind_ok, Procedure.set_ok,
      Procedure.modify_ok] at run
    obtain ⟨_, _, rfl, rfl⟩ := run
    refine ⟨by rw [last]; rfl, ?_⟩
    refine AliasesConsistent.add before [] _ consistent.histories consistent.nonempty ?_
      fun address query _ => consistent.owners address query
    intro address
    rw [Bool.eq_false_iff, ne_eq, consistent.owners, ownerOf_aliasHistory, last]
    simp
  | some owner =>
    simp only [last, Procedure.bind_ok, Procedure.demand_ok, Procedure.require_ok,
      Procedure.modify_ok] at run
    obtain ⟨_, _, ⟨_, rfl⟩, _, _, ⟨_, rfl⟩, _, _, rfl, _, _, rfl, rfl⟩ := run
    have ownedBy : ownerOf before.aliases ai.aliasName = some owner.address := by
      rw [ownerOf_aliasHistory, last]
      rfl
    rw [removeAliasOfAddress_frame]
    refine ⟨rfl, ?_⟩
    refine AliasesConsistent.add _ _ _ consistent.histories
      (fun _ set found => nonempty_removeAliasOfAddress consistent.nonempty set found) ?_ ?_
    · intro address
      rw [Bool.eq_false_iff, ne_eq]
      intro still
      rw [hasName_removeAliasOfAddress, Bool.and_eq_true, consistent.owners, ownedBy] at still
      simp at still
    · intro address query apart
      rw [hasName_removeAliasOfAddress]
      simp [Ne.symm apart, consistent.owners]

/-- The last entry of a name can be taken back, which moves the name to the owner before. -/
theorem popAliasInfo_runs {db : Db} {history : List ExtraAliasEntryBase}
    {entry : ExtraAliasEntryBase} (named : ai.aliasName ≠ "")
    (consistent : AliasesConsistent db.aliases db.addrToAlias)
    (last : db.aliasHistory ai.aliasName = history ++ [entry]) :
    ∃ after, popAliasInfo ai db = .ok () after ∧
      after = { db with
        aliases := (storeAliasHistory ai.aliasName history db).aliases
        addrToAlias := after.addrToAlias } ∧
      AliasesConsistent after.aliases after.addrToAlias := by
  have ownedBy : ownerOf db.aliases ai.aliasName = some entry.address := by
    rw [ownerOf_aliasHistory, last]
    simp
  have has : (db.addrToAlias.get entry.address).all (KeySet.contains · ai.aliasName) = true := by
    have present := (consistent.owners entry.address ai.aliasName).mpr ownedBy
    unfold hasName at present
    cases found : db.addrToAlias.get entry.address with
    | none => rfl
    | some names => simpa [found] using present
  have vacated : ∀ address,
      hasName (removeAliasOfAddress entry.address ai.aliasName db).addrToAlias address ai.aliasName
        = false := by
    intro address
    rw [Bool.eq_false_iff, ne_eq]
    intro still
    rw [hasName_removeAliasOfAddress, Bool.and_eq_true, consistent.owners, ownedBy] at still
    simp at still
  have others : ∀ address query, query ≠ ai.aliasName →
      (hasName (removeAliasOfAddress entry.address ai.aliasName db).addrToAlias address query = true
        ↔ ownerOf db.aliases query = some address) := by
    intro address query apart
    rw [hasName_removeAliasOfAddress]
    simp [Ne.symm apart, consistent.owners]
  have filled : ∀ address set, (removeAliasOfAddress entry.address ai.aliasName db).addrToAlias.get
      address = some set → set.isEmpty = false :=
    fun address set => nonempty_removeAliasOfAddress consistent.nonempty set
  have steps : ∀ after, popAliasInfo ai db = .ok () after ↔
      history.getLast?.elim id (fun previous => addAliasOfAddress previous.address ai.aliasName)
        (storeAliasHistory ai.aliasName history
          (removeAliasOfAddress entry.address ai.aliasName db)) = after := by
    intro after
    simp only [popAliasInfo, Procedure.bind_ok, Procedure.require_ok, Procedure.get_ok,
      bne_iff_ne, Procedure.demand_ok, Procedure.modify_ok]
    have known : (db.aliases.get ai.aliasName).getD [] = history ++ [entry] := last
    constructor
    · rintro ⟨_, _, ⟨_, rfl⟩, _, _, ⟨rfl, rfl⟩, _, _, ⟨same, rfl⟩, _, _, ⟨_, rfl⟩, _, _, rfl, _, _,
        rfl, run⟩
      rw [known, List.getLast?_concat, Option.some.injEq] at same
      subst same
      rw [known, List.dropLast_concat] at run
      cases before : history.getLast? with
      | some previous =>
        rw [before] at run
        exact (Procedure.modify_ok.mp run).symm
      | none =>
        rw [before] at run
        exact (Procedure.pure_ok.mp run).2
    · intro result
      refine ⟨(), db, ⟨named, rfl⟩, db, db, ⟨rfl, rfl⟩, entry, db, ⟨?_, rfl⟩, (), db, ⟨has, rfl⟩,
        ⟨⟩, _, rfl, ⟨⟩, _, rfl, ?_⟩
      · rw [known, List.getLast?_concat]
      · rw [known, List.dropLast_concat]
        cases before : history.getLast? with
        | some previous =>
          rw [before] at result
          exact Procedure.modify_ok.mpr result.symm
        | none =>
          rw [before] at result
          exact Procedure.pure_ok.mpr ⟨rfl, result⟩
  refine ⟨_, (steps _).mpr rfl, ?_⟩
  rw [removeAliasOfAddress_frame] at vacated others filled ⊢
  cases before : history.getLast? with
  | none =>
    refine ⟨rfl, fun _ => histories_storeAliasHistory consistent.histories, filled, ?_⟩
    intro address query
    rw [Option.elim_none, id_eq, ownerOf_storeAliasHistory, before]
    by_cases same : ai.aliasName = query
    · subst same
      simpa [storeAliasHistory] using vacated address
    · simpa [same, storeAliasHistory] using others address query (Ne.symm same)
  | some previous =>
    refine ⟨rfl, ?_⟩
    have nonempty : history ≠ [] := by
      rintro rfl
      simp at before
    have split : history = history.dropLast ++ [previous] := by
      rw [List.getLast?_eq_some_getLast nonempty, Option.some.injEq] at before
      rw [← before, List.dropLast_append_getLast nonempty]
    have stored : (storeAliasHistory ai.aliasName history db).aliases =
        db.aliases.set ai.aliasName (history.dropLast ++ [previous]) := by
      rw [← split, storeAliasHistory, if_neg (by simpa using nonempty)]
    have added := AliasesConsistent.add { db with
        addrToAlias := (removeAliasOfAddress entry.address ai.aliasName db).addrToAlias }
      history.dropLast previous consistent.histories filled vacated others
    rw [← stored] at added
    exact added

/-- Taking back the entry that was put restores the registry. -/
theorem popAliasInfo_undoes {result : Unit} (run : putAliasInfo E ai before = .ok result after)
    (consistent : AliasesConsistent before.aliases before.addrToAlias) {db : Db}
    (aliases : db.aliases = after.aliases) (names : db.addrToAlias = after.addrToAlias) :
    popAliasInfo ai db =
      .ok () { db with aliases := before.aliases, addrToAlias := before.addrToAlias } := by
  obtain ⟨named, frame, kept⟩ := putAliasInfo_spec run consistent
  have put : after.aliases = before.aliases.set ai.aliasName
      (before.aliasHistory ai.aliasName ++ [ai.toExtraAliasEntryBase]) := by
    rw [frame]
  have last : db.aliasHistory ai.aliasName =
      before.aliasHistory ai.aliasName ++ [ai.toExtraAliasEntryBase] := by
    rw [Db.aliasHistory, aliases, put, Container.get_set_self]
    rfl
  obtain ⟨popped, popRun, popFrame, popKept⟩ :=
    popAliasInfo_runs named (by rw [aliases, names]; exact kept) last
  have restored : (storeAliasHistory ai.aliasName (before.aliasHistory ai.aliasName) db).aliases =
      before.aliases := by
    unfold storeAliasHistory
    simp only [aliases, put, Container.set_set]
    cases found : before.aliases.get ai.aliasName with
    | none => simp [Db.aliasHistory, found]
    | some history =>
      have filled : history ≠ [] := fun empty => consistent.histories _ (empty ▸ found)
      simp [Db.aliasHistory, found, filled]
  rw [restored] at popFrame
  have poppedAliases : popped.aliases = before.aliases := by rw [popFrame]
  have poppedNames : popped.addrToAlias = before.addrToAlias :=
    AliasesConsistent.names_unique (poppedAliases ▸ popKept) consistent
  rw [popRun, popFrame, poppedNames]

end Registry
end Virie
