import Virie.Chainstate.Running

/-! # The alias registry over time

Connected transactions put entries into the registry and disconnected ones take them
back, the last first. Whatever the order, the names of an address are those it was the
last to own, nothing empty is stored, and an owner gives a name away only by a
signature. Every main chain of a node arises in this way. -/

open Foundation

namespace Virie

/-! ## Putting and taking back entries -/

/-- An update is signed with a key. -/
def SignedWith (E : Env) (ai : ExtraAliasEntry) (key : PublicKey) : Prop :=
  ∃ sign, ai.sign = [sign] ∧ E.checkSignature (getSignBuffHashForAliasUpdate E ai) key sign = true

/-- Every entry of a name after the first is signed by the owner before it. -/
def SignedHistory (E : Env) (name : String) (history : List ExtraAliasEntryBase) : Prop :=
  history.IsChain fun old new => SignedWith E ⟨new, name⟩ old.address.spendPublicKey

/-- The registry in a database, and the entries put into it, the newest first. -/
structure Registry where
  db : Db
  entries : List ExtraAliasEntry

inductive RegistryEvent where
  | put (ai : ExtraAliasEntry)
  | pop

/-- Put an entry, or take the newest one back. A failing operation leaves the database it
reached. -/
def Registry.step (E : Env) (event : RegistryEvent) (registry : Registry) : Registry :=
  match event, registry.entries with
  | .put ai, entries =>
    match putAliasInfo E ai registry.db with
    | .ok _ db => ⟨db, ai :: entries⟩
    | .error _ db => ⟨db, entries⟩
  | .pop, [] => registry
  | .pop, ai :: older =>
    match popAliasInfo ai registry.db with
    | .ok _ db => ⟨db, older⟩
    | .error _ db => ⟨db, ai :: older⟩

/-- The registry from the empty database on. -/
def registrySystem (E : Env) : System RegistryEvent Registry where
  start registry := registry = ⟨{}, []⟩
  step := Registry.step E

/-- The entries put under a name, the oldest first. -/
def Registry.under (entries : List ExtraAliasEntry) (name : String) : List ExtraAliasEntryBase :=
  ((entries.filter fun ai => ai.aliasName = name).map ExtraAliasEntry.toExtraAliasEntryBase).reverse

/-- The registry is consistent, holds just the entries that were put, and each of them was signed
by the owner before it. -/
structure Registry.Sound (E : Env) (registry : Registry) : Prop where
  consistent : AliasesConsistent registry.db.aliases registry.db.addrToAlias
  recorded : ∀ name, registry.db.aliasHistory name = Registry.under registry.entries name
  named : ∀ ai ∈ registry.entries, ai.aliasName ≠ ""
  signed : ∀ name, SignedHistory E name (registry.db.aliasHistory name)

section Registry

variable {E : Env} {ai : ExtraAliasEntry} {before after : Db}

/-! ## Single operations -/

/-- A refused entry leaves the database alone. -/
theorem putAliasInfo_error {reason : Stop} (run : putAliasInfo E ai before = .error reason after) :
    after = before := by
  unfold putAliasInfo at run
  by_cases named : (ai.aliasName != "") = true
  · rw [named] at run
    rw [Procedure.require_bind, if_pos rfl, Procedure.get_bind] at run
    cases last : ((before.aliases.get ai.aliasName).getD []).getLast? with
    | none =>
      rw [last] at run
      cases run
    | some owner =>
      rw [last] at run
      dsimp only at run
      generalize (if ai.sign.length = 1 then ai.sign.getLast? else none) = sign at run
      cases sign with
      | none =>
        cases run
        rfl
      | some sign =>
        rw [Procedure.demand_bind, Procedure.require_bind] at run
        split at run
        · cases run
        · cases run
          rfl
  · rw [Procedure.require_bind, if_neg named] at run
    cases run
    rfl

/-- An entry for an owned name is signed by the owner. -/
theorem putAliasInfo_signed {owner : ExtraAliasEntryBase}
    (run : putAliasInfo E ai before = .ok () after)
    (last : (before.aliasHistory ai.aliasName).getLast? = some owner) :
    SignedWith E ai owner.address.spendPublicKey := by
  simp only [putAliasInfo, Procedure.bind_ok, Procedure.require_ok, Procedure.get_ok] at run
  obtain ⟨_, _, ⟨_, rfl⟩, _, _, ⟨rfl, rfl⟩, run⟩ := run
  change ((before.aliases.get ai.aliasName).getD []).getLast? = some owner at last
  simp only [last, Procedure.bind_ok, Procedure.demand_ok, Procedure.require_ok] at run
  obtain ⟨sign, _, ⟨single, rfl⟩, _, _, ⟨verified, rfl⟩, _⟩ := run
  split at single
  · next length =>
    obtain ⟨only, all⟩ := List.length_eq_one_iff.mp length
    rw [all] at single
    cases single
    exact ⟨only, all, verified⟩
  · cases single

theorem aliasHistory_storeAliasHistory (db : Db) (name query : String)
    (history : List ExtraAliasEntryBase) :
    (storeAliasHistory name history db).aliasHistory query =
      if name = query then history else db.aliasHistory query := by
  unfold storeAliasHistory Db.aliasHistory
  by_cases empty : history.isEmpty = true
  · rw [if_pos empty, Container.get_erase, List.isEmpty_iff.mp empty]
    split
    · rfl
    · rfl
  · rw [if_neg empty, Container.get_set]
    split
    · rfl
    · rfl

theorem Registry.under_cons (entries : List ExtraAliasEntry) (name : String) :
    Registry.under (ai :: entries) name =
      if ai.aliasName = name then Registry.under entries name ++ [ai.toExtraAliasEntryBase]
      else Registry.under entries name := by
  unfold Registry.under
  by_cases same : ai.aliasName = name
  · rw [List.filter_cons_of_pos (by simpa using same), if_pos same, List.map_cons,
      List.reverse_cons]
  · rw [List.filter_cons_of_neg (by simpa using same), if_neg same]

/-- Putting an entry adds it to the history of its name. -/
theorem aliasHistory_put (run : putAliasInfo E ai before = .ok () after)
    (consistent : AliasesConsistent before.aliases before.addrToAlias) (name : String) :
    after.aliasHistory name =
      if ai.aliasName = name then before.aliasHistory name ++ [ai.toExtraAliasEntryBase]
      else before.aliasHistory name := by
  obtain ⟨_, frame, _⟩ := putAliasInfo_spec run consistent
  have stored : after.aliases = before.aliases.set ai.aliasName
      (before.aliasHistory ai.aliasName ++ [ai.toExtraAliasEntryBase]) := by
    rw [frame]
  rw [Db.aliasHistory, stored, Container.get_set]
  split
  · next same =>
    rw [same]
    rfl
  · rfl

theorem Registry.step_pop {older : List ExtraAliasEntry}
    (run : popAliasInfo ai before = .ok () after) :
    Registry.step E .pop ⟨before, ai :: older⟩ = ⟨after, older⟩ := by
  unfold Registry.step
  dsimp only
  rw [run]

/-! ## Runs of the registry -/

namespace Registry.Sound

variable {registry : Registry}

theorem put (sound : registry.Sound E) (ai : ExtraAliasEntry) :
    (registry.step E (.put ai)).Sound E := by
  unfold Registry.step
  dsimp only
  cases run : putAliasInfo E ai registry.db with
  | error reason db =>
    obtain rfl := putAliasInfo_error run
    exact sound
  | ok result db =>
    obtain ⟨named, _, consistent⟩ := putAliasInfo_spec run sound.consistent
    have history := aliasHistory_put run sound.consistent
    refine ⟨consistent, fun name => ?_, fun other member => ?_, fun name => ?_⟩
    · change db.aliasHistory name = Registry.under (ai :: registry.entries) name
      rw [history, Registry.under_cons, sound.recorded]
    · rcases List.mem_cons.mp member with rfl | older
      · exact named
      · exact sound.named other older
    · change SignedHistory E name (db.aliasHistory name)
      rw [history]
      split
      · next same =>
        refine List.isChain_append.mpr ⟨sound.signed name, List.isChain_singleton _,
          fun old last new only => ?_⟩
        cases only
        rw [← same] at last ⊢
        exact putAliasInfo_signed run last
      · exact sound.signed name

/-- The newest entry can be taken back. -/
theorem pop_runs {older : List ExtraAliasEntry} {db : Db}
    (sound : Registry.Sound E ⟨db, ai :: older⟩) :
    ∃ after, popAliasInfo ai db = .ok () after ∧ Registry.Sound E ⟨after, older⟩ := by
  have last : db.aliasHistory ai.aliasName =
      Registry.under older ai.aliasName ++ [ai.toExtraAliasEntryBase] := by
    have all := sound.recorded ai.aliasName
    rwa [Registry.under_cons, if_pos rfl] at all
  obtain ⟨after, run, frame, consistent⟩ :=
    popAliasInfo_runs (sound.named ai List.mem_cons_self) sound.consistent last
  have history : ∀ name, after.aliasHistory name = Registry.under older name := by
    intro name
    calc after.aliasHistory name
        = (storeAliasHistory ai.aliasName (Registry.under older ai.aliasName) db).aliasHistory
            name := by
          rw [frame]
          rfl
      _ = Registry.under older name := by
          rw [aliasHistory_storeAliasHistory]
          split
          · next same => rw [same]
          · next apart =>
            have all := sound.recorded name
            rwa [Registry.under_cons, if_neg apart] at all
  refine ⟨after, run, consistent, history, fun other member => ?_, fun name => ?_⟩
  · exact sound.named other (List.mem_cons_of_mem _ member)
  · change SignedHistory E name (after.aliasHistory name)
    have whole := sound.signed name
    have all := sound.recorded name
    change SignedHistory E name (db.aliasHistory name) at whole
    change db.aliasHistory name = Registry.under (ai :: older) name at all
    rw [history]
    rw [all, Registry.under_cons] at whole
    split at whole
    · exact (List.isChain_append.mp whole).1
    · exact whole

theorem step (sound : registry.Sound E) (event : RegistryEvent) :
    (registry.step E event).Sound E := by
  cases event with
  | put ai => exact sound.put ai
  | pop =>
    obtain ⟨db, entries⟩ := registry
    cases entries with
    | nil => exact sound
    | cons ai older =>
      obtain ⟨after, run, popped⟩ := sound.pop_runs
      rw [Registry.step_pop run]
      exact popped

/-- A put entry takes a name from its owner only with the owner's signature. -/
theorem owner_put (sound : registry.Sound E) {name : String} {owner : AccountPublicAddress}
    (owned : ownerOf registry.db.aliases name = some owner)
    (moved : ownerOf (registry.step E (.put ai)).db.aliases name ≠ some owner) :
    ai.aliasName = name ∧ SignedWith E ai owner.spendPublicKey := by
  unfold Registry.step at moved
  dsimp only at moved
  cases run : putAliasInfo E ai registry.db with
  | error reason db =>
    rw [run, putAliasInfo_error run] at moved
    exact absurd owned moved
  | ok result db =>
    rw [run] at moved
    have history := aliasHistory_put run sound.consistent name
    rw [ownerOf_aliasHistory] at owned
    change ownerOf db.aliases name ≠ some owner at moved
    rw [ownerOf_aliasHistory, history] at moved
    by_cases same : ai.aliasName = name
    · subst same
      obtain ⟨last, found, rfl⟩ := Option.map_eq_some_iff.mp owned
      exact ⟨rfl, putAliasInfo_signed run found⟩
    · rw [if_neg same] at moved
      exact absurd owned moved

end Registry.Sound

theorem Registry.sound_of_reachable {registry : Registry}
    (reached : (registrySystem E).Reachable registry) : registry.Sound E := by
  refine reached.invariant (fun registry initial => ?_) fun event registry sound => sound.step event
  rw [show registry = ⟨{}, []⟩ from initial]
  refine ⟨⟨fun name => ?_, fun address set found => ?_, fun address name => ?_⟩, fun name => rfl,
    fun ai member => (by cases member), fun name => List.isChain_nil⟩
  · simp
  · simp at found
  · simp [hasName, ownerOf, contains_empty]

/-! ## The registry of a node -/

/-- A database with the registry of another one and nothing else. -/
def Db.registryOf (db : Db) : Db := { aliases := db.aliases, addrToAlias := db.addrToAlias }

/-- Putting an entry reads and changes the registry only. -/
theorem putAliasInfo_registryOf (run : putAliasInfo E ai before = .ok () after) :
    putAliasInfo E ai before.registryOf = .ok () after.registryOf := by
  simp only [putAliasInfo, Procedure.bind_ok, Procedure.require_ok, Procedure.get_ok] at run ⊢
  obtain ⟨_, _, ⟨named, rfl⟩, _, _, ⟨rfl, rfl⟩, run⟩ := run
  refine ⟨(), before.registryOf, ⟨named, rfl⟩, before.registryOf, before.registryOf, ⟨rfl, rfl⟩, ?_⟩
  cases last : ((before.aliases.get ai.aliasName).getD []).getLast? with
  | none =>
    have vacant : ((before.registryOf.aliases.get ai.aliasName).getD []).getLast? = none := last
    simp only [last, vacant, Procedure.bind_ok, Procedure.set_ok, Procedure.modify_ok] at run ⊢
    obtain ⟨_, _, rfl, rfl⟩ := run
    exact ⟨⟨⟩, _, rfl, rfl⟩
  | some owner =>
    have owned : ((before.registryOf.aliases.get ai.aliasName).getD []).getLast? = some owner :=
      last
    simp only [last, owned, Procedure.bind_ok, Procedure.demand_ok, Procedure.require_ok,
      Procedure.modify_ok] at run ⊢
    obtain ⟨sign, _, ⟨single, rfl⟩, _, _, ⟨verified, rfl⟩, _, _, rfl, _, _, rfl, rfl⟩ := run
    refine ⟨sign, _, ⟨single, rfl⟩, (), _, ⟨verified, rfl⟩, ⟨⟩, _, rfl, ⟨⟩, _, rfl, ?_⟩
    unfold removeAliasOfAddress Db.registryOf
    dsimp only
    split
    · rfl
    · rfl

/-- The registry of a built database is one that entries led to. -/
theorem Built.registry {db : Db} (built : Built E db) :
    ∃ entries, (registrySystem E).Reachable ⟨db.registryOf, entries⟩ := by
  refine built.txInvariant (P := fun db =>
    ∃ entries, (registrySystem E).Reachable ⟨db.registryOf, entries⟩) ⟨[], .start rfl⟩ ?_ ?_
  · rintro a b same ⟨entries, reached⟩
    refine ⟨entries, ?_⟩
    rwa [Db.registryOf, same.aliases, same.addrToAlias]
  · rintro height tx txId before after connects _ ⟨entries, reached⟩
    obtain ⟨aliased, spent, ⟨info, _, puts⟩, added, _, stored⟩ := connects.steps
    have spends := spends_of_addTransactionInputs added
    obtain ⟨indexes, indexed, pushed, rfl⟩ := storeTransaction_spec stored
    have index := indexes_of_pushOutputsFrom pushed
    have kept : ∀ transactions, Db.registryOf { indexed with transactions } =
        aliased.registryOf := by
      intro transactions
      unfold Db.registryOf
      dsimp only
      rw [index.frame, spends.frame]
    split at puts
    · subst puts
      exact ⟨entries, by rwa [kept]⟩
    · next entry _ =>
      refine ⟨entry :: entries, ?_⟩
      have stepped := reached.step (.put entry) trivial
      change (registrySystem E).Reachable (Registry.step E (.put entry) _) at stepped
      rw [kept]
      unfold Registry.step at stepped
      dsimp only at stepped
      rwa [putAliasInfo_registryOf puts] at stepped

/-- In every order of registrations, updates and their reverse pops, the registry is consistent:
an address has a name just when it is the last owner in the stored history of the name, nothing
stored is empty, the newest entry can always be taken back, and an owner loses a name only to an
entry that the owner signed. The main chain of every reachable state has such a registry. -/
theorem aliasRegistry_consistent (E : Env) :
    (∀ registry, (registrySystem E).Reachable registry →
      AliasesConsistent registry.db.aliases registry.db.addrToAlias ∧
      (∀ name, SignedHistory E name (registry.db.aliasHistory name)) ∧
      (∀ ai older, registry.entries = ai :: older →
        (registry.step E .pop).entries = older) ∧
      ∀ ai name owner, ownerOf registry.db.aliases name = some owner →
        ownerOf (registry.step E (.put ai)).db.aliases name ≠ some owner →
        ai.aliasName = name ∧ SignedWith E ai owner.spendPublicKey) ∧
    ∀ node, (nodeSystem E anyBlock).Reachable node →
      ∃ entries, (registrySystem E).Reachable ⟨node.chain.db.registryOf, entries⟩ := by
  refine ⟨fun registry reached => ?_,
    fun node reached => (NodeBuilt.reachable reached).1.built.registry⟩
  have sound := Registry.sound_of_reachable reached
  refine ⟨sound.consistent, sound.signed, fun ai older same => ?_,
    fun ai name owner owned moved => sound.owner_put owned moved⟩
  obtain ⟨db, entries⟩ := registry
  dsimp only at same
  subst same
  obtain ⟨after, run, popped⟩ := sound.pop_runs
  rw [Registry.step_pop run]

end Registry

namespace SharedAddress

/-- An entry of a name for one address, with signatures. -/
def entryFor (name : String) (sign : List Signature) : ExtraAliasEntry where
  aliasName := name
  address := ⟨⟨1⟩, ⟨2⟩⟩
  textComment := ""
  viewKey := []
  sign

/-- Two names of one address; the first is updated to the same address and the update is taken
back. -/
def registry : Registry :=
  (registrySystem .plain).after ⟨{}, []⟩
    [.put (entryFor "first" []), .put (entryFor "second" []), .put (entryFor "first" [⟨7⟩]), .pop]

theorem registry_consistent : registry.entries.length = 2 ∧
    AliasesConsistent registry.db.aliases registry.db.addrToAlias :=
  ⟨by decide, ((aliasRegistry_consistent .plain).1 registry
    (System.Reachable.after (.start rfl) _)).1⟩

end SharedAddress
end Virie
