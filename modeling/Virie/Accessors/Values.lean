import Virie.Accessors.Discipline

/-! # Reading and writing values

What the calls on a container do to its caches and to the backend. A container is faithful to
the entries that the threads which may use its caches see when the remembered number of
elements and the remembered values are the ones of these entries. -/

open Foundation

namespace Virie.Accessors

section Faithful

variable {T K V : Type} [Key K] {accessor : KeyValueAccessor T K V} {content : Container K V}

/-- The caches of a container remember nothing but its entries. -/
structure Faithful (accessor : KeyValueAccessor T K V) (content : Container K V) : Prop where
  size : accessor.sizeCacheValid = true → accessor.sizeCache = content.size
  values : ∀ cache, accessor.cache = some cache → ∀ k v, cache.cached k = some v →
    content.get k = some v

/-- A container that has forgotten its number of elements. -/
def KeyValueAccessor.uncounted (accessor : KeyValueAccessor T K V) : KeyValueAccessor T K V :=
  { accessor with sizeCacheValid := false }

/-- A container that remembers its number of elements. -/
def KeyValueAccessor.counted (size : Nat) (accessor : KeyValueAccessor T K V) :
    KeyValueAccessor T K V := { accessor with sizeCache := size, sizeCacheValid := true }

/-- A container with a change of its cache of values by a thread that may use it. -/
def KeyValueAccessor.recached [DecidableEq T] (t : T) (change : CacheBase K V → CacheBase K V)
    (accessor : KeyValueAccessor T K V) : KeyValueAccessor T K V :=
  if accessor.isolation.allows t then { accessor with cache := accessor.cache.map change }
  else accessor

/-- What the cache of values tells a thread that may use it. -/
def KeyValueAccessor.ask [DecidableEq T] {α : Type} (t : T) (without : α)
    (use : CacheBase K V → α) (accessor : KeyValueAccessor T K V) : α :=
  match accessor.cache with
  | none => without
  | some cache => if accessor.isolation.allows t then use cache else without

theorem Faithful.dropSize (faithful : Faithful accessor content) :
    Faithful accessor.uncounted content :=
  ⟨fun valid => absurd valid Bool.false_ne_true, faithful.values⟩

theorem Faithful.counted (faithful : Faithful accessor content) :
    Faithful (accessor.counted content.size) content :=
  ⟨fun _ => rfl, faithful.values⟩

theorem faithful_emptied
    (size : accessor.sizeCacheValid = true → accessor.sizeCache = content.size) :
    Faithful accessor.emptied content := by
  refine ⟨size, ?_⟩
  intro cache emptied k v remembered
  obtain ⟨before, _, rfl⟩ := Option.map_eq_some_iff.mp emptied
  rw [CacheBase.cached_clear] at remembered
  cases remembered

theorem Faithful.retold {accessor' : KeyValueAccessor T K V} (faithful : Faithful accessor content)
    (size : accessor'.sizeCache = accessor.sizeCache)
    (valid : accessor'.sizeCacheValid = accessor.sizeCacheValid)
    (cache : accessor'.cache = accessor.cache) : Faithful accessor' content := by
  refine ⟨?_, ?_⟩
  · rw [size, valid]
    exact faithful.size
  · rw [cache]
    exact faithful.values

/-- A change of the cache that adds nothing but entries of a container. -/
theorem Faithful.recached [DecidableEq T] {t : T} {change : CacheBase K V → CacheBase K V}
    (faithful : Faithful accessor content)
    (adds : accessor.isolation.allows t = true → ∀ cache, accessor.cache = some cache →
      ∀ k v, (change cache).cached k = some v → cache.cached k = some v ∨ content.get k = some v) :
    Faithful (accessor.recached t change) content := by
  unfold KeyValueAccessor.recached
  split
  · next allowed =>
    refine ⟨faithful.size, ?_⟩
    intro cache changed k v remembered
    obtain ⟨before, present, rfl⟩ := Option.map_eq_some_iff.mp changed
    rcases adds allowed before present k v remembered with old | entry
    · exact faithful.values before present k v old
    · exact entry
  · exact faithful

/-- After a write of one key the caches are faithful if they remember the new entry of the key
or none. -/
theorem Faithful.written [DecidableEq T] {t : T} {change : CacheBase K V → CacheBase K V}
    {content' : Container K V} (faithful : Faithful accessor content)
    (allowed : accessor.isolation.allows t = true)
    (keeps : ∀ cache k v, accessor.cache = some cache → (change cache).cached k = some v →
      content'.get k = some v ∨ cache.cached k = some v ∧ content'.get k = content.get k) :
    Faithful (accessor.uncounted.recached t change) content' := by
  have open_ : accessor.uncounted.isolation.allows t = true := allowed
  unfold KeyValueAccessor.recached
  rw [if_pos open_]
  refine ⟨fun valid => absurd valid Bool.false_ne_true, ?_⟩
  intro cache changed k v remembered
  obtain ⟨before, present, rfl⟩ := Option.map_eq_some_iff.mp changed
  rcases keeps before k v present remembered with entry | ⟨old, same⟩
  · exact entry
  · rw [same]
    exact faithful.values before present k v old

end Faithful

/-! ## The calls -/

section Calls

variable {T H K V : Type} [DecidableEq T] [FinEnum H] [Key K]
  {db : DbAccessor T H K V} {t : T} {h : H} {k : K}

open Procedure

/-- The database with another backend. -/
def DbAccessor.withBackend (db : DbAccessor T H K V) (backend : Backend T H K V) :
    DbAccessor T H K V := { db with backend }

theorem onCache_run {α : Type} (t : T) (h : H) (db : DbAccessor T H K V) (without : α)
    (use : CacheBase K V → α × CacheBase K V) :
    onCache t h without use db =
      .ok ((db.containers h).ask t without fun cache => (use cache).1)
        (db.changed h (.recached t fun cache => (use cache).2)) := by
  unfold onCache KeyValueAccessor.ask
  dsimp only
  cases present : (db.containers h).cache with
  | none =>
    dsimp only
    rw [changed_same]
    unfold KeyValueAccessor.recached
    rw [present, Option.map_none, ← present, ite_self]
  | some cache =>
    dsimp only
    cases allowed : (db.containers h).isolation.allows t with
    | true =>
      unfold DbAccessor.changed KeyValueAccessor.recached
      rw [if_pos rfl, if_pos rfl, if_pos allowed, present]
      rfl
    | false =>
      rw [if_neg Bool.false_ne_true, if_neg Bool.false_ne_true, changed_same]
      unfold KeyValueAccessor.recached
      rw [if_neg (ne_true_of_eq_false allowed)]

theorem setValue_run (db : DbAccessor T H K V) (t : T) (h : H) (k : K) (v : V) :
    ∃ r, setValue t h k v db =
    .ok r ((db.withBackend (db.backend.set t h k v).2).changed h fun accessor =>
      accessor.uncounted.recached t fun cache => cache.set k v) := by
  have drops : dropSizeCache h db = .ok () (db.changed h .uncounted) := rfl
  have sets : onBackend (fun backend => backend.set t h k v) (db.changed h .uncounted) =
      .ok (db.backend.set t h k v).1
        ((db.withBackend (db.backend.set t h k v).2).changed h .uncounted) := rfl
  rw [setValue, bind_of_ok drops, bind_of_ok sets, bind_of_ok (onCache_run _ _ _ _ _), changed_changed]
  exact ⟨_, rfl⟩

/-- A query for a key that the cache answers. -/
theorem getValue_cached {v : V}
    (asked : ((db.containers h).ask t none fun cache => cache.cached k) = some v) :
    getValue t h k db = .ok (some v) (db.changed h (.recached t fun cache => cache.touch k)) := by
  have remembers := onCache_run t h db none fun cache => cache.get k
  change _ = EStateM.Result.ok ((db.containers h).ask t none fun cache => cache.cached k) _
    at remembers
  rw [asked] at remembers
  rw [getValue, bind_of_ok remembers]
  rfl

/-- A query for a key that the cache does not answer: the backend does, and the value of a key
that is there is remembered. -/
theorem getValue_uncached
    (asked : ((db.containers h).ask t none fun cache => cache.cached k) = none) :
    getValue t h k db = .ok (db.backend.get t h k) (db.changed h fun accessor =>
      (db.backend.get t h k).elim (accessor.recached t fun cache => cache.touch k) fun v =>
        (accessor.recached t fun cache => cache.touch k).recached t fun cache => cache.set k v) := by
  have remembers := onCache_run t h db none fun cache => cache.get k
  change _ = EStateM.Result.ok ((db.containers h).ask t none fun cache => cache.cached k) _
    at remembers
  rw [asked] at remembers
  rw [getValue, bind_of_ok remembers]
  dsimp only
  rw [get_bind]
  change _ = EStateM.Result.ok (db.backend.get t h k) _
  have same : (db.changed h (.recached t fun cache => (cache.get k).2)).backend = db.backend := rfl
  rw [same]
  cases found : db.backend.get t h k with
  | none => rfl
  | some v =>
    dsimp only
    rw [bind_of_ok (onCache_run _ _ _ _ _), changed_changed]
    rfl

theorem sizeOf_run : sizeOf t h db =
    if (db.containers h).isolation.allows t then
      if (db.containers h).sizeCacheValid then .ok (db.containers h).sizeCache db
      else .ok (db.backend.size t h) (db.changed h (.counted (db.backend.size t h)))
    else .ok (db.backend.size t h) db := by
  rw [sizeOf, get_bind]
  cases (db.containers h).isolation.allows t with
  | false => rfl
  | true =>
    cases (db.containers h).sizeCacheValid with
    | true => rfl
    | false => rfl

theorem isolatedWriteAccess_run (t : T) (h : H) (db : DbAccessor T H K V) : isolatedWriteAccess t h db =
    if (db.containers h).isolation.allows t then .ok () (db.changed h .uncounted)
    else .error .thrown db := by
  rw [isolatedWriteAccess, get_bind]
  split
  · rfl
  · rfl

theorem allows_recached (accessor : KeyValueAccessor T K V) (u : T)
    (change : CacheBase K V → CacheBase K V) :
    (accessor.recached u change).isolation = accessor.isolation := by
  unfold KeyValueAccessor.recached
  split
  · rfl
  · rfl

theorem clearValues_final : final (clearValues t h db) =
    (db.withBackend (db.backend.clear t h).2).changed h fun accessor =>
      if accessor.isolation.allows t then (accessor.recached t .clear).uncounted
      else accessor := by
  have clears : onBackend (fun backend => backend.clear t h) (db.changed h (.recached t .clear)) =
      .ok (db.backend.clear t h).1
        ((db.withBackend (db.backend.clear t h).2).changed h (.recached t .clear)) := rfl
  have writes := isolatedWriteAccess_run t h
    ((db.withBackend (db.backend.clear t h).2).changed h (.recached t .clear))
  have allows : ((((db.withBackend (db.backend.clear t h).2).changed h
      (.recached t .clear)).containers h).isolation.allows t) =
      (db.containers h).isolation.allows t := by
    change (Function.update db.containers h _ h).isolation.allows t = _
    rw [Function.update_self, allows_recached]
    rfl
  rw [allows] at writes
  rw [clearValues, bind_of_ok (onCache_run _ _ _ _ _), bind_of_ok clears]
  by_cases allowed : (db.containers h).isolation.allows t = true
  · rw [if_pos allowed, changed_changed] at writes
    rw [bind_of_ok writes, final_pure]
    apply changed_congr
    exact (if_pos allowed).symm
  · rw [if_neg allowed] at writes
    rw [bind_of_error writes]
    apply changed_congr
    exact (if_neg allowed).trans (if_neg allowed).symm

theorem eraseValue_final : final (eraseValue t h k db) =
    (db.withBackend (db.backend.erase t h k).2).changed h fun accessor =>
      if accessor.isolation.allows t then accessor.uncounted.recached t fun cache => cache.erase k
      else accessor := by
  have erases : onBackend (fun backend => backend.erase t h k) db =
      .ok (db.backend.erase t h k).1 (db.withBackend (db.backend.erase t h k).2) := rfl
  have writes := isolatedWriteAccess_run t h
    (db.withBackend (db.backend.erase t h k).2)
  change _ = if (db.containers h).isolation.allows t then _ else _ at writes
  rw [eraseValue, bind_of_ok erases]
  by_cases allowed : (db.containers h).isolation.allows t = true
  · rw [if_pos allowed] at writes
    rw [bind_of_ok writes, bind_of_ok (onCache_run _ _ _ _ _), changed_changed,
      final_pure]
    apply changed_congr
    exact (if_pos allowed).symm
  · rw [if_neg allowed] at writes
    rw [bind_of_error writes]
    symm
    apply changed_same
    exact if_neg allowed

end Calls
end Virie.Accessors
