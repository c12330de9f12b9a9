import Virie.Accessors.Values

/-! # Coherence of the accessors

The caches of a container are coherent when they are faithful to what the threads that may use
them see: the pending write transaction of the thread they are reserved to, or the committed
state. Then every query answers what the calling thread sees in the backend. The calls on a
container keep the caches coherent, apart from setting a value that the backend refuses. -/

open Foundation

namespace Virie.Accessors

section Coherence

variable {T H K V : Type} [Key K] {db : DbAccessor T H K V} {t : T} {h : H} {k : K}

open Procedure Backend

/-- What the threads that may use the caches of a container see of it. -/
def DbAccessor.sharedView (db : DbAccessor T H K V) (h : H) : Container K V :=
  match (db.containers h).isolation.currentWriterThread with
  | none => db.backend.committed h
  | some writer => db.backend.view writer h

/-- The caches remember what their threads see, and open snapshots are the committed state. -/
structure Coherent (db : DbAccessor T H K V) : Prop where
  faithful : ∀ h, Faithful (db.containers h) (db.sharedView h)
  snapshots : ∀ t, ∀ entry ∈ db.backend.txs t, entry.readOnly = true →
    entry.content = db.backend.committed

/-- The discipline and the coherence of the caches. -/
structure Sound (db : DbAccessor T H K V) : Prop where
  disciplined : Disciplined db
  coherent : Coherent db

theorem sharedView_free (free : (db.containers h).isolation = ⟨none⟩) :
    db.sharedView h = db.backend.committed h := by
  rw [DbAccessor.sharedView, free]

theorem sharedView_reserved (reserved : (db.containers h).isolation = ⟨some t⟩) :
    db.sharedView h = db.backend.view t h := by
  rw [DbAccessor.sharedView, reserved]

/-- A thread without write transactions sees the committed state. -/
theorem Coherent.view_committed (coherent : Coherent db) (held : Disciplined db)
    (none : writers (db.backend.txs t) = 0) : db.backend.view t = db.backend.committed := by
  unfold Backend.view
  rcases (held.nested t).of_no_writers none with empty | ⟨entry, single, readOnly⟩
  · rw [empty, shown]
  · rw [single, shown]
    apply coherent.snapshots t entry _ readOnly
    rw [single]
    exact List.mem_singleton.mpr rfl

theorem Sound.regions (sound : Sound db) (regions : T → List (TransactionRegion H)) :
    Sound { db with regions } :=
  ⟨⟨sound.1.nested, sound.1.stack, sound.1.locked, sound.1.isolated⟩,
    ⟨sound.2.faithful, sound.2.snapshots⟩⟩

theorem DbAccessor.Opened.sound (opened : db.Opened) : Sound db := by
  obtain ⟨lists, _, empty, _, containers⟩ := opened
  have idle : ∀ t, writers (db.backend.txs t) = 0 := by
    intro t
    rw [lists t, writers_nil]
  refine ⟨⟨fun t => ?_, fun t => ?_, fun t writing => ?_, fun h t => ?_⟩,
    ⟨fun h => ⟨fun valid => ?_, fun cache present k v remembered => ?_⟩, fun t entry member => ?_⟩⟩
  · rw [lists t]
    exact .empty
  · rw [lists t, empty t, stackOf_nil]
  · rw [idle t] at writing
    exact absurd writing (Nat.lt_irrefl 0)
  · rw [(containers h).2.1, idle t]
    constructor
    · intro same
      cases same
    · intro writing
      exact absurd writing (Nat.lt_irrefl 0)
  · rw [(containers h).1] at valid
    cases valid
  · have forgotten := (containers h).2.2 cache present
    rw [CacheBase.cached, forgotten, Container.get_empty] at remembered
    cases remembered
  · rw [lists t] at member
    cases member

section Containers

variable [FinEnum H]

theorem sharedView_changed {change : KeyValueAccessor T K V → KeyValueAccessor T K V}
    (same : (change (db.containers h)).isolation = (db.containers h).isolation) (g : H) :
    (db.changed h change).sharedView g = db.sharedView g := by
  have isolation : ((db.changed h change).containers g).isolation =
      (db.containers g).isolation := by
    change (Function.update db.containers h _ g).isolation = _
    by_cases here : g = h
    · subst here
      rw [Function.update_self, same]
    · rw [Function.update_of_ne here]
  unfold DbAccessor.sharedView
  rw [isolation]
  rfl

theorem Coherent.changed (coherent : Coherent db)
    {change : KeyValueAccessor T K V → KeyValueAccessor T K V}
    (same : (change (db.containers h)).isolation = (db.containers h).isolation)
    (faithful : Faithful (change (db.containers h)) (db.sharedView h)) :
    Coherent (db.changed h change) := by
  refine ⟨fun g => ?_, coherent.snapshots⟩
  rw [sharedView_changed same]
  change Faithful (Function.update db.containers h _ g) _
  by_cases here : g = h
  · subst here
    rw [Function.update_self]
    exact faithful
  · rw [Function.update_of_ne here]
    exact coherent.faithful g

theorem Disciplined.changed (held : Disciplined db)
    {change : KeyValueAccessor T K V → KeyValueAccessor T K V}
    (same : (change (db.containers h)).isolation = (db.containers h).isolation) :
    Disciplined (db.changed h change) := by
  refine ⟨held.nested, held.stack, held.locked, fun g u => ?_⟩
  change (Function.update db.containers h _ g).isolation = _ ↔ _
  by_cases here : g = h
  · subst here
    rw [Function.update_self, same]
    exact held.isolated g u
  · rw [Function.update_of_ne here]
    exact held.isolated g u

/-- A change of one container that keeps it faithful. -/
theorem Sound.changed (sound : Sound db)
    {change : KeyValueAccessor T K V → KeyValueAccessor T K V}
    (same : (change (db.containers h)).isolation = (db.containers h).isolation)
    (faithful : Faithful (change (db.containers h)) (db.sharedView h)) :
    Sound (db.changed h change) :=
  ⟨sound.disciplined.changed same, sound.coherent.changed same faithful⟩

theorem Sound.dropSizeCache (sound : Sound db) : Sound (db.changed h .uncounted) :=
  sound.changed rfl (sound.coherent.faithful h).dropSize

end Containers

variable [DecidableEq T]

/-- A thread that may use the caches of a container sees what they are about. -/
theorem Coherent.view_shared (coherent : Coherent db) (held : Disciplined db)
    (allowed : (db.containers h).isolation.allows t = true) :
    db.backend.view t h = db.sharedView h := by
  cases reserved : (db.containers h).isolation with
  | mk writer =>
    cases writer with
    | none =>
      rw [sharedView_free reserved, coherent.view_committed held]
      by_contra busy
      have taken := held.reserved (Nat.pos_iff_ne_zero.mpr busy) h
      rw [reserved] at taken
      cases taken
    | some w =>
      rw [sharedView_reserved reserved]
      rw [reserved] at allowed
      have same : w = t := of_decide_eq_true allowed
      rw [same]

variable [FinEnum H]

/-! ## Queries -/

theorem getValue_answer (coherent : Coherent db) (held : Disciplined db) :
    answer (getValue t h k db) = .ok ((db.backend.view t h).get k) := by
  cases asked : (db.containers h).ask t none fun cache => cache.cached k with
  | none =>
    rw [getValue_uncached asked]
    rfl
  | some v =>
    rw [getValue_cached asked]
    unfold KeyValueAccessor.ask at asked
    cases present : (db.containers h).cache with
    | none =>
      rw [present] at asked
      cases asked
    | some cache =>
      rw [present] at asked
      dsimp only at asked
      split at asked
      · next allowed =>
        rw [coherent.view_shared held allowed,
          (coherent.faithful h).values cache present k v asked]
        rfl
      · cases asked

theorem sizeOf_answer (coherent : Coherent db) (held : Disciplined db) :
    answer (sizeOf t h db) = .ok (db.backend.view t h).size := by
  rw [sizeOf_run]
  split
  · next allowed =>
    split
    · next valid =>
      rw [coherent.view_shared held allowed, ← (coherent.faithful h).size valid]
      rfl
    · rfl
  · rfl

/-! ## What calls on a container keep -/

/-- A write reaches the backend from a thread in a write transaction, and is refused to others. -/
theorem write_cases (held : Disciplined db) (t : T) (h : H)
    (f : Container K V → Container K V) :
    (∃ entry rest, db.backend.txs t = entry :: rest ∧ entry.readOnly = false ∧
      db.backend.write t h f = (true, db.backend.withTxs t
        ({ entry with content := Function.update entry.content h (f (entry.content h)) } ::
          rest))) ∨
    writers (db.backend.txs t) = 0 ∧ db.backend.write t h f = (false, db.backend) := by
  have nested := held.nested t
  unfold Backend.write
  generalize db.backend.txs t = txs at nested
  cases nested with
  | empty => exact .inr ⟨rfl, rfl⟩
  | @snapshot entry readOnly counted =>
    refine .inr ⟨writers_cons_readOnly readOnly [], ?_⟩
    dsimp only
    rw [if_pos readOnly]
  | @write entry rest writes below =>
    refine .inl ⟨entry, rest, rfl, writes, ?_⟩
    dsimp only
    rw [if_neg (ne_true_of_eq_false writes)]
    rfl

/-- A write of a container, with the change of its caches: it is the thread in the write
transaction that sees the new entries. -/
theorem Sound.wrote (sound : Sound db) {f : Container K V → Container K V}
    {change : KeyValueAccessor T K V → KeyValueAccessor T K V}
    (same : (change (db.containers h)).isolation = (db.containers h).isolation)
    (granted : (db.containers h).isolation.allows t = true →
      Faithful (change (db.containers h)) (f (db.sharedView h)))
    (refused : writers (db.backend.txs t) = 0 →
      Faithful (change (db.containers h)) (db.sharedView h)) :
    Sound ((db.withBackend (db.backend.write t h f).2).changed h change) := by
  have held := sound.disciplined
  rcases write_cases held t h f with ⟨entry, rest, split, writes, wrote⟩ | ⟨none, unwritten⟩
  · rw [wrote]
    dsimp only
    have writing : 0 < writers (db.backend.txs t) := by
      rw [split, writers_cons_write writes]
      exact Nat.succ_pos _
    have reserved := held.reserved writing
    have shared : ∀ g, db.sharedView g = entry.content g := by
      intro g
      rw [sharedView_reserved (reserved g), Backend.view, split, shown]
    have nested : WellNested (entry :: rest) := split ▸ held.nested t
    have below : WellNested rest := by
      cases nested with
      | snapshot readOnly counted => exact .empty
      | write _ below => exact below
    let entry' : TxEntry H K V :=
      { entry with content := Function.update entry.content h (f (entry.content h)) }
    have stillWrites : entry'.readOnly = false := writes
    have relisted : Disciplined
        (db.moved (db.backend.withTxs t (entry' :: rest)) t (stackOf (entry' :: rest))) := by
      refine held.relisted (.write stillWrites below) ?_
      rw [split, writers_cons_write stillWrites, writers_cons_write writes]
    have stack : stackOf (entry' :: rest) = db.transactionsStack t := by
      rw [held.stack t, split]
      rfl
    rw [stack] at relisted
    have moved : db.moved (db.backend.withTxs t (entry' :: rest)) t (db.transactionsStack t) =
        db.withBackend (db.backend.withTxs t (entry' :: rest)) := by
      unfold DbAccessor.moved DbAccessor.withBackend
      rw [Function.update_eq_self]
    rw [moved] at relisted
    refine ⟨relisted.changed same, ⟨fun g => ?_, fun u other member readOnly => ?_⟩⟩
    · have view : ((db.withBackend (db.backend.withTxs t (entry' :: rest))).changed h
          change).sharedView g = Function.update entry.content h (f (entry.content h)) g := by
        refine (sharedView_changed (by exact same) g).trans ?_
        refine (sharedView_reserved (by exact reserved g)).trans ?_
        change shown _ (Function.update db.backend.txs t (entry' :: rest) t) g = _
        rw [Function.update_self, shown]
      rw [view]
      change Faithful (Function.update db.containers h _ g) _
      by_cases here : g = h
      · subst here
        rw [Function.update_self, Function.update_self, ← shared]
        apply granted
        rw [reserved]
        exact decide_eq_true rfl
      · rw [Function.update_of_ne here, Function.update_of_ne here, ← shared]
        exact sound.coherent.faithful g
    · change other ∈ Function.update db.backend.txs t (entry' :: rest) u at member
      change other.content = db.backend.committed
      by_cases here : u = t
      · subst here
        rw [Function.update_self] at member
        rcases List.mem_cons.mp member with rfl | member
        · rw [stillWrites] at readOnly
          cases readOnly
        · apply sound.coherent.snapshots u other _ readOnly
          rw [split]
          exact List.mem_cons_of_mem _ member
      · rw [Function.update_of_ne here] at member
        exact sound.coherent.snapshots u other member readOnly
  · rw [unwritten]
    exact sound.changed same (refused none)

theorem Sound.setValue (sound : Sound db) (v : V)
    (free : (db.containers h).cache = none ∨ (db.containers h).isolation.allows t = false ∨
      0 < writers (db.backend.txs t)) :
    Sound (final (Accessors.setValue t h k v db)) := by
  obtain ⟨r, run⟩ := setValue_run db t h k v
  rw [run, final_ok]
  have faithful := sound.coherent.faithful h
  apply sound.wrote
  · exact allows_recached _ _ _
  · intro allowed
    apply faithful.written allowed
    intro cache l w _ remembered
    rcases CacheBase.cached_of_set remembered with ⟨rfl, rfl⟩ | ⟨apart, old⟩
    · exact .inl (Container.get_set_self _ _ _)
    · exact .inr ⟨old, Container.get_set_of_ne _ _ (Ne.symm apart)⟩
  · intro none
    apply faithful.dropSize.recached
    intro allowed cache present
    rcases free with uncached | isolated | writing
    · change (db.containers h).cache = some cache at present
      rw [uncached] at present
      cases present
    · change (db.containers h).isolation.allows t = true at allowed
      rw [isolated] at allowed
      cases allowed
    · omega

theorem Sound.eraseValue (sound : Sound db) : Sound (final (Accessors.eraseValue t h k db)) := by
  rw [eraseValue_final]
  have faithful := sound.coherent.faithful h
  apply sound.wrote
  · split
    · exact allows_recached _ _ _
    · rfl
  · intro allowed
    rw [if_pos allowed]
    apply faithful.written allowed
    intro cache l w _ remembered
    right
    refine ⟨CacheBase.cached_of_erase remembered, Container.get_erase_of_ne _ ?_⟩
    rintro rfl
    rw [CacheBase.cached_erase_self] at remembered
    cases remembered
  · intro _
    split
    · apply faithful.dropSize.recached
      intro _ cache _ l w remembered
      exact .inl (CacheBase.cached_of_erase remembered)
    · exact faithful

theorem Sound.clearValues (sound : Sound db) : Sound (final (Accessors.clearValues t h db)) := by
  rw [clearValues_final]
  have faithful := sound.coherent.faithful h
  have emptied : ∀ content', (db.containers h).isolation.allows t = true →
      Faithful ((db.containers h).recached t .clear).uncounted content' := by
    intro content' allowed
    refine ⟨fun valid => absurd valid Bool.false_ne_true, ?_⟩
    intro cache changed l w remembered
    unfold KeyValueAccessor.recached KeyValueAccessor.uncounted at changed
    rw [if_pos allowed] at changed
    obtain ⟨before, _, rfl⟩ := Option.map_eq_some_iff.mp changed
    rw [CacheBase.cached_clear] at remembered
    cases remembered
  apply sound.wrote
  · split
    · exact allows_recached _ _ _
    · rfl
  · intro allowed
    rw [if_pos allowed]
    exact emptied _ allowed
  · intro _
    split
    · next allowed => exact emptied _ allowed
    · exact faithful

theorem Sound.getValue (sound : Sound db) : Sound (final (Accessors.getValue t h k db)) := by
  have faithful := sound.coherent.faithful h
  have touched : Faithful ((db.containers h).recached t fun cache => cache.touch k)
      (db.sharedView h) := by
    apply faithful.recached
    intro _ cache _ l w remembered
    rw [CacheBase.cached_touch] at remembered
    exact .inl remembered
  cases asked : (db.containers h).ask t none fun cache => cache.cached k with
  | some v =>
    rw [getValue_cached asked, final_ok]
    exact sound.changed (allows_recached _ _ _) touched
  | none =>
    rw [getValue_uncached asked, final_ok]
    cases found : db.backend.get t h k with
    | none => exact sound.changed (allows_recached _ _ _) touched
    | some v =>
      apply sound.changed
      · rw [Option.elim_some, allows_recached, allows_recached]
      · rw [Option.elim_some]
        apply touched.recached
        intro allowed cache _ l w remembered
        rw [allows_recached] at allowed
        rcases CacheBase.cached_of_set remembered with ⟨rfl, rfl⟩ | ⟨_, old⟩
        · right
          rw [← sound.coherent.view_shared sound.disciplined allowed]
          exact found
        · exact .inl old

theorem Sound.sizeOf (sound : Sound db) : Sound (final (Accessors.sizeOf t h db)) := by
  rw [sizeOf_run]
  split
  · next allowed =>
    split
    · exact sound
    · rw [final_ok]
      apply sound.changed
      · rfl
      · have size : db.backend.size t h = (db.sharedView h).size := by
          rw [← sound.coherent.view_shared sound.disciplined allowed]
          rfl
        rw [size]
        exact (sound.coherent.faithful h).counted
  · exact sound

end Coherence
end Virie.Accessors
