import Virie.Accessors.Lists

/-! # The discipline of the transactions

Whatever calls are made, the stack of transactions of a thread is the one its list in the
backend unfolds to, at most one thread has write transactions, that thread holds the lock, and
the caches are reserved to it. So telling the containers about a write transaction never
fails, and every way to begin, commit and abort a transaction is an update of the state. -/

open Foundation

namespace Virie.Accessors

/-! ## Telling the containers -/

section Telling

variable {T H K V : Type} [FinEnum H] [Key K] {db : DbAccessor T H K V} {t : T}

open Procedure

/-- A container whose caches are reserved to a thread. -/
def KeyValueAccessor.reserved (t : T) (accessor : KeyValueAccessor T K V) :
    KeyValueAccessor T K V := { accessor with isolation := ⟨some t⟩ }

/-- A container whose caches are open to every thread. -/
def KeyValueAccessor.released (accessor : KeyValueAccessor T K V) : KeyValueAccessor T K V :=
  { accessor with isolation := ⟨none⟩ }

/-- A container that remembers no values. -/
def KeyValueAccessor.emptied (accessor : KeyValueAccessor T K V) : KeyValueAccessor T K V :=
  { accessor with cache := accessor.cache.map .clear }

/-- The database with one change made to every container. -/
def DbAccessor.tell (db : DbAccessor T H K V)
    (change : KeyValueAccessor T K V → KeyValueAccessor T K V) : DbAccessor T H K V :=
  { db with containers := fun h => change (db.containers h) }

/-- The database with a change made to one container. -/
def DbAccessor.changed (db : DbAccessor T H K V) (h : H)
    (change : KeyValueAccessor T K V → KeyValueAccessor T K V) : DbAccessor T H K V :=
  { db with containers := Function.update db.containers h (change (db.containers h)) }

theorem onContainer_eq (h : H) (change : KeyValueAccessor T K V → KeyValueAccessor T K V)
    (db : DbAccessor T H K V) : onContainer h change db = .ok () (db.changed h change) := rfl

@[simp] theorem changed_changed (db : DbAccessor T H K V) (h : H)
    (first second : KeyValueAccessor T K V → KeyValueAccessor T K V) :
    (db.changed h first).changed h second = db.changed h fun accessor => second (first accessor) := by
  unfold DbAccessor.changed
  dsimp only
  rw [Function.update_idem, Function.update_self]

theorem changed_congr {h : H} {first second : KeyValueAccessor T K V → KeyValueAccessor T K V}
    (same : first (db.containers h) = second (db.containers h)) :
    db.changed h first = db.changed h second := by
  unfold DbAccessor.changed
  rw [same]

theorem changed_same {h : H} {change : KeyValueAccessor T K V → KeyValueAccessor T K V}
    (same : change (db.containers h) = db.containers h) : db.changed h change = db := by
  unfold DbAccessor.changed
  rw [same, Function.update_eq_self]

theorem forEach_containers {body : H → DbCall T H K V Unit}
    {change : KeyValueAccessor T K V → KeyValueAccessor T K V}
    (ready : KeyValueAccessor T K V → Prop)
    (changes : ∀ h db, ready (db.containers h) →
      body h db = .ok () (db.changed h change)) :
    ∀ (containers : List H) (db : DbAccessor T H K V), containers.Nodup →
      (∀ h ∈ containers, ready (db.containers h)) →
      forEach body containers db = .ok () { db with
        containers := fun h =>
          if h ∈ containers then change (db.containers h) else db.containers h } := by
  intro containers
  induction containers with
  | nil =>
    intro db _ _
    simp only [List.not_mem_nil, ↓reduceIte]
    rfl
  | cons first rest ih =>
    intro db distinct readies
    obtain ⟨fresh, distinct⟩ := List.nodup_cons.mp distinct
    rw [forEach, bind_of_ok (changes first db (readies first List.mem_cons_self)), ih _ distinct]
    · congr 2
      funext h
      unfold DbAccessor.changed
      dsimp only
      by_cases same : h = first
      · subst same
        rw [if_neg fresh, if_pos List.mem_cons_self, Function.update_self]
      · rw [Function.update_of_ne same]
        simp only [List.mem_cons, same, false_or]
    · intro h member
      have apart : h ≠ first := fun same => fresh (same ▸ member)
      change ready (Function.update db.containers first _ h)
      rw [Function.update_of_ne apart]
      exact readies h (List.mem_cons_of_mem _ member)

theorem tell_containers {body : H → DbCall T H K V Unit}
    {change : KeyValueAccessor T K V → KeyValueAccessor T K V}
    (ready : KeyValueAccessor T K V → Prop)
    (changes : ∀ h db, ready (db.containers h) →
      body h db = .ok () (db.changed h change))
    (readies : ∀ h, ready (db.containers h)) :
    forEach body (FinEnum.toList H) db = .ok () (db.tell change) := by
  rw [forEach_containers ready changes _ _ FinEnum.nodup_toList fun h _ => readies h]
  simp only [FinEnum.mem_toList, ↓reduceIte]
  rfl

theorem tell_begin (free : ∀ h, (db.containers h).isolation = ⟨none⟩) :
    forEach (onWriteTransactionBegin t) (FinEnum.toList H) db =
      .ok () (db.tell (KeyValueAccessor.reserved t)) := by
  refine tell_containers (fun accessor => accessor.isolation = ⟨none⟩) ?_ free
  intro h db open_
  rw [onWriteTransactionBegin, setIsolationMode, get_bind, open_]
  rfl

theorem tell_commit (taken : ∀ h, (db.containers h).isolation = ⟨some t⟩) :
    forEach onWriteTransactionCommit (FinEnum.toList H) db =
      .ok () (db.tell KeyValueAccessor.released) := by
  refine tell_containers (fun accessor => accessor.isolation = ⟨some t⟩) ?_ taken
  intro h db reserved
  rw [onWriteTransactionCommit, resetIsolationMode, get_bind, reserved]
  rfl

theorem tell_abort [DecidableEq T] (taken : ∀ h, (db.containers h).isolation = ⟨some t⟩) :
    forEach (onWriteTransactionAbort t) (FinEnum.toList H) db =
      .ok () (db.tell fun accessor => accessor.emptied.released) := by
  refine tell_containers (fun accessor => accessor.isolation = ⟨some t⟩) ?_ taken
  intro h db reserved
  have allowed : (db.containers h).isolation.allows t = true := by
    rw [reserved]
    exact decide_eq_true rfl
  have cleared : clearCache t h db = .ok () (db.changed h .emptied) := by
    rw [clearCache, onContainer_eq, DbAccessor.changed, if_pos allowed]
    rfl
  have still : ((db.changed h .emptied).containers h).isolation = ⟨some t⟩ := by
    change (Function.update db.containers h _ h).isolation = _
    rw [Function.update_self]
    exact reserved
  rw [onWriteTransactionAbort, bind_of_ok cleared, resetIsolationMode, get_bind, still]
  change EStateM.Result.ok () ((db.changed h .emptied).changed h .released) = _
  rw [changed_changed]

end Telling

/-! ## Beginning and ending -/

section Ending

variable {T H K V : Type} [Key K] {db : DbAccessor T H K V} {t u : T}

open Procedure Backend

/-- Stacks and lists agree, and the caches are reserved to the thread that holds the lock. -/
structure Disciplined (db : DbAccessor T H K V) : Prop where
  nested : ∀ t, WellNested (db.backend.txs t)
  stack : ∀ t, db.transactionsStack t = stackOf (db.backend.txs t)
  locked : ∀ t, 0 < writers (db.backend.txs t) →
    ∃ held, db.backend.writeExclusiveLock = some (t, held) ∧ writers (db.backend.txs t) ≤ held
  isolated : ∀ h t,
    (db.containers h).isolation = ⟨some t⟩ ↔ 0 < writers (db.backend.txs t)

theorem Disciplined.alone (held : Disciplined db) (first : 0 < writers (db.backend.txs t))
    (second : 0 < writers (db.backend.txs u)) : t = u := by
  obtain ⟨_, firstLock, _⟩ := held.locked t first
  obtain ⟨_, secondLock, _⟩ := held.locked u second
  rw [firstLock] at secondLock
  cases secondLock
  rfl

theorem Disciplined.free (held : Disciplined db) (idle : ∀ t, writers (db.backend.txs t) = 0)
    (h : H) : (db.containers h).isolation = ⟨none⟩ := by
  cases reserved : (db.containers h).isolation with
  | mk writer =>
    cases writer with
    | none => rfl
    | some t =>
      have writing := (held.isolated h t).mp reserved
      rw [idle t] at writing
      exact absurd writing (Nat.lt_irrefl 0)

/-- While a thread has a write transaction, the caches are reserved to it. -/
theorem Disciplined.reserved (held : Disciplined db) (writing : 0 < writers (db.backend.txs t))
    (h : H) : (db.containers h).isolation = ⟨some t⟩ := (held.isolated h t).mpr writing

section Updates

variable [DecidableEq T]

/-- The backend with another list of transactions of a thread. -/
def Backend.withTxs (b : Backend T H K V) (t : T) (txs : List (TxEntry H K V)) :
    Backend T H K V := { b with txs := Function.update b.txs t txs }

/-- The backend with the lock of the write transactions released once. -/
def Backend.unlocked (b : Backend T H K V) : Backend T H K V :=
  { b with writeExclusiveLock := unlockWrite b.writeExclusiveLock }

/-- The database with another backend and another stack of a thread. -/
def DbAccessor.moved (db : DbAccessor T H K V) (backend : Backend T H K V) (t : T)
    (stack : List Bool) : DbAccessor T H K V :=
  { db with backend, transactionsStack := Function.update db.transactionsStack t stack }

/-- The containers are told that a thread's outermost write transaction has ended. -/
def DbAccessor.closing (db : DbAccessor T H K V) (rest : List (TxEntry H K V))
    (change : KeyValueAccessor T K V → KeyValueAccessor T K V) : DbAccessor T H K V :=
  if writers rest = 0 then db.tell change else db

/-- The database after a thread has begun a transaction. -/
def DbAccessor.begun (db : DbAccessor T H K V) (t : T) (readOnly : Bool) : DbAccessor T H K V :=
  let moved := db.moved (db.backend.beginTransaction t readOnly) t
    (readOnly :: db.transactionsStack t)
  if !hasWriterTxInStack (db.transactionsStack t) && !readOnly then moved.tell (.reserved t)
  else moved

/-- Taking a read-only transaction off a list. -/
inductive DropsReader : List (TxEntry H K V) → List (TxEntry H K V) → Prop
  | snapshot (entry : TxEntry H K V) (readOnly : entry.readOnly = true) : DropsReader [entry] []
  | counted (entry : TxEntry H K V) (rest : List (TxEntry H K V))
      (nested : WellNested (entry.uncounted :: rest)) :
      DropsReader (entry :: rest) (entry.uncounted :: rest)

/-- A thread that may take the lock is the only one that can have write transactions. -/
theorem Disciplined.idle (held : Disciplined db) (may : db.backend.mayWrite t = true)
    (none : writers (db.backend.txs t) = 0) (u : T) : writers (db.backend.txs u) = 0 := by
  by_contra writing
  obtain ⟨count, lock, _⟩ := held.locked u (Nat.pos_iff_ne_zero.mpr writing)
  unfold Backend.mayWrite at may
  rw [lock] at may
  have same : u = t := of_decide_eq_true may
  exact writing (same ▸ none)

theorem commitTransaction_reads {b : Backend T H K V} {entry : TxEntry H K V}
    {rest : List (TxEntry H K V)} (popped : popTxEntry (b.txs t) = some (entry, rest))
    (reads : (entry.readOnly || decide (entry.count ≠ 0)) = true) (written : Bool) :
    b.commitTransaction t written = (true, b.withTxs t rest) := by
  unfold Backend.commitTransaction
  rw [popped]
  dsimp only
  rw [if_pos reads]
  rfl

theorem commitTransaction_writes {b : Backend T H K V} {entry : TxEntry H K V}
    {rest : List (TxEntry H K V)} (popped : popTxEntry (b.txs t) = some (entry, rest))
    (writes : entry.readOnly = false) (uncounted : entry.count = 0) (written : Bool) :
    b.commitTransaction t written =
      if written then (true, (b.commitInto t entry.content rest).unlocked)
      else (false, b.withTxs t rest) := by
  have kind : (entry.readOnly || decide (entry.count ≠ 0)) = false := by
    rw [writes, Bool.false_or]
    exact decide_eq_false fun apart => apart uncounted
  unfold Backend.commitTransaction
  rw [popped]
  dsimp only
  rw [if_neg (ne_true_of_eq_false kind)]
  rfl

theorem abortTransaction_writes {b : Backend T H K V} {entry : TxEntry H K V}
    {rest : List (TxEntry H K V)} (popped : popTxEntry (b.txs t) = some (entry, rest))
    (writes : entry.readOnly = false) (uncounted : entry.count = 0) :
    b.abortTransaction t = (b.withTxs t rest).unlocked := by
  have kind : (entry.readOnly || decide (entry.count ≠ 0)) = false := by
    rw [writes, Bool.false_or]
    exact decide_eq_false fun apart => apart uncounted
  unfold Backend.abortTransaction
  rw [popped]
  dsimp only
  rw [if_neg (ne_true_of_eq_false kind)]
  rfl

/-! ### The discipline is kept -/

/-- A read-only transaction taken off a list keeps it well nested, and its write transactions. -/
theorem DropsReader.kept {txs rest : List (TxEntry H K V)} (drops : DropsReader txs rest) :
    WellNested rest ∧ writers rest = writers txs := by
  cases drops with
  | snapshot entry readOnly => exact ⟨.empty, (writers_cons_readOnly readOnly []).symm⟩
  | counted entry below nested =>
    refine ⟨nested, ?_⟩
    cases kind : entry.readOnly with
    | true =>
      have still : entry.uncounted.readOnly = true := kind
      rw [writers_cons_readOnly kind, writers_cons_readOnly still]
    | false =>
      have still : entry.uncounted.readOnly = false := kind
      rw [writers_cons_write kind, writers_cons_write still]

/-- A list of a thread may be exchanged for one with as many write transactions. -/
theorem Disciplined.relisted (held : Disciplined db) {txs : List (TxEntry H K V)}
    (nested : WellNested txs) (same : writers txs = writers (db.backend.txs t)) :
    Disciplined (db.moved (db.backend.withTxs t txs) t (stackOf txs)) := by
  have writersAt : ∀ u, writers (Function.update db.backend.txs t txs u) =
      writers (db.backend.txs u) := by
    intro u
    by_cases here : u = t
    · subst here
      rw [Function.update_self, same]
    · rw [Function.update_of_ne here]
  refine ⟨fun u => ?_, fun u => ?_, fun u writing => ?_, fun h u => ?_⟩
  · change WellNested (Function.update db.backend.txs t txs u)
    by_cases here : u = t
    · subst here
      rw [Function.update_self]
      exact nested
    · rw [Function.update_of_ne here]
      exact held.nested u
  · change Function.update db.transactionsStack t (stackOf txs) u =
      stackOf (Function.update db.backend.txs t txs u)
    by_cases here : u = t
    · subst here
      rw [Function.update_self, Function.update_self]
    · rw [Function.update_of_ne here, Function.update_of_ne here]
      exact held.stack u
  · change 0 < writers (Function.update db.backend.txs t txs u) at writing
    change ∃ count, _ ∧ writers (Function.update db.backend.txs t txs u) ≤ count
    rw [writersAt] at writing ⊢
    exact held.locked u writing
  · change _ ↔ 0 < writers (Function.update db.backend.txs t txs u)
    rw [writersAt]
    exact held.isolated h u

/-- Taking the innermost write transaction off a list releases the lock at most once, and
releases the caches when it was the outermost one. -/
theorem Disciplined.lowered (held : Disciplined db) {entry : TxEntry H K V}
    {rest rest' : List (TxEntry H K V)} {backend : Backend T H K V}
    {change : KeyValueAccessor T K V → KeyValueAccessor T K V}
    (split : db.backend.txs t = entry :: rest) (writes : entry.readOnly = false)
    (nested : WellNested rest') (stack : stackOf rest' = stackOf rest)
    (count : writers rest' = writers rest)
    (txs : backend.txs = Function.update db.backend.txs t rest')
    (lock : backend.writeExclusiveLock = db.backend.writeExclusiveLock ∨
      backend.writeExclusiveLock = unlockWrite db.backend.writeExclusiveLock)
    (releases : ∀ accessor, (change accessor).isolation = ⟨none⟩) :
    Disciplined ((db.moved backend t (stackOf rest)).closing rest change) := by
  have more : writers (db.backend.txs t) = writers rest + 1 := by
    rw [split, writers_cons_write writes]
  have writing : 0 < writers (db.backend.txs t) := by omega
  have others : ∀ u, u ≠ t → writers (db.backend.txs u) = 0 := by
    intro u apart
    by_contra busy
    exact apart (held.alone (Nat.pos_iff_ne_zero.mpr busy) writing)
  have lists : ((db.moved backend t (stackOf rest)).closing rest change).backend = backend ∧
      ((db.moved backend t (stackOf rest)).closing rest change).transactionsStack =
        Function.update db.transactionsStack t (stackOf rest) := by
    unfold DbAccessor.closing
    split
    · exact ⟨rfl, rfl⟩
    · exact ⟨rfl, rfl⟩
  refine ⟨fun u => ?_, fun u => ?_, fun u busy => ?_, fun h u => ?_⟩
  · rw [lists.1, txs]
    by_cases here : u = t
    · subst here
      rw [Function.update_self]
      exact nested
    · rw [Function.update_of_ne here]
      exact held.nested u
  · rw [lists.1, lists.2, txs]
    by_cases here : u = t
    · subst here
      rw [Function.update_self, Function.update_self, stack]
    · rw [Function.update_of_ne here, Function.update_of_ne here]
      exact held.stack u
  · rw [lists.1, txs] at busy ⊢
    by_cases here : u = t
    · subst here
      rw [Function.update_self, count] at busy ⊢
      obtain ⟨taken, locked, enough⟩ := held.locked u writing
      rcases lock with kept | released
      · exact ⟨taken, kept.trans locked, by omega⟩
      · refine ⟨taken - 1, ?_, by omega⟩
        rw [released, locked, unlockWrite, Option.bind_some, if_neg (by omega)]
    · rw [Function.update_of_ne here, others u here] at busy
      exact absurd busy (Nat.lt_irrefl 0)
  · rw [lists.1, txs]
    unfold DbAccessor.closing
    by_cases outermost : writers rest = 0
    · rw [if_pos outermost]
      change (change (db.containers h)).isolation = _ ↔ _
      rw [releases]
      constructor
      · intro same
        cases same
      · intro busy
        by_cases here : u = t
        · subst here
          rw [Function.update_self, count] at busy
          omega
        · rw [Function.update_of_ne here, others u here] at busy
          exact absurd busy (Nat.lt_irrefl 0)
    · rw [if_neg outermost]
      change (db.containers h).isolation = _ ↔ _
      rw [held.isolated h u]
      by_cases here : u = t
      · subst here
        rw [Function.update_self, count]
        omega
      · rw [Function.update_of_ne here]

/-- The list of a thread that begins a read-only transaction. -/
def readList (committed : Store H K V) : List (TxEntry H K V) → List (TxEntry H K V)
  | [] => [{ content := committed, readOnly := true, count := 1 }]
  | parent :: rest => { parent with count := parent.count + 1 } :: rest

theorem readList_kept (committed : Store H K V) {txs : List (TxEntry H K V)}
    (nested : WellNested txs) :
    WellNested (readList committed txs) ∧ writers (readList committed txs) = writers txs ∧
      stackOf (readList committed txs) = true :: stackOf txs := by
  cases nested with
  | empty => exact ⟨.snapshot rfl Nat.one_pos, rfl, rfl⟩
  | @snapshot entry readOnly counted =>
    have kind : ({ entry with count := entry.count + 1 } : TxEntry H K V).readOnly = true :=
      readOnly
    refine ⟨.snapshot kind (Nat.succ_pos _), ?_, ?_⟩
    · rw [readList, writers_cons_readOnly kind, writers_cons_readOnly readOnly]
    · rw [readList, stackOf_cons, flags_counted (Nat.succ_pos _)]
      rfl
  | @write entry rest writes below =>
    have kind : ({ entry with count := entry.count + 1 } : TxEntry H K V).readOnly = false :=
      writes
    refine ⟨.write kind below, ?_, ?_⟩
    · rw [readList, writers_cons_write kind, writers_cons_write writes]
    · rw [readList, stackOf_cons, flags_counted (Nat.succ_pos _)]
      rfl

/-- The list of a thread that begins a write transaction. -/
def writeList (committed : Store H K V) (txs : List (TxEntry H K V)) : List (TxEntry H K V) :=
  { content := enclosing committed txs, readOnly := false, count := 0 } :: txs

theorem writeList_kept (committed : Store H K V) {txs : List (TxEntry H K V)}
    (nested : WellNested txs) :
    WellNested (writeList committed txs) ∧ writers (writeList committed txs) = writers txs + 1 ∧
      stackOf (writeList committed txs) = false :: stackOf txs :=
  ⟨.write rfl nested, writers_cons_write rfl txs, rfl⟩

theorem beginTransaction_reads (b : Backend T H K V) (t : T) :
    b.beginTransaction t true = b.withTxs t (readList b.committed (b.txs t)) := by
  unfold Backend.beginTransaction Backend.withTxs
  cases b.txs t with
  | nil => rfl
  | cons parent rest => rfl

theorem beginTransaction_writes (b : Backend T H K V) (t : T) :
    b.beginTransaction t false =
      { b.withTxs t (writeList b.committed (b.txs t)) with
        writeExclusiveLock := lockWrite b.writeExclusiveLock t } := by
  unfold Backend.beginTransaction Backend.withTxs
  cases b.txs t with
  | nil => rfl
  | cons parent rest => rfl

/-- Beginning a transaction keeps the discipline. -/
theorem Disciplined.begun (held : Disciplined db) {readOnly : Bool}
    (may : (readOnly || db.backend.mayWrite t) = true) : Disciplined (db.begun t readOnly) := by
  cases readOnly with
  | true =>
    obtain ⟨nested, count, stack⟩ := readList_kept db.backend.committed (held.nested t)
    have moved := held.relisted nested count
    unfold DbAccessor.begun
    rw [Bool.not_true, Bool.and_false, if_neg Bool.false_ne_true, beginTransaction_reads,
      held.stack t, ← stack]
    exact moved
  | false =>
    rw [Bool.false_or] at may
    have others : ∀ u, u ≠ t → writers (db.backend.txs u) = 0 := by
      intro u apart
      by_contra busy
      obtain ⟨taken, lock, _⟩ := held.locked u (Nat.pos_iff_ne_zero.mpr busy)
      unfold Backend.mayWrite at may
      rw [lock] at may
      exact apart (of_decide_eq_true may)
    have lists : (db.begun t false).backend = db.backend.beginTransaction t false ∧
        (db.begun t false).transactionsStack =
          Function.update db.transactionsStack t (false :: db.transactionsStack t) := by
      unfold DbAccessor.begun
      dsimp only
      split
      · exact ⟨rfl, rfl⟩
      · exact ⟨rfl, rfl⟩
    obtain ⟨nested, count, stack⟩ := writeList_kept db.backend.committed (held.nested t)
    rw [beginTransaction_writes] at lists
    refine ⟨fun u => ?_, fun u => ?_, fun u busy => ?_, fun h u => ?_⟩
    · rw [lists.1]
      change WellNested (Function.update db.backend.txs t _ u)
      by_cases here : u = t
      · subst here
        rw [Function.update_self]
        exact nested
      · rw [Function.update_of_ne here]
        exact held.nested u
    · rw [lists.1, lists.2]
      change _ = stackOf (Function.update db.backend.txs t _ u)
      by_cases here : u = t
      · subst here
        rw [Function.update_self, Function.update_self, stack, held.stack]
      · rw [Function.update_of_ne here, Function.update_of_ne here]
        exact held.stack u
    · rw [lists.1] at busy ⊢
      change 0 < writers (Function.update db.backend.txs t _ u) at busy
      change ∃ taken, lockWrite db.backend.writeExclusiveLock t = some (u, taken) ∧
        writers (Function.update db.backend.txs t _ u) ≤ taken
      by_cases here : u = t
      · subst here
        rw [Function.update_self, count]
        refine ⟨_, rfl, ?_⟩
        by_cases none : writers (db.backend.txs u) = 0
        · omega
        · obtain ⟨taken, lock, enough⟩ := held.locked u (Nat.pos_iff_ne_zero.mpr none)
          rw [lock]
          exact Nat.succ_le_succ enough
      · rw [Function.update_of_ne here, others u here] at busy
        exact absurd busy (Nat.lt_irrefl 0)
    · rw [lists.1]
      change _ ↔ 0 < writers (Function.update db.backend.txs t _ u)
      unfold DbAccessor.begun
      rw [Bool.not_false, Bool.and_true, held.stack t, hasWriterTxInStack_stackOf]
      dsimp only
      by_cases none : writers (db.backend.txs t) = 0
      · have first : (!decide (0 < writers (db.backend.txs t))) = true := by
          rw [none]
          rfl
        rw [if_pos first]
        change (⟨some t⟩ : IsolationLock T) = ⟨some u⟩ ↔ _
        by_cases here : u = t
        · subst here
          rw [Function.update_self, count]
          exact ⟨fun _ => Nat.succ_pos _, fun _ => rfl⟩
        · rw [Function.update_of_ne here, others u here]
          constructor
          · intro same
            cases same
            exact absurd rfl here
          · intro busy
            exact absurd busy (Nat.lt_irrefl 0)
      · have inner : (!decide (0 < writers (db.backend.txs t))) ≠ true := by
          rw [decide_eq_true (Nat.pos_iff_ne_zero.mpr none)]
          exact Bool.false_ne_true
        rw [if_neg inner]
        change (db.containers h).isolation = _ ↔ _
        rw [held.isolated h u]
        by_cases here : u = t
        · subst here
          rw [Function.update_self, count]
          omega
        · rw [Function.update_of_ne here]

end Updates

variable [FinEnum H]

theorem closing_commit {rest : List (TxEntry H K V)}
    (reserved : ∀ h, (db.containers h).isolation = ⟨some t⟩) :
    onlyIf (!false && !hasWriterTxInStack (stackOf rest))
      (forEach onWriteTransactionCommit (FinEnum.toList H)) db =
      .ok () (db.closing rest .released) := by
  rw [hasWriterTxInStack_stackOf, Bool.not_false, Bool.true_and]
  unfold onlyIf DbAccessor.closing
  by_cases outermost : writers rest = 0
  · rw [if_pos outermost, outermost]
    exact tell_commit reserved
  · rw [if_neg outermost, decide_eq_true (Nat.pos_iff_ne_zero.mpr outermost)]
    rfl

variable [DecidableEq T]

theorem beginTransaction_eq (held : Disciplined db) {readOnly : Bool}
    (may : (readOnly || db.backend.mayWrite t) = true) :
    beginTransaction t readOnly db = .ok true (db.begun t readOnly) := by
  have begins : onBackend (fun backend => ((), backend.beginTransaction t readOnly)) db =
      .ok () { db with backend := db.backend.beginTransaction t readOnly } := rfl
  have pushes : setStack t (readOnly :: db.transactionsStack t)
      { db with backend := db.backend.beginTransaction t readOnly } =
        .ok () (db.moved (db.backend.beginTransaction t readOnly) t
          (readOnly :: db.transactionsStack t)) := rfl
  rw [beginTransaction, bind_of_ok begins, get_bind]
  dsimp only
  rw [bind_of_ok pushes]
  unfold DbAccessor.begun onlyIf
  cases first : !hasWriterTxInStack (db.transactionsStack t) && !readOnly with
  | false => rfl
  | true =>
    obtain ⟨outermost, writes⟩ := Bool.and_eq_true_iff.mp first
    have none : writers (db.backend.txs t) = 0 := by
      rw [held.stack t, hasWriterTxInStack_stackOf, Bool.not_eq_true', decide_eq_false_iff_not]
        at outermost
      omega
    have may : db.backend.mayWrite t = true := by
      rw [Bool.not_eq_true'] at writes
      rw [← may, writes, Bool.false_or]
    have tells : forEach (onWriteTransactionBegin t) (FinEnum.toList H)
        (db.moved (db.backend.beginTransaction t readOnly) t
          (readOnly :: db.transactionsStack t)) =
        .ok () ((db.moved (db.backend.beginTransaction t readOnly) t
          (readOnly :: db.transactionsStack t)).tell (.reserved t)) :=
      tell_begin fun h => held.free (held.idle may none) h
    rw [if_pos rfl, if_pos rfl, bind_of_ok tells]
    rfl

/-! ### Committing and aborting -/

theorem closing_abort {rest : List (TxEntry H K V)}
    (reserved : ∀ h, (db.containers h).isolation = ⟨some t⟩) :
    onlyIf (!hasWriterTxInStack (stackOf rest))
      (forEach (onWriteTransactionAbort t) (FinEnum.toList H)) db =
      .ok () (db.closing rest fun accessor => accessor.emptied.released) := by
  rw [hasWriterTxInStack_stackOf]
  unfold onlyIf DbAccessor.closing
  by_cases outermost : writers rest = 0
  · rw [if_pos outermost, outermost]
    exact tell_abort reserved
  · rw [if_neg outermost, decide_eq_true (Nat.pos_iff_ne_zero.mpr outermost)]
    rfl

theorem commitTransaction_run {readOnly written : Bool} {rest : List Bool}
    (full : db.transactionsStack t = readOnly :: rest) :
    commitTransaction t written db =
      (onlyIf (!readOnly && !hasWriterTxInStack rest)
        (forEach onWriteTransactionCommit (FinEnum.toList H)) >>= fun _ =>
          if (db.backend.commitTransaction t written).1 then pure () else throw .thrown)
        (db.moved (db.backend.commitTransaction t written).2 t rest) := by
  rw [commitTransaction, get_bind, full, List.head?_cons, demand_bind]
  rfl

theorem abortTransaction_run {rest : List Bool}
    (full : db.transactionsStack t = false :: rest) :
    abortTransaction t db =
      onlyIf (!hasWriterTxInStack rest)
        (forEach (onWriteTransactionAbort t) (FinEnum.toList H))
        (db.moved (db.backend.abortTransaction t) t rest) := by
  rw [abortTransaction, get_bind, full, List.head?_cons, demand_bind]
  rfl

/-- What committing does: nothing without a transaction; a read-only transaction is taken off;
a write transaction replaces what encloses it, or is lost on its way to the disk. -/
theorem commitTransaction_cases (held : Disciplined db) (t : T) (written : Bool) :
    commitTransaction t written db = .error .thrown db ∨
    (∃ rest, DropsReader (db.backend.txs t) rest ∧
      commitTransaction t written db =
        .ok () (db.moved (db.backend.withTxs t rest) t (stackOf rest))) ∨
    ∃ entry rest, db.backend.txs t = entry :: rest ∧ entry.readOnly = false ∧ WellNested rest ∧
      db.transactionsStack t = false :: stackOf rest ∧
      commitTransaction t written db =
        if written then
          .ok () ((db.moved (db.backend.commitInto t entry.content rest).unlocked t
            (stackOf rest)).closing rest .released)
        else .error .thrown ((db.moved (db.backend.withTxs t rest) t (stackOf rest)).closing rest
          .released) := by
  rcases (held.nested t).innermost with none | innermost
  · left
    have empty : db.transactionsStack t = [] := by rw [held.stack t, none, stackOf_nil]
    rw [commitTransaction, get_bind, empty]
    rfl
  · right
    have unfolds := held.stack t
    generalize lists : db.backend.txs t = txs at innermost unfolds
    cases innermost with
    | snapshot entry readOnly popped stack =>
      left
      refine ⟨[], .snapshot entry readOnly, ?_⟩
      rw [← lists] at popped
      rw [commitTransaction_run (unfolds.trans stack),
        commitTransaction_reads popped (by rw [readOnly, Bool.true_or])]
      rfl
    | counted entry below kind popped stack nested =>
      left
      refine ⟨_, .counted entry below nested, ?_⟩
      rw [← lists] at popped
      rw [commitTransaction_run (unfolds.trans stack), commitTransaction_reads popped kind]
      rfl
    | write entry rest writes uncounted popped stack nested =>
      right
      refine ⟨entry, rest, rfl, writes, nested, unfolds.trans stack, ?_⟩
      have reserved : ∀ h, (db.containers h).isolation = ⟨some t⟩ := by
        refine held.reserved ?_
        rw [lists, writers_cons_write writes]
        exact Nat.succ_pos _
      rw [← lists] at popped
      rw [commitTransaction_run (unfolds.trans stack),
        commitTransaction_writes popped writes uncounted]
      have closes := fun backend => @closing_commit T H K V _ (db.moved backend t (stackOf rest)) t
        _ rest reserved
      cases written with
      | true =>
        rw [if_pos rfl, if_pos rfl, bind_of_ok (closes _)]
        rfl
      | false =>
        rw [if_neg Bool.false_ne_true, if_neg Bool.false_ne_true, bind_of_ok (closes _)]
        rfl

/-- What aborting does: nothing but to a write transaction, which is dropped. -/
theorem abortTransaction_cases (held : Disciplined db) (t : T) :
    (∀ outer, db.transactionsStack t ≠ false :: outer) ∧
      abortTransaction t db = .error .thrown db ∨
    ∃ entry rest, db.backend.txs t = entry :: rest ∧ entry.readOnly = false ∧ WellNested rest ∧
      db.transactionsStack t = false :: stackOf rest ∧
      abortTransaction t db = .ok () ((db.moved (db.backend.withTxs t rest).unlocked t
        (stackOf rest)).closing rest fun accessor => accessor.emptied.released) := by
  rcases (held.nested t).innermost with none | innermost
  · left
    have empty : db.transactionsStack t = [] := by rw [held.stack t, none, stackOf_nil]
    refine ⟨fun outer same => ?_, ?_⟩
    · rw [empty] at same
      cases same
    · rw [abortTransaction, get_bind, empty]
      rfl
  · have unfolds := held.stack t
    have reads : ∀ rest, db.transactionsStack t = true :: rest →
        (∀ outer, db.transactionsStack t ≠ false :: outer) ∧
          abortTransaction t db = .error .thrown db := by
      intro rest full
      refine ⟨fun outer same => ?_, ?_⟩
      · rw [full] at same
        cases same
      · rw [abortTransaction, get_bind, full, List.head?_cons, demand_bind]
        rfl
    generalize lists : db.backend.txs t = txs at innermost unfolds
    cases innermost with
    | snapshot entry readOnly popped stack => exact .inl (reads _ (unfolds.trans stack))
    | counted entry below kind popped stack nested => exact .inl (reads _ (unfolds.trans stack))
    | write entry rest writes uncounted popped stack nested =>
      right
      refine ⟨entry, rest, rfl, writes, nested, unfolds.trans stack, ?_⟩
      have reserved : ∀ h, (db.containers h).isolation = ⟨some t⟩ := by
        refine held.reserved ?_
        rw [lists, writers_cons_write writes]
        exact Nat.succ_pos _
      rw [← lists] at popped
      rw [abortTransaction_run (unfolds.trans stack),
        abortTransaction_writes popped writes uncounted]
      exact closing_abort reserved

end Ending
end Virie.Accessors
