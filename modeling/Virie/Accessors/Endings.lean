import Virie.Accessors.Coherence

/-! # Transactions and coherence

Beginning a transaction keeps the caches coherent, and so does committing one while no thread
reads an older state. Aborting through the database forgets the values that the containers
remember, and only for the outermost write transaction; the numbers of elements are kept. So
aborting is coherent only if the transaction leaves no trace in the caches. -/

open Foundation

namespace Virie.Accessors

section Endings

variable {T H K V : Type} [Key K] {db : DbAccessor T H K V} {t : T} {h : H}

open Procedure Backend

theorem enclosing_idle (committed : Store H K V) {txs : List (TxEntry H K V)}
    (nested : WellNested txs) (none : writers txs = 0) : enclosing committed txs = committed := by
  rcases nested.of_no_writers none with rfl | ⟨entry, rfl, readOnly⟩
  · rfl
  · rw [enclosing, if_pos readOnly]

theorem enclosing_writing (committed : Store H K V) {txs : List (TxEntry H K V)}
    (nested : WellNested txs) (some : 0 < writers txs) :
    enclosing committed txs = shown committed txs := by
  cases nested with
  | empty => exact absurd some (Nat.lt_irrefl 0)
  | snapshot readOnly _ =>
    rw [writers_cons_readOnly readOnly] at some
    exact absurd some (Nat.lt_irrefl 0)
  | write writes _ => rw [enclosing, if_neg (ne_true_of_eq_false writes), shown]

variable [DecidableEq T]

/-- The list of a thread is exchanged for one that shows the same and has no other snapshots. -/
theorem Sound.relisted (sound : Sound db) {txs : List (TxEntry H K V)}
    (nested : WellNested txs) (same : writers txs = writers (db.backend.txs t))
    (shows : 0 < writers (db.backend.txs t) →
      shown db.backend.committed txs = shown db.backend.committed (db.backend.txs t))
    (snapshots : ∀ entry ∈ txs, entry.readOnly = true → entry.content = db.backend.committed) :
    Sound (db.moved (db.backend.withTxs t txs) t (stackOf txs)) := by
  refine ⟨sound.disciplined.relisted nested same, ⟨fun g => ?_, fun u other member readOnly => ?_⟩⟩
  · have view : (db.moved (db.backend.withTxs t txs) t (stackOf txs)).sharedView g =
        db.sharedView g := by
      cases reserved : (db.containers g).isolation with
      | mk writer =>
        cases writer with
        | none =>
          rw [sharedView_free reserved]
          exact sharedView_free reserved
        | some w =>
          rw [sharedView_reserved reserved]
          refine (sharedView_reserved (by exact reserved)).trans ?_
          change shown db.backend.committed (Function.update db.backend.txs t txs w) g = _
          by_cases here : w = t
          · subst here
            rw [Function.update_self, shows ((sound.disciplined.isolated g w).mp reserved)]
            rfl
          · rw [Function.update_of_ne here]
            rfl
    rw [view]
    exact sound.coherent.faithful g
  · change other ∈ Function.update db.backend.txs t txs u at member
    by_cases here : u = t
    · subst here
      rw [Function.update_self] at member
      exact snapshots other member readOnly
    · rw [Function.update_of_ne here] at member
      exact sound.coherent.snapshots u other member readOnly

theorem Sound.dropsReader (sound : Sound db) {rest : List (TxEntry H K V)}
    (drops : DropsReader (db.backend.txs t) rest) :
    Sound (db.moved (db.backend.withTxs t rest) t (stackOf rest)) := by
  obtain ⟨nested, same⟩ := drops.kept
  have snapshots := sound.coherent.snapshots t
  generalize lists : db.backend.txs t = txs at drops same snapshots
  cases drops with
  | snapshot entry readOnly =>
    rw [← lists] at same
    refine sound.relisted nested same (fun writing => ?_) fun other member => ?_
    · rw [lists, writers_cons_readOnly readOnly, writers_nil] at writing
      exact absurd writing (Nat.lt_irrefl 0)
    · cases member
  | counted entry below _ =>
    rw [← lists] at same
    refine sound.relisted nested same (fun _ => ?_) fun other member readOnly => ?_
    · rw [lists]
      rfl
    · rcases List.mem_cons.mp member with rfl | member
      · exact snapshots entry List.mem_cons_self readOnly
      · exact snapshots other (List.mem_cons_of_mem _ member) readOnly

/-- Taking the innermost write transaction off a list keeps the caches coherent, if they are
faithful to what the thread sees then. -/
theorem Sound.lowered (sound : Sound db) {entry : TxEntry H K V} {rest rest' : List (TxEntry H K V)}
    {backend : Backend T H K V} {change : KeyValueAccessor T K V → KeyValueAccessor T K V}
    (split : db.backend.txs t = entry :: rest) (writes : entry.readOnly = false)
    (nested : WellNested rest') (stack : stackOf rest' = stackOf rest)
    (count : writers rest' = writers rest)
    (txs : backend.txs = Function.update db.backend.txs t rest')
    (lock : backend.writeExclusiveLock = db.backend.writeExclusiveLock ∨
      backend.writeExclusiveLock = unlockWrite db.backend.writeExclusiveLock)
    (releases : ∀ accessor, (change accessor).isolation = ⟨none⟩)
    (outermost : writers rest = 0 → ∀ g,
      Faithful (change (db.containers g)) (backend.committed g))
    (inner : writers rest ≠ 0 → ∀ g, Faithful (db.containers g) (shown backend.committed rest' g))
    (snapshots : ∀ u, ∀ other ∈ backend.txs u, other.readOnly = true →
      other.content = backend.committed) :
    Sound ((db.moved backend t (stackOf rest)).closing rest change) := by
  have held := sound.disciplined
  have closed : Disciplined ((db.moved backend t (stackOf rest)).closing rest change) :=
    held.lowered split writes nested stack count txs lock releases
  have same : ((db.moved backend t (stackOf rest)).closing rest change).backend = backend := by
    unfold DbAccessor.closing
    split
    · rfl
    · rfl
  refine ⟨closed, ⟨fun g => ?_, ?_⟩⟩
  · by_cases none : writers rest = 0
    · have containers : ((db.moved backend t (stackOf rest)).closing rest change).containers g =
          change (db.containers g) := by
        unfold DbAccessor.closing
        rw [if_pos none]
        rfl
      have free : (((db.moved backend t (stackOf rest)).closing rest change).containers
          g).isolation = ⟨Option.none⟩ := by
        rw [containers]
        exact releases _
      rw [sharedView_free free, containers, same]
      exact outermost none g
    · have containers : ((db.moved backend t (stackOf rest)).closing rest change).containers g =
          db.containers g := by
        unfold DbAccessor.closing
        rw [if_neg none]
        rfl
      have writing : 0 < writers (((db.moved backend t (stackOf rest)).closing rest
          change).backend.txs t) := by
        rw [same, txs, Function.update_self, count]
        omega
      rw [sharedView_reserved (closed.reserved writing g), containers, Backend.view, same, txs,
        Function.update_self]
      exact inner none g
  · rw [same]
    exact snapshots
/-- Beginning a transaction keeps the caches coherent. -/
theorem Sound.begun (sound : Sound db) {readOnly : Bool}
    (may : (readOnly || db.backend.mayWrite t) = true) : Sound (db.begun t readOnly) := by
  have held := sound.disciplined
  cases readOnly with
  | true =>
    obtain ⟨nested, count, stack⟩ := readList_kept db.backend.committed (held.nested t)
    have snapshots := sound.coherent.snapshots t
    have relisted : Sound (db.moved
        (db.backend.withTxs t (readList db.backend.committed (db.backend.txs t))) t
        (stackOf (readList db.backend.committed (db.backend.txs t)))) := by
      apply sound.relisted nested count
      · intro writing
        cases lists : db.backend.txs t with
        | nil =>
          rw [lists] at writing
          exact absurd writing (Nat.lt_irrefl 0)
        | cons parent rest => rfl
      · intro other member readOnly
        cases lists : db.backend.txs t with
        | nil =>
          rw [lists, readList, List.mem_singleton] at member
          rw [member]
        | cons parent rest =>
          rw [lists] at member snapshots
          rcases List.mem_cons.mp member with rfl | member
          · exact snapshots parent List.mem_cons_self readOnly
          · exact snapshots other (List.mem_cons_of_mem _ member) readOnly
    unfold DbAccessor.begun
    rw [Bool.not_true, Bool.and_false, if_neg Bool.false_ne_true, beginTransaction_reads,
      held.stack t, ← stack]
    exact relisted
  | false =>
    rw [Bool.false_or] at may
    have begun : Disciplined (db.begun t false) := held.begun (by rw [may, Bool.or_true])
    have backend : (db.begun t false).backend = db.backend.beginTransaction t false := by
      unfold DbAccessor.begun
      dsimp only
      split
      · rfl
      · rfl
    have lists : (db.begun t false).backend.txs t =
        writeList db.backend.committed (db.backend.txs t) := by
      rw [backend, beginTransaction_writes]
      exact Function.update_self _ _ _
    have reserved : ∀ g, ((db.begun t false).containers g).isolation = ⟨some t⟩ := by
      apply begun.reserved
      rw [lists, (writeList_kept _ (held.nested t)).2.1]
      exact Nat.succ_pos _
    refine ⟨begun, ⟨fun g => ?_, fun u other member readOnly => ?_⟩⟩
    · have view : (db.begun t false).sharedView g = db.sharedView g := by
        rw [sharedView_reserved (reserved g), Backend.view, lists, writeList, shown]
        by_cases none : writers (db.backend.txs t) = 0
        · rw [enclosing_idle _ (held.nested t) none,
            sharedView_free (held.free (held.idle may none) g)]
        · have writing : 0 < writers (db.backend.txs t) := Nat.pos_iff_ne_zero.mpr none
          rw [enclosing_writing _ (held.nested t) writing,
            sharedView_reserved (held.reserved writing g), Backend.view]
      rw [view]
      have told : (db.begun t false).containers g = db.containers g ∨
          (db.begun t false).containers g = (db.containers g).reserved t := by
        unfold DbAccessor.begun
        dsimp only
        split
        · exact .inr rfl
        · exact .inl rfl
      rcases told with same | same
      · rw [same]
        exact sound.coherent.faithful g
      · rw [same]
        exact (sound.coherent.faithful g).retold rfl rfl rfl
    · have committed : (db.begun t false).backend.committed = db.backend.committed := by
        rw [backend]
        rfl
      rw [backend, beginTransaction_writes] at member
      change other ∈ Function.update db.backend.txs t _ u at member
      rw [committed]
      by_cases here : u = t
      · subst here
        rw [Function.update_self] at member
        rcases List.mem_cons.mp member with rfl | member
        · cases readOnly
        · exact sound.coherent.snapshots u other member readOnly
      · rw [Function.update_of_ne here] at member
        exact sound.coherent.snapshots u other member readOnly

variable [FinEnum H]

/-! ## Ending a write transaction -/

/-- What a thread sees once its innermost write transaction is aborted. -/
def DbAccessor.enclosingView (db : DbAccessor T H K V) (t : T) : Store H K V :=
  enclosing db.backend.committed (db.backend.txs t).tail

/-- Committing is coherent if the outermost write transaction of a thread reaches the disk, and
no thread reads an older state in a transaction that began read-only. -/
def CommitsAlone (db : DbAccessor T H K V) (t : T) (written : Bool) : Prop :=
  ∀ outer, db.transactionsStack t = false :: outer → written = true ∧
    (hasWriterTxInStack outer = false → ∀ u, (db.transactionsStack u).getLast? ≠ some true)

/-- Aborting is coherent if the transaction leaves no trace in the caches: a container whose
number of elements is remembered has as many outside the transaction, unless it is the one that
the transaction is aborted through; and if the thread goes on in a write transaction, the
remembered keys of the containers have the same values in it. -/
def AbortsUnseen (db : DbAccessor T H K V) (t : T) (through : Option H) : Prop :=
  ∀ outer, db.transactionsStack t = false :: outer → ∀ h,
    ((db.containers h).sizeCacheValid = true → through ≠ some h →
      (db.backend.view t h).size = (db.enclosingView t h).size) ∧
    (hasWriterTxInStack outer = true → ∀ cache, (db.containers h).cache = some cache → ∀ k v,
      cache.cached k = some v →
        (db.backend.view t h).get k = (db.enclosingView t h).get k)

theorem Sound.commitTransaction (sound : Sound db) {written : Bool}
    (alone : CommitsAlone db t written) :
    Sound (final (Accessors.commitTransaction t written db)) := by
  have held := sound.disciplined
  rcases commitTransaction_cases held t written with
    run | ⟨rest, drops, run⟩ | ⟨entry, rest, split, writes, nested, stack, run⟩
  · rw [run]
    exact sound
  · rw [run]
    exact sound.dropsReader drops
  · obtain ⟨rfl, unread⟩ := alone _ stack
    rw [run, if_pos rfl, final_ok]
    have writing : 0 < writers (db.backend.txs t) := by
      rw [split, writers_cons_write writes]
      exact Nat.succ_pos _
    have shared : ∀ g, db.sharedView g = entry.content g := by
      intro g
      rw [sharedView_reserved (held.reserved writing g), Backend.view, split, shown]
    have faithful : ∀ g, Faithful (db.containers g) (entry.content g) := by
      intro g
      rw [← shared]
      exact sound.coherent.faithful g
    rw [hasWriterTxInStack_stackOf, decide_eq_false_iff_not] at unread
    cases nested with
    | empty =>
      have whole : ∀ u, ∀ other ∈ db.backend.txs u, other.readOnly = false := by
        intro u other member
        by_contra kind
        apply unread (Nat.lt_irrefl 0) u
        rw [held.stack u]
        exact (held.nested u).began_reading member (eq_true_of_ne_false kind)
      refine sound.lowered split writes .empty rfl rfl rfl (.inr rfl) (fun _ => rfl)
        (fun _ g => (faithful g).retold rfl rfl rfl) (fun none => absurd rfl none) ?_
      intro u other member readOnly
      change other ∈ Function.update db.backend.txs t [] u at member
      by_cases here : u = t
      · subst here
        rw [Function.update_self] at member
        cases member
      · rw [Function.update_of_ne here] at member
        rw [whole u other member] at readOnly
        cases readOnly
    | @snapshot parent readOnly counted =>
      exfalso
      apply unread _ t
      · rw [held.stack t, split, stackOf_cons, List.getLast?_append,
          (WellNested.snapshot readOnly counted).began_reading (List.mem_singleton.mpr rfl)
            readOnly]
        rfl
      · rw [writers_cons_readOnly readOnly]
        exact Nat.lt_irrefl 0
    | @write parent below parentWrites parentNested =>
      have committed : db.backend.commitInto t entry.content (parent :: below) =
          db.backend.withTxs t ({ parent with content := entry.content } :: below) := by
        unfold Backend.commitInto
        dsimp only
        rw [if_neg (ne_true_of_eq_false parentWrites)]
        rfl
      rw [committed]
      have kind : ({ parent with content := entry.content } : TxEntry H K V).readOnly = false :=
        parentWrites
      refine sound.lowered split writes (.write kind parentNested) rfl ?_ rfl (.inr rfl)
        (fun _ => rfl) (fun none => ?_) (fun _ g => faithful g) ?_
      · rw [writers_cons_write kind, writers_cons_write parentWrites]
      · rw [writers_cons_write parentWrites] at none
        omega
      · intro u other member readOnly
        change other ∈ Function.update db.backend.txs t _ u at member
        change other.content = db.backend.committed
        by_cases here : u = t
        · subst here
          rw [Function.update_self] at member
          rcases List.mem_cons.mp member with rfl | member
          · rw [kind] at readOnly
            cases readOnly
          · apply sound.coherent.snapshots u other _ readOnly
            rw [split]
            exact List.mem_cons_of_mem _ (List.mem_cons_of_mem _ member)
        · rw [Function.update_of_ne here] at member
          exact sound.coherent.snapshots u other member readOnly

theorem Sound.abortTransaction (sound : Sound db) (unseen : AbortsUnseen db t none) :
    Sound (final (Accessors.abortTransaction t db)) := by
  have held := sound.disciplined
  rcases abortTransaction_cases held t with
    ⟨_, run⟩ | ⟨entry, rest, split, writes, nested, stack, run⟩
  · rw [run]
    exact sound
  · rw [run, final_ok]
    have writing : 0 < writers (db.backend.txs t) := by
      rw [split, writers_cons_write writes]
      exact Nat.succ_pos _
    have shared : ∀ g, db.sharedView g = db.backend.view t g := fun g =>
      sharedView_reserved (held.reserved writing g)
    have encloses : db.enclosingView t = enclosing db.backend.committed rest := by
      rw [DbAccessor.enclosingView, split, List.tail_cons]
    have untraced := unseen _ stack
    rw [encloses] at untraced
    refine sound.lowered split writes nested rfl rfl rfl (.inr rfl) (fun _ => rfl)
      (fun none g => ?_) (fun some g => ?_) ?_
    · rw [enclosing_idle _ nested none] at untraced
      have emptied : Faithful (db.containers g).emptied (db.backend.committed g) := by
        apply faithful_emptied
        intro valid
        rw [(sound.coherent.faithful g).size valid, shared]
        exact (untraced g).1 valid fun same => by cases same
      exact emptied.retold rfl rfl rfl
    · have writes : 0 < writers rest := Nat.pos_iff_ne_zero.mpr some
      have goesOn : hasWriterTxInStack (stackOf rest) = true := by
        rw [hasWriterTxInStack_stackOf]
        exact decide_eq_true writes
      rw [enclosing_writing _ nested writes] at untraced
      refine ⟨fun valid => ?_, fun cache present k v remembered => ?_⟩
      · rw [(sound.coherent.faithful g).size valid, shared]
        exact (untraced g).1 valid fun same => by cases same
      · have seen := (sound.coherent.faithful g).values cache present k v remembered
        rw [shared, (untraced g).2 goesOn cache present k v remembered] at seen
        exact seen
    · intro u other member readOnly
      change other ∈ Function.update db.backend.txs t rest u at member
      change other.content = db.backend.committed
      by_cases here : u = t
      · subst here
        rw [Function.update_self] at member
        apply sound.coherent.snapshots u other _ readOnly
        rw [split]
        exact List.mem_cons_of_mem _ member
      · rw [Function.update_of_ne here] at member
        exact sound.coherent.snapshots u other member readOnly

/-! ## Calls -/

/-- Ending a transaction one way or the other is coherent. -/
def EndsSafely (db : DbAccessor T H K V) (t : T) (through : Option H) (event : RegionEvent)
    (written : Bool) : Prop :=
  match event with
  | .commit => CommitsAlone db t written
  | .abort => AbortsUnseen db t through

/-- The calls that keep the caches coherent: values are set in write transactions, if the caches
are not reserved to another thread, and transactions end safely. -/
def KeepsCoherence (call : AccessorCall T H K V) (db : DbAccessor T H K V) : Prop :=
  match call with
  | .endTransaction t through event written => EndsSafely db t through event written
  | .endRegion t event written => ∀ region, (db.regions t).head? = some region →
      region.wasBegin = true → EndsSafely db t region.through event written
  | .leaveRegion t written => ∀ region, (db.regions t).head? = some region →
      region.wasBegin = true → EndsSafely db t region.through region.event written
  | .set t h _ _ => (db.containers h).cache = none ∨
      (db.containers h).isolation.allows t = false ∨
      hasWriterTxInStack (db.transactionsStack t) = true
  | _ => True

theorem commitThrough_some (t : T) (h : H) (written : Bool) (db : DbAccessor T H K V) :
    final (commitThrough t (some h) written db) =
      final (commitTransaction t written db) ∨
    final (commitThrough t (some h) written db) =
      (final (commitTransaction t written db)).changed h .uncounted := by
  have caught : commitThrough t (some h) written db =
      EStateM.tryCatch (commitTransaction t written) (fun reason => do
        Accessors.dropSizeCache h
        throw reason) db := rfl
  rw [caught, EStateM.tryCatch]
  cases commitTransaction t written db with
  | ok _ after => exact .inl rfl
  | error reason after => exact .inr rfl

theorem Sound.endTransaction (sound : Sound db) {through : Option H} {event : RegionEvent}
    {written : Bool} (safe : EndsSafely db t through event written) :
    Sound (final (Accessors.endTransaction t through event written db)) := by
  cases event with
  | commit =>
    have committed := sound.commitTransaction safe
    cases through with
    | none => exact committed
    | some h =>
      change Sound (final (commitThrough t (some h) written db))
      rcases commitThrough_some t h written db with same | dropped
      · rw [same]
        exact committed
      · rw [dropped]
        exact committed.dropSizeCache
  | abort =>
    cases through with
    | none => exact sound.abortTransaction safe
    | some h =>
      have dropped : Sound (db.changed h .uncounted) := sound.dropSizeCache
      apply dropped.abortTransaction
      intro outer stack g
      obtain ⟨sizes, values⟩ := safe outer stack g
      change _ ∧ (_ → ∀ cache, (Function.update db.containers h _ g).cache = some cache → _)
      change ((Function.update db.containers h _ g).sizeCacheValid = true → _) ∧ _
      by_cases here : g = h
      · subst here
        rw [Function.update_self]
        exact ⟨fun valid => absurd valid Bool.false_ne_true, values⟩
      · rw [Function.update_of_ne here]
        refine ⟨fun valid _ => sizes valid ?_, values⟩
        intro same
        cases same
        exact here rfl

theorem Sound.endRegion (sound : Sound db) {event : RegionEvent} {written : Bool}
    (safe : ∀ region, (db.regions t).head? = some region → region.wasBegin = true →
      EndsSafely db t region.through event written) :
    Sound (final (Accessors.endRegion t event written db)) := by
  rw [Accessors.endRegion, get_bind]
  cases regions : db.regions t with
  | nil => exact sound
  | cons region rest =>
    dsimp only
    split
    · next began =>
      have ended := sound.endTransaction (safe region (by rw [regions]; rfl) began)
      exact final_bind ended fun _ before sound => sound.regions _
    · exact sound

theorem Sound.leaveRegion (sound : Sound db) {written : Bool}
    (safe : ∀ region, (db.regions t).head? = some region → region.wasBegin = true →
      EndsSafely db t region.through region.event written) :
    Sound (final (Accessors.leaveRegion t written db)) := by
  rw [Accessors.leaveRegion, get_bind]
  cases regions : db.regions t with
  | nil => exact sound
  | cons region rest =>
    have ended : Sound (final (Accessors.endRegion t region.event written db)) := by
      apply sound.endRegion
      intro other top began
      rw [regions] at top
      cases top
      exact safe region (by rw [regions]; rfl) began
    exact final_bind ended fun _ before sound => sound.regions _

theorem Sound.perform (sound : Sound db) {call : AccessorCall T H K V}
    (keeps : KeepsCoherence call db) : Sound (call.perform db) := by
  cases call with
  | beginTransaction t readOnly =>
    change Sound (if _ then _ else _)
    split
    · next may =>
      rw [beginTransaction_eq sound.disciplined may, final_ok]
      exact sound.begun may
    · exact sound
  | endTransaction t through event written => exact sound.endTransaction keeps
  | enterRegion t through event =>
    change Sound (if _ then _ else _)
    split
    · next may =>
      have writes : (false || db.backend.mayWrite t) = true := by rw [Bool.false_or, may]
      rw [Accessors.enterRegion, bind_of_ok (beginTransaction_eq sound.disciplined writes), get_bind]
      exact (sound.begun writes).regions _
    · exact sound
  | endRegion t event written => exact sound.endRegion keeps
  | willEnd t event =>
    change Sound (final (Accessors.willEnd t event db))
    rw [Accessors.willEnd, get_bind]
    cases db.regions t with
    | nil => exact sound
    | cons region rest => exact sound.regions _
  | leaveRegion t written => exact sound.leaveRegion keeps
  | set t h k v =>
    apply sound.setValue
    rcases keeps with uncached | isolated | writing
    · exact .inl uncached
    · exact .inr (.inl isolated)
    · right
      right
      rw [sound.disciplined.stack t, hasWriterTxInStack_stackOf] at writing
      exact of_decide_eq_true writing
  | get t h k => exact sound.getValue
  | size t h => exact sound.sizeOf
  | clear t h => exact sound.clearValues
  | erase t h k => exact sound.eraseValue

end Endings
end Virie.Accessors
