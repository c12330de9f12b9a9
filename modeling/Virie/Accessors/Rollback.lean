import Virie.Accessors.Endings

/-! # Aborting restores the state

While a write transaction of a thread is open, nothing below it on the thread's list changes,
and no thread changes the committed state. Aborting it brings back what the thread saw before. -/

open Foundation

namespace Virie.Accessors

section Rollback

variable {T H K V : Type} [Key K] {db : DbAccessor T H K V} {t : T} {h : H} {k : K}

open Procedure Backend

/-! ## Open transactions -/

/-- A write transaction is open over a list of transactions, and nothing of them and of the
committed state has changed. -/
def Frame (t : T) (committed : Store H K V) (below : List (TxEntry H K V))
    (backend : Backend T H K V) : Prop :=
  backend.committed = committed ∧ ∃ above base, backend.txs t = above ++ base :: below ∧
    base.readOnly = false

/-- The innermost entry of a frame may be exchanged for one of the same kind. -/
theorem frame_innermost {committed : Store H K V} {below rest : List (TxEntry H K V)}
    {entry entry' : TxEntry H K V} {backend : Backend T H K V}
    (frame : Frame t committed below backend) (split : backend.txs t = entry :: rest)
    (same : entry'.readOnly = entry.readOnly) :
    ∃ above base, entry' :: rest = above ++ base :: below ∧ base.readOnly = false := by
  obtain ⟨_, above, base, lists, writes⟩ := frame
  rw [split] at lists
  cases above with
  | nil =>
    obtain ⟨rfl, rfl⟩ := List.cons.inj lists
    exact ⟨[], entry', rfl, same.trans writes⟩
  | cons first above =>
    obtain ⟨rfl, rfl⟩ := List.cons.inj lists
    exact ⟨entry' :: above, base, rfl, writes⟩

theorem Frame.writing {committed : Store H K V} {below : List (TxEntry H K V)}
    {backend : Backend T H K V} (frame : Frame t committed below backend) :
    0 < writers (backend.txs t) := by
  obtain ⟨_, above, base, lists, writes⟩ := frame
  rw [lists, writers, List.countP_append]
  have one := writers_cons_write writes below
  unfold writers at one
  omega

/-- A frame whose transaction is the innermost one has nothing over it. -/
theorem Frame.innermost {committed : Store H K V} {below rest : List (TxEntry H K V)}
    {entry : TxEntry H K V} (frame : Frame t committed below db.backend)
    (held : Disciplined db) (stack : db.transactionsStack t = false :: stackOf below)
    (split : db.backend.txs t = entry :: rest) : rest = below := by
  obtain ⟨_, above, base, lists, writes⟩ := frame
  rw [held.stack t] at stack
  cases above with
  | nil =>
    rw [split] at lists
    exact (List.cons.inj lists).2
  | cons first above =>
    exfalso
    have nested := held.nested t
    rw [lists] at nested stack
    have firstWrites : first.readOnly = false := by
      cases above with
      | nil => exact WellNested.head_writes nested
      | cons next above => exact WellNested.head_writes nested
    have lengths := congrArg List.length stack
    have long : ∀ entry : TxEntry H K V, entry.readOnly = false → 1 ≤ entry.flags.length := by
      intro entry writes
      unfold TxEntry.flags
      rw [writes, List.length_append]
      exact Nat.le_add_left _ _
    have firstLong := long first firstWrites
    have baseLong := long base writes
    unfold stackOf at lengths
    rw [List.flatMap_append, List.flatMap_cons, List.flatMap_cons, List.length_append,
      List.length_append, List.length_append, List.length_cons] at lengths
    omega

section Committing

variable [DecidableEq T]

/-- Committing into a list keeps the stack that the list stands for. -/
theorem commitInto_stack (b : Backend T H K V) (t : T) (content : Store H K V)
    (rest : List (TxEntry H K V)) :
    stackOf ((b.commitInto t content rest).txs t) = stackOf rest := by
  unfold Backend.commitInto
  cases rest with
  | nil =>
    change stackOf (Function.update b.txs t [] t) = _
    rw [Function.update_self]
  | cons parent below =>
    dsimp only
    split
    · change stackOf (Function.update b.txs t _ t) = _
      rw [Function.update_self]
    · change stackOf (Function.update b.txs t _ t) = _
      rw [Function.update_self]
      rfl

/-- Committing into a write transaction changes the content of that transaction only. -/
theorem commitInto_writing (b : Backend T H K V) (t : T) (content : Store H K V)
    {parent : TxEntry H K V} (writes : parent.readOnly = false) (below : List (TxEntry H K V)) :
    b.commitInto t content (parent :: below) =
      b.withTxs t ({ parent with content } :: below) := by
  unfold Backend.commitInto
  dsimp only
  rw [if_neg (ne_true_of_eq_false writes)]
  rfl

end Committing

/-! ## What a call can do to the backend -/

theorem closing_backend (db : DbAccessor T H K V) (rest : List (TxEntry H K V))
    (change : KeyValueAccessor T K V → KeyValueAccessor T K V) :
    (db.closing rest change).backend = db.backend := by
  unfold DbAccessor.closing
  split
  · rfl
  · rfl

variable [FinEnum H]

theorem Disciplined.dropped (held : Disciplined db) (through : Option H) :
    Disciplined (through.elim db fun h => db.changed h .uncounted) := by
  cases through with
  | none => exact held
  | some h => exact held.changed rfl

variable [DecidableEq T]

/-- A call leaves the backend, writes a container, begins a transaction, takes a read-only
transaction off a list, or ends a write transaction. -/
inductive Moves (db : DbAccessor T H K V) (backend : Backend T H K V) : Prop
  | stays (same : backend = db.backend)
  | writes (t : T) (h : H) (f : Container K V → Container K V)
      (wrote : backend = (db.backend.write t h f).2)
  | begins (t : T) (readOnly : Bool) (began : backend = db.backend.beginTransaction t readOnly)
  | reads (t : T) (rest : List (TxEntry H K V)) (drops : DropsReader (db.backend.txs t) rest)
      (took : backend = db.backend.withTxs t rest)
  | ends (t : T) (entry : TxEntry H K V) (rest : List (TxEntry H K V))
      (split : db.backend.txs t = entry :: rest) (wrote : entry.readOnly = false)
      (nested : WellNested rest)
      (ended : backend = (db.backend.commitInto t entry.content rest).unlocked ∨
        backend = db.backend.withTxs t rest ∨ backend = (db.backend.withTxs t rest).unlocked)

theorem moves_commitTransaction (held : Disciplined db) (t : T) (written : Bool) :
    Moves db (final (commitTransaction t written db)).backend := by
  rcases commitTransaction_cases held t written with
    run | ⟨rest, drops, run⟩ | ⟨entry, rest, split, writes, nested, _, run⟩
  · rw [run]
    exact .stays rfl
  · rw [run]
    exact .reads t rest drops rfl
  · apply Moves.ends t entry rest split writes nested
    rw [run]
    cases written with
    | true =>
      left
      rw [if_pos rfl, final_ok, closing_backend]
      rfl
    | false =>
      right
      left
      rw [if_neg Bool.false_ne_true, final_error, closing_backend]
      rfl

theorem moves_abortTransaction (held : Disciplined db) (t : T) :
    Moves db (final (abortTransaction t db)).backend := by
  rcases abortTransaction_cases held t with
    ⟨_, run⟩ | ⟨entry, rest, split, writes, nested, _, run⟩
  · rw [run]
    exact .stays rfl
  · apply Moves.ends t entry rest split writes nested
    right
    right
    rw [run, final_ok, closing_backend]
    rfl

theorem endTransaction_backend (t : T) (through : Option H) (event : RegionEvent)
    (written : Bool) (db : DbAccessor T H K V) :
    (final (endTransaction t through event written db)).backend =
      match event with
      | .commit => (final (commitTransaction t written db)).backend
      | .abort =>
      (final (abortTransaction t (through.elim db fun h => db.changed h .uncounted))).backend := by
  cases event with
  | commit =>
    cases through with
    | none => rfl
    | some h =>
      change (final (commitThrough t (some h) written db)).backend = _
      rcases commitThrough_some t h written db with same | dropped
      · rw [same]
      · rw [dropped]
        rfl
  | abort =>
    cases through with
    | none => rfl
    | some h => rfl

theorem moves_endTransaction (held : Disciplined db) (t : T) (through : Option H)
    (event : RegionEvent) (written : Bool) :
    Moves db (final (endTransaction t through event written db)).backend := by
  rw [endTransaction_backend]
  cases event with
  | commit => exact moves_commitTransaction held t written
  | abort =>
    have moved := moves_abortTransaction (held.dropped through) t
    cases through with
    | none => exact moved
    | some h =>
      cases moved with
      | stays same => exact .stays same
      | writes u g f wrote => exact .writes u g f wrote
      | begins u readOnly began => exact .begins u readOnly began
      | reads u rest drops took => exact .reads u rest drops took
      | ends u entry rest split wrote nested ended =>
        exact .ends u entry rest split wrote nested ended

/-- Ending the transaction of the innermost region is ending a transaction, if the region has
begun one. -/
theorem endRegion_backend (t : T) (event : RegionEvent) (written : Bool)
    (db : DbAccessor T H K V) :
    (final (endRegion t event written db)).backend = db.backend ∨
    ∃ region, (db.regions t).head? = some region ∧ region.wasBegin = true ∧
      (final (endRegion t event written db)).backend =
        (final (endTransaction t region.through event written db)).backend := by
  rw [endRegion, get_bind]
  cases regions : db.regions t with
  | nil => exact .inl rfl
  | cons region rest =>
    dsimp only
    split
    · next began =>
      refine .inr ⟨region, rfl, began, ?_⟩
      cases run : endTransaction t region.through event written db with
      | ok _ after =>
        rw [bind_of_ok run]
        rfl
      | error reason after =>
        rw [bind_of_error run]
    · exact .inl rfl

theorem leaveRegion_backend (t : T) (written : Bool) (db : DbAccessor T H K V) :
    (final (leaveRegion t written db)).backend = db.backend ∨
    ∃ region, (db.regions t).head? = some region ∧
      (final (leaveRegion t written db)).backend =
        (final (endRegion t region.event written db)).backend := by
  rw [leaveRegion, get_bind]
  cases regions : db.regions t with
  | nil => exact .inl rfl
  | cons region rest =>
    dsimp only
    refine .inr ⟨region, rfl, ?_⟩
    cases run : endRegion t region.event written db with
    | ok _ after =>
      rw [bind_of_ok run]
      rfl
    | error reason after =>
      rw [bind_of_error run]

/-- What a call can do to the backend. -/
theorem perform_moves (held : Disciplined db) (call : AccessorCall T H K V) :
    Moves db (call.perform db).backend := by
  have region : ∀ t event written, Moves db (final (endRegion t event written db)).backend := by
    intro t event written
    rcases endRegion_backend t event written db with same | ⟨_, _, _, ended⟩
    · exact .stays same
    · rw [ended]
      exact moves_endTransaction held t _ event written
  have begun_backend : ∀ (t : T) readOnly,
      (db.begun t readOnly).backend = db.backend.beginTransaction t readOnly := by
    intro t readOnly
    unfold DbAccessor.begun
    dsimp only
    split
    · rfl
    · rfl
  cases call with
  | beginTransaction t readOnly =>
    change Moves db (if _ then _ else _ : DbAccessor T H K V).backend
    split
    · next may =>
      rw [beginTransaction_eq held may, final_ok]
      exact .begins t readOnly (begun_backend t readOnly)
    · exact .stays rfl
  | endTransaction t through event written => exact moves_endTransaction held t through event written
  | enterRegion t through event =>
    change Moves db (if _ then _ else _ : DbAccessor T H K V).backend
    split
    · next may =>
      have writes : (false || db.backend.mayWrite t) = true := by rw [Bool.false_or, may]
      rw [Accessors.enterRegion, bind_of_ok (beginTransaction_eq held writes), get_bind]
      exact .begins t false (begun_backend t false)
    · exact .stays rfl
  | endRegion t event written => exact region t event written
  | willEnd t event =>
    change Moves db (final (Accessors.willEnd t event db)).backend
    rw [Accessors.willEnd, get_bind]
    cases db.regions t with
    | nil => exact .stays rfl
    | cons region rest => exact .stays rfl
  | leaveRegion t written =>
    change Moves db (final (Accessors.leaveRegion t written db)).backend
    rcases leaveRegion_backend t written db with same | ⟨top, _, left⟩
    · exact .stays same
    · rw [left]
      exact region t top.event written
  | set t h k v =>
    obtain ⟨r, run⟩ := setValue_run db t h k v
    change Moves db (final (setValue t h k v db)).backend
    rw [run]
    exact .writes t h _ rfl
  | get t h k =>
    change Moves db (final (getValue t h k db)).backend
    cases asked : (db.containers h).ask t none fun cache => cache.cached k with
    | none =>
      rw [getValue_uncached asked]
      exact .stays rfl
    | some v =>
      rw [getValue_cached asked]
      exact .stays rfl
  | size t h =>
    change Moves db (final (sizeOf t h db)).backend
    rw [sizeOf_run]
    split
    · split
      · exact .stays rfl
      · exact .stays rfl
    · exact .stays rfl
  | clear t h =>
    change Moves db (final (clearValues t h db)).backend
    rw [clearValues_final]
    exact .writes t h _ rfl
  | erase t h k =>
    change Moves db (final (eraseValue t h k db)).backend
    rw [eraseValue_final]
    exact .writes t h _ rfl

/-- A call after which the transaction is still open keeps what is below it. -/
theorem Frame.moves {committed : Store H K V} {below : List (TxEntry H K V)}
    (frame : Frame t committed below db.backend) (held : Disciplined db) {backend : Backend T H K V}
    (moves : Moves db backend)
    (stays : (false :: stackOf below) <:+ stackOf (backend.txs t)) :
    Frame t committed below backend := by
  cases moves with
  | stays same =>
    rw [same]
    exact frame
  | writes u h f wrote =>
    rcases write_cases held u h f with ⟨entry, rest, split, writes, run⟩ | ⟨_, run⟩
    · rw [run] at wrote
      rw [wrote]
      refine ⟨frame.1, ?_⟩
      change ∃ above base, Function.update db.backend.txs u _ t = _ ∧ _
      by_cases here : t = u
      · subst here
        rw [Function.update_self]
        exact frame_innermost frame split rfl
      · rw [Function.update_of_ne here]
        exact frame.2
    · rw [run] at wrote
      rw [wrote]
      exact frame
  | begins u readOnly began =>
    rw [began]
    refine ⟨frame.1, ?_⟩
    obtain ⟨_, above, base, lists, writes⟩ := id frame
    cases readOnly with
    | true =>
      rw [beginTransaction_reads]
      change ∃ above base, Function.update db.backend.txs u _ t = _ ∧ _
      by_cases here : t = u
      · subst here
        rw [Function.update_self]
        cases split : db.backend.txs t with
        | nil =>
          rw [split] at lists
          cases above with
          | nil => cases lists
          | cons _ _ => cases lists
        | cons entry rest => exact frame_innermost frame split rfl
      · rw [Function.update_of_ne here]
        exact frame.2
    | false =>
      rw [beginTransaction_writes]
      change ∃ above base, Function.update db.backend.txs u _ t = _ ∧ _
      by_cases here : t = u
      · subst here
        rw [Function.update_self, lists]
        exact ⟨_ :: above, base, rfl, writes⟩
      · rw [Function.update_of_ne here]
        exact frame.2
  | reads u rest drops took =>
    rw [took]
    refine ⟨frame.1, ?_⟩
    change ∃ above base, Function.update db.backend.txs u _ t = _ ∧ _
    by_cases here : t = u
    · subst here
      rw [Function.update_self]
      have writing := frame.writing
      generalize split : db.backend.txs t = txs at drops writing
      cases drops with
      | snapshot entry readOnly =>
        rw [writers_cons_readOnly readOnly] at writing
        exact absurd writing (Nat.lt_irrefl 0)
      | counted entry rest _ => exact frame_innermost frame split rfl
    · rw [Function.update_of_ne here]
      exact frame.2
  | ends u entry rest split wrote nested ended =>
    have same : u = t := by
      refine held.alone ?_ frame.writing
      rw [split, writers_cons_write wrote]
      exact Nat.succ_pos _
    subst same
    obtain ⟨kept, above, base, lists, writes⟩ := id frame
    rw [split] at lists
    have stack : stackOf (backend.txs u) = stackOf rest := by
      rcases ended with rfl | rfl | rfl
      · exact commitInto_stack _ _ _ _
      · change stackOf (Function.update db.backend.txs u rest u) = _
        rw [Function.update_self]
      · change stackOf (Function.update db.backend.txs u rest u) = _
        rw [Function.update_self]
    cases above with
    | nil =>
      exfalso
      obtain ⟨_, rfl⟩ := List.cons.inj lists
      have shorter := stays.length_le
      rw [stack, List.length_cons] at shorter
      omega
    | cons first above =>
      obtain ⟨_, rfl⟩ := List.cons.inj lists
      have dropped : ∀ b : Backend T H K V,
          b.committed = db.backend.committed →
          b.txs = Function.update db.backend.txs u (above ++ base :: below) →
          Frame u committed below b := by
        intro b same lists
        refine ⟨same.trans kept, above, base, ?_, writes⟩
        rw [lists, Function.update_self]
      rcases ended with replaced | took | took
      · cases above with
        | nil =>
          change backend = (db.backend.commitInto u entry.content (base :: below)).unlocked
            at replaced
          rw [commitInto_writing _ _ _ writes] at replaced
          rw [replaced]
          refine ⟨kept, [], { base with content := entry.content }, ?_, writes⟩
          exact Function.update_self _ _ _
        | cons parent above =>
          have parentWrites : parent.readOnly = false := by
            cases above with
            | nil => exact WellNested.head_writes nested
            | cons next above => exact WellNested.head_writes nested
          change backend = (db.backend.commitInto u entry.content
            (parent :: (above ++ base :: below))).unlocked at replaced
          rw [commitInto_writing _ _ _ parentWrites] at replaced
          rw [replaced]
          refine ⟨kept, { parent with content := entry.content } :: above, base, ?_, writes⟩
          exact Function.update_self _ _ _
      · rw [took]
        exact dropped _ rfl rfl
      · rw [took]
        exact dropped _ rfl rfl

/-! ## Aborting -/

/-- The call begins a write transaction of the thread. -/
def AccessorCall.Begins (call : AccessorCall T H K V) (t : T) : Prop :=
  match call with
  | .beginTransaction u readOnly => u = t ∧ readOnly = false
  | .enterRegion u _ _ => u = t
  | _ => False

/-- The call aborts the innermost transaction of the thread. -/
def AccessorCall.Aborts (call : AccessorCall T H K V) (t : T) (db : DbAccessor T H K V) : Prop :=
  match call with
  | .endTransaction u _ event _ => u = t ∧ event = .abort
  | .endRegion u event _ => u = t ∧ event = .abort ∧
      ∃ region, (db.regions t).head? = some region ∧ region.wasBegin = true
  | .leaveRegion u _ => u = t ∧
      ∃ region, (db.regions t).head? = some region ∧ region.wasBegin = true ∧ region.event = .abort
  | _ => False

/-- The write transaction that a thread has begun over a stack stays open during the calls, and
is the innermost transaction of the thread after them. -/
def StaysOpen (t : T) (outer : List Bool) :
    DbAccessor T H K V → List (AccessorCall T H K V) → Prop
  | db, [] => db.transactionsStack t = false :: outer
  | db, call :: rest =>
      (false :: outer) <:+ db.transactionsStack t ∧ StaysOpen t outer (call.perform db) rest

/-- A call that aborts drops the innermost write transaction. -/
theorem aborts_backend (held : Disciplined db) {call : AccessorCall T H K V}
    (aborts : call.Aborts t db) {outer : List Bool}
    (stack : db.transactionsStack t = false :: outer) :
    ∃ entry rest, db.backend.txs t = entry :: rest ∧ entry.readOnly = false ∧ WellNested rest ∧
      outer = stackOf rest ∧ (call.perform db).backend = (db.backend.withTxs t rest).unlocked := by
  have ended : ∀ through written, ∃ entry rest, db.backend.txs t = entry :: rest ∧
      entry.readOnly = false ∧ WellNested rest ∧ outer = stackOf rest ∧
      (final (endTransaction t through .abort written db)).backend =
        (db.backend.withTxs t rest).unlocked := by
    intro through written
    have dropped := held.dropped through
    have same : (through.elim db fun h => db.changed h .uncounted).backend = db.backend ∧
        (through.elim db fun h => db.changed h .uncounted).transactionsStack =
          db.transactionsStack := by
      cases through with
      | none => exact ⟨rfl, rfl⟩
      | some h => exact ⟨rfl, rfl⟩
    rcases abortTransaction_cases dropped t with
      ⟨apart, _⟩ | ⟨entry, rest, split, writes, nested, full, run⟩
    · rw [same.2] at apart
      exact absurd stack (apart outer)
    · rw [same.1] at split
      rw [same.2, stack] at full
      refine ⟨entry, rest, split, writes, nested, (List.cons.inj full).2, ?_⟩
      rw [endTransaction_backend]
      dsimp only
      rw [run, final_ok, closing_backend]
      change (Backend.withTxs _ t rest).unlocked = _
      rw [same.1]
  have region : ∀ {region : TransactionRegion H} {rest : List (TransactionRegion H)} written,
      db.regions t = region :: rest → region.wasBegin = true →
      (final (endRegion t .abort written db)).backend =
        (final (endTransaction t region.through .abort written db)).backend := by
    intro region rest written regions began
    rw [endRegion, get_bind, regions]
    dsimp only
    rw [if_pos began]
    cases run : endTransaction t region.through .abort written db with
    | ok _ after =>
      rw [bind_of_ok run]
      rfl
    | error reason after =>
      rw [bind_of_error run]
  cases call with
  | endTransaction u through event written =>
    obtain ⟨rfl, rfl⟩ := aborts
    exact ended through written
  | endRegion u event written =>
    obtain ⟨rfl, rfl, top, head, began⟩ := aborts
    obtain ⟨rest, regions⟩ := List.head?_eq_some_iff.mp head
    change ∃ entry rest, _ ∧ _ ∧ _ ∧ _ ∧ (final (endRegion u .abort written db)).backend = _
    rw [region written regions began]
    exact ended top.through written
  | leaveRegion u written =>
    obtain ⟨rfl, top, head, began, event⟩ := aborts
    obtain ⟨rest, regions⟩ := List.head?_eq_some_iff.mp head
    have left : (final (leaveRegion u written db)).backend =
        (final (endRegion u .abort written db)).backend := by
      rw [leaveRegion, get_bind, regions, ← event]
      dsimp only
      cases run : endRegion u top.event written db with
      | ok _ after =>
        rw [bind_of_ok run]
        rfl
      | error reason after =>
        rw [bind_of_error run]
    change ∃ entry rest, _ ∧ _ ∧ _ ∧ _ ∧ (final (leaveRegion u written db)).backend = _
    rw [left, region written regions began]
    exact ended top.through written
  | beginTransaction _ _ => exact absurd aborts id
  | enterRegion _ _ _ => exact absurd aborts id
  | willEnd _ _ => exact absurd aborts id
  | set _ _ _ _ => exact absurd aborts id
  | get _ _ _ => exact absurd aborts id
  | size _ _ => exact absurd aborts id
  | clear _ _ => exact absurd aborts id
  | erase _ _ _ => exact absurd aborts id

end Rollback
end Virie.Accessors
