import Virie.Accessors.Accessors

/-! # Lists of transactions

The list of transactions that the backend keeps for a thread unfolds to the stack that the
database keeps for it: an entry stands for its own transaction and for the read-only ones
counted on it. Only the outermost entry can be read-only. -/

open Foundation

namespace Virie.Accessors

section Lists

variable {H K V : Type} [Key K]

/-- The stack of transactions that an entry stands for. -/
def TxEntry.flags (entry : TxEntry H K V) : List Bool :=
  List.replicate entry.count true ++ if entry.readOnly then [] else [false]

/-- The stack of transactions that a thread's list stands for. -/
def stackOf (txs : List (TxEntry H K V)) : List Bool := txs.flatMap TxEntry.flags

/-- The number of write transactions on a list. -/
def writers (txs : List (TxEntry H K V)) : Nat := txs.countP fun entry => !entry.readOnly

/-- Only the outermost transaction of a thread is an entry of its own that is read-only. -/
inductive WellNested : List (TxEntry H K V) → Prop
  | empty : WellNested []
  | snapshot {entry : TxEntry H K V} (readOnly : entry.readOnly = true)
      (counted : 0 < entry.count) : WellNested [entry]
  | write {entry : TxEntry H K V} {rest : List (TxEntry H K V)} (writes : entry.readOnly = false)
      (below : WellNested rest) : WellNested (entry :: rest)

@[simp] theorem stackOf_nil : stackOf ([] : List (TxEntry H K V)) = [] := rfl

@[simp] theorem stackOf_cons (entry : TxEntry H K V) (rest : List (TxEntry H K V)) :
    stackOf (entry :: rest) = entry.flags ++ stackOf rest := rfl

@[simp] theorem writers_nil : writers ([] : List (TxEntry H K V)) = 0 := rfl

theorem writers_cons_readOnly {entry : TxEntry H K V} (readOnly : entry.readOnly = true)
    (rest : List (TxEntry H K V)) : writers (entry :: rest) = writers rest := by
  simp only [writers, List.countP_cons, readOnly, Bool.not_true, Bool.false_eq_true, ↓reduceIte,
    Nat.add_zero]

theorem writers_cons_write {entry : TxEntry H K V} (writes : entry.readOnly = false)
    (rest : List (TxEntry H K V)) : writers (entry :: rest) = writers rest + 1 := by
  simp only [writers, List.countP_cons, writes, Bool.not_false, ↓reduceIte]

theorem hasWriterTxInStack_flags (entry : TxEntry H K V) (rest : List Bool) :
    hasWriterTxInStack (entry.flags ++ rest) = (!entry.readOnly || hasWriterTxInStack rest) := by
  have counted : (List.replicate entry.count true).any (fun readOnly => !readOnly) = false := by
    rw [List.any_eq_false]
    intro flag member
    rw [(List.mem_replicate.mp member).2]
    exact Bool.false_ne_true
  unfold hasWriterTxInStack TxEntry.flags
  rw [List.any_append, List.any_append, counted, Bool.false_or]
  cases entry.readOnly with
  | true => rfl
  | false => rfl

/-- A thread has a write transaction on its stack if it has one on its list. -/
theorem hasWriterTxInStack_stackOf (txs : List (TxEntry H K V)) :
    hasWriterTxInStack (stackOf txs) = decide (0 < writers txs) := by
  induction txs with
  | nil => rfl
  | cons entry rest ih =>
    rw [stackOf_cons, hasWriterTxInStack_flags, ih]
    cases kind : entry.readOnly with
    | true => rw [writers_cons_readOnly kind, Bool.not_true, Bool.false_or]
    | false =>
      rw [writers_cons_write kind, Bool.not_false, Bool.true_or]
      exact (decide_eq_true (Nat.succ_pos _)).symm

/-- A list with a read-only entry stands for a stack that a read-only transaction began. -/
theorem WellNested.began_reading {txs : List (TxEntry H K V)} (nested : WellNested txs)
    {entry : TxEntry H K V} (member : entry ∈ txs) (readOnly : entry.readOnly = true) :
    (stackOf txs).getLast? = some true := by
  induction nested with
  | empty => cases member
  | @snapshot single kind counted =>
    unfold stackOf TxEntry.flags
    rw [List.flatMap_singleton, kind, if_pos rfl, List.append_nil, List.getLast?_replicate,
      if_neg (by omega)]
  | @write top rest writes below ih =>
    rcases List.mem_cons.mp member with rfl | member
    · rw [writes] at readOnly
      cases readOnly
    · rw [stackOf_cons, List.getLast?_append, ih member]
      rfl

/-- What lies over another transaction is a write transaction. -/
theorem WellNested.head_writes {entry next : TxEntry H K V} {rest : List (TxEntry H K V)}
    (nested : WellNested (entry :: next :: rest)) : entry.readOnly = false := by
  cases nested with
  | write writes _ => exact writes

/-- Without write transactions a thread has no transaction, or one read-only entry. -/
theorem WellNested.of_no_writers {txs : List (TxEntry H K V)} (nested : WellNested txs)
    (none : writers txs = 0) : txs = [] ∨ ∃ entry, txs = [entry] ∧ entry.readOnly = true := by
  cases nested with
  | empty => exact .inl rfl
  | snapshot readOnly _ => exact .inr ⟨_, rfl, readOnly⟩
  | write writes below =>
    rw [writers_cons_write writes] at none
    omega

end Lists

/-! ## Taking a transaction off a list -/

section Popping

variable {H K V : Type} [Key K]

open Backend

@[simp] theorem TxEntry.uncounted_readOnly (entry : TxEntry H K V) :
    entry.uncounted.readOnly = entry.readOnly := rfl

theorem flags_counted {entry : TxEntry H K V} (counted : 0 < entry.count) :
    entry.flags = true :: entry.uncounted.flags := by
  obtain ⟨count, same⟩ := Nat.exists_eq_succ_of_ne_zero (Nat.pos_iff_ne_zero.mp counted)
  unfold TxEntry.flags TxEntry.uncounted
  rw [same, List.replicate_succ]
  rfl

theorem flags_write {entry : TxEntry H K V} (writes : entry.readOnly = false)
    (uncounted : entry.count = 0) : entry.flags = [false] := by
  unfold TxEntry.flags
  rw [writes, uncounted]
  rfl

theorem flags_snapshot {entry : TxEntry H K V} (readOnly : entry.readOnly = true)
    (last : entry.count = 1) : entry.flags = [true] := by
  unfold TxEntry.flags
  rw [readOnly, last]
  rfl

theorem popTxEntry_last {entry : TxEntry H K V} (last : entry.isLast = true)
    (rest : List (TxEntry H K V)) : popTxEntry (entry :: rest) = some (entry, rest) := by
  rw [popTxEntry, if_pos last]

theorem popTxEntry_counted {entry : TxEntry H K V} (more : entry.isLast = false)
    (rest : List (TxEntry H K V)) :
    popTxEntry (entry :: rest) = some (entry, entry.uncounted :: rest) := by
  rw [popTxEntry, if_neg (ne_true_of_eq_false more)]

/-- The innermost transaction of a thread: a read-only one that is an entry of its own, a
read-only one that is counted on an entry, or a write transaction that has none counted on it. -/
inductive Innermost : List (TxEntry H K V) → Prop
  | snapshot (entry : TxEntry H K V) (readOnly : entry.readOnly = true)
      (popped : popTxEntry [entry] = some (entry, []))
      (stack : stackOf [entry] = [true]) : Innermost [entry]
  | counted (entry : TxEntry H K V) (rest : List (TxEntry H K V))
      (kind : (entry.readOnly || decide (entry.count ≠ 0)) = true)
      (popped : popTxEntry (entry :: rest) = some (entry, entry.uncounted :: rest))
      (stack : stackOf (entry :: rest) = true :: stackOf (entry.uncounted :: rest))
      (nested : WellNested (entry.uncounted :: rest)) : Innermost (entry :: rest)
  | write (entry : TxEntry H K V) (rest : List (TxEntry H K V)) (writes : entry.readOnly = false)
      (uncounted : entry.count = 0) (popped : popTxEntry (entry :: rest) = some (entry, rest))
      (stack : stackOf (entry :: rest) = false :: stackOf rest) (nested : WellNested rest) :
      Innermost (entry :: rest)

theorem WellNested.innermost {txs : List (TxEntry H K V)} (nested : WellNested txs) :
    txs = [] ∨ Innermost txs := by
  cases nested with
  | empty => exact .inl rfl
  | @snapshot entry readOnly counted =>
    right
    have kind : entry.isLast = decide (entry.count < 2) := by rw [TxEntry.isLast, if_pos readOnly]
    by_cases last : entry.count < 2
    · have isLast : entry.isLast = true := by rw [kind, decide_eq_true last]
      refine .snapshot entry readOnly (popTxEntry_last isLast []) ?_
      rw [stackOf_cons, flags_snapshot readOnly (by omega), stackOf_nil, List.append_nil]
    · have more : entry.isLast = false := by rw [kind, decide_eq_false last]
      refine .counted entry [] (by rw [readOnly, Bool.true_or]) (popTxEntry_counted more []) ?_
        (.snapshot readOnly ?_)
      · rw [stackOf_cons, stackOf_cons, flags_counted counted, List.cons_append]
      · change 0 < entry.count - 1
        omega
  | @write entry rest writes below =>
    right
    have kind : entry.isLast = decide (entry.count < 1) := by
      rw [TxEntry.isLast, if_neg (ne_true_of_eq_false writes)]
    by_cases last : entry.count < 1
    · have isLast : entry.isLast = true := by rw [kind, decide_eq_true last]
      have uncounted : entry.count = 0 := by omega
      refine .write entry rest writes uncounted (popTxEntry_last isLast rest) ?_ below
      rw [stackOf_cons, flags_write writes uncounted, List.singleton_append]
    · have more : entry.isLast = false := by rw [kind, decide_eq_false last]
      refine .counted entry rest ?_ (popTxEntry_counted more rest) ?_ (.write writes below)
      · rw [writes, Bool.false_or]
        exact decide_eq_true (by omega)
      · rw [stackOf_cons, stackOf_cons, flags_counted (by omega), List.cons_append]

end Popping

end Virie.Accessors
