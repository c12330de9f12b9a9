import Virie.Foundation.Procedure
import Virie.Foundation.RecursiveLock

/-! # Transactions of the database backend

`lmdb_db_backend` keeps the list of the transactions that each thread has open. A read-only
transaction inside another one is only counted on the entry of the innermost one, and the write
transactions of all threads exclude each other by a recursive lock. The library may fail in
beginning and in committing a transaction. Each call takes effect as one step: the list of a thread
is changed by that thread alone, and only the owner of the lock releases it. -/

open Foundation

namespace Virie.Lmdb

/-- A call of the library that begins or ends a transaction, with what the library answers.
Transactions are named in the order of the begins that succeed. -/
inductive LibraryCall where
  | txnBegin (parent : Option Nat) (readOnly : Bool) (ptx : Option Nat)
  | txnCommit (ptx : Nat) (succeeded : Bool)
  | txnAbort (ptx : Nat)
deriving DecidableEq

/-- The transaction that a call ends. A commit that fails frees the transaction too. -/
def LibraryCall.ends : LibraryCall → Option Nat
  | txnBegin .. => none
  | txnCommit ptx _ => some ptx
  | txnAbort ptx => some ptx

/-- `tx_entry`: a transaction with the number of read-only transactions that are emulated by it.
A read-only transaction counts itself. -/
structure TxEntry where
  ptx : Nat
  readOnly : Bool
  count : Nat
deriving DecidableEq

namespace TxEntry

/-- The test of `commit_transaction` and `abort_transaction` for ending the transaction. -/
def endsTransaction (txe : TxEntry) : Bool := txe.count = 0 || (txe.readOnly && txe.count = 1)

/-- The test of `pop_tx_entry` for taking the entry off the list. -/
def isLast (txe : TxEntry) : Bool :=
  (txe.readOnly && txe.count < 2) || (!txe.readOnly && txe.count < 1)

/-- The entry with another read-only transaction counted. The counter is a `size_t`. -/
def counted (txe : TxEntry) : TxEntry := { txe with count := (txe.count + 1) % 2 ^ 64 }

def uncounted (txe : TxEntry) : TxEntry := { txe with count := txe.count - 1 }

/-- The count of an entry when it enters the list. -/
def base (txe : TxEntry) : Nat := if txe.readOnly then 1 else 0

theorem isLast_eq (txe : TxEntry) : txe.isLast = txe.endsTransaction := by
  rw [Bool.eq_iff_iff]
  cases reader : txe.readOnly with
  | true =>
    simp [isLast, endsTransaction, reader]
    omega
  | false => simp [isLast, endsTransaction, reader]

theorem endsTransaction_iff {txe : TxEntry} (based : txe.base ≤ txe.count) :
    txe.endsTransaction = true ↔ txe.count = txe.base := by
  cases reader : txe.readOnly with
  | true =>
    simp [base, reader] at based
    simp [endsTransaction, base, reader]
    omega
  | false => simp [endsTransaction, base, reader]

end TxEntry

/-- The state of the backend, and what the library was asked for, the newest call first. The newest
entry of a thread's list comes first. A thread that is not a key of `m_txs` has `none`. -/
structure LmdbDbBackend (T : Type) where
  penv : Bool
  txs : T → Option (List TxEntry)
  writeExclusiveLock : RecursiveLock T
  begun : Nat
  calls : List LibraryCall

namespace LmdbDbBackend

variable {T : Type} {b : LmdbDbBackend T} {t : T}

/-- The entries of a thread, the newest first. -/
def entries (b : LmdbDbBackend T) (t : T) : List TxEntry := (b.txs t).getD []

/-- The number of write transactions on the list of a thread. -/
def writeCount (b : LmdbDbBackend T) (t : T) : Nat := (b.entries t).countP fun txe => !txe.readOnly

/-- The transactions that the library was asked to commit or to abort, the newest call first. -/
def ended (b : LmdbDbBackend T) : List Nat := b.calls.filterMap LibraryCall.ends

theorem txs_of_entries {top : TxEntry} {rest : List TxEntry} (before : b.entries t = top :: rest) :
    b.txs t = some (top :: rest) := by
  cases listed : b.txs t with
  | none =>
    rw [entries, listed] at before
    cases before
  | some txs =>
    rw [entries, listed, Option.getD_some] at before
    rw [before]

variable [DecidableEq T]

/-- The backend with the list of a thread set. -/
def withTxs (b : LmdbDbBackend T) (t : T) (txs : Option (List TxEntry)) : LmdbDbBackend T :=
  { b with txs := Function.update b.txs t txs }

@[simp] theorem entries_withTxs (b : LmdbDbBackend T) (t : T) (txs : Option (List TxEntry)) :
    (b.withTxs t txs).entries = Function.update b.entries t (txs.getD []) := by
  funext u
  by_cases same : u = t
  · subst same
    simp [entries, withTxs]
  · simp [entries, withTxs, same]

def called (b : LmdbDbBackend T) (call : LibraryCall) : LmdbDbBackend T :=
  { b with calls := call :: b.calls }

def lockWrite (b : LmdbDbBackend T) (t : T) : LmdbDbBackend T :=
  { b with writeExclusiveLock := b.writeExclusiveLock.take t }

def unlockWrite (b : LmdbDbBackend T) (t : T) : LmdbDbBackend T :=
  { b with writeExclusiveLock := b.writeExclusiveLock.release t }

/-- The transaction that encloses a new write transaction: none inside a read-only one. -/
def parentTx : List TxEntry → Option Nat
  | [] => none
  | top :: _ => if top.readOnly then none else some top.ptx

/-- Ask the library for a transaction and put it on the list of the thread. `m_txs[...]` has made
the list when the library fails. -/
def openTransaction (b : LmdbDbBackend T) (t : T) (readOnly succeeds : Bool) :
    Outcome Unit × LmdbDbBackend T :=
  let rtxlist := b.entries t
  let parent := parentTx rtxlist
  if succeeds then
    let txe : TxEntry := { ptx := b.begun, readOnly, count := if readOnly then 1 else 0 }
    let begun := b.called (.txnBegin parent readOnly (some b.begun))
    (.ok (), { begun.withTxs t (some (txe :: rtxlist)) with begun := b.begun + 1 })
  else (.error .refused, (b.called (.txnBegin parent readOnly none)).withTxs t (some rtxlist))

/-- Begin a transaction: a read-only one inside another is counted on the entry on top. -/
def countOrOpen (b : LmdbDbBackend T) (t : T) (readOnly succeeds : Bool) :
    Outcome Unit × LmdbDbBackend T :=
  match b.entries t with
  | [] => b.openTransaction t readOnly succeeds
  | top :: rest =>
    if readOnly then (.ok (), b.withTxs t (some (top.counted :: rest)))
    else b.openTransaction t readOnly succeeds

/-- `begin_transaction`, by a thread that need not wait for the lock. `succeeds` is the answer of
the library. -/
def beginTransaction (b : LmdbDbBackend T) (t : T) (readOnly succeeds : Bool) :
    Outcome Unit × LmdbDbBackend T :=
  let b := if readOnly then b else b.lockWrite t
  if b.penv then b.countOrOpen t readOnly succeeds else (.error .thrown, b)

/-- `pop_tx_entry`: the entry on top, and the backend without it or with one read-only transaction
less counted on it. A thread without entries leaves `m_txs`. -/
def popTxEntry (b : LmdbDbBackend T) (t : T) : Option (TxEntry × LmdbDbBackend T) :=
  match b.txs t with
  | none => none
  | some [] => none
  | some (txe :: rest) =>
    if txe.isLast then some (txe, b.withTxs t (if rest.isEmpty then none else some rest))
    else some (txe, b.withTxs t (some (txe.uncounted :: rest)))

/-- `commit_transaction`. `succeeds` is the answer of the library. -/
def commitTransaction (b : LmdbDbBackend T) (t : T) (succeeds : Bool) :
    Outcome Unit × LmdbDbBackend T :=
  match b.popTxEntry t with
  | none => (.error .refused, b)
  | some (txe, b) =>
    if txe.endsTransaction then
      let b := b.called (.txnCommit txe.ptx succeeds)
      if !succeeds then (.error .refused, b)
      else if !txe.readOnly && txe.count = 0 then (.ok (), b.unlockWrite t)
      else (.ok (), b)
    else (.ok (), b)

/-- `abort_transaction`. -/
def abortTransaction (b : LmdbDbBackend T) (t : T) : LmdbDbBackend T :=
  match b.popTxEntry t with
  | none => b
  | some (txe, b) =>
    if txe.endsTransaction then
      let b := b.called (.txnAbort txe.ptx)
      if !txe.readOnly && txe.count = 0 then b.unlockWrite t else b
    else b

/-! ## What the functions return -/

/-- The list of a thread once an entry is taken off. A list that is empty is erased. -/
def remaining (rest : List TxEntry) : Option (List TxEntry) :=
  if rest.isEmpty then none else some rest

@[simp] theorem remaining_getD (rest : List TxEntry) : (remaining rest).getD [] = rest := by
  cases rest with
  | nil => rfl
  | cons top below => rfl

theorem openTransaction_ok (b : LmdbDbBackend T) (t : T) (readOnly : Bool) :
    ∃ after, b.openTransaction t readOnly true = (.ok (), after) ∧
      after.entries = Function.update b.entries t
        (⟨b.begun, readOnly, if readOnly then 1 else 0⟩ :: b.entries t) ∧
      after.begun = b.begun + 1 ∧ after.ended = b.ended ∧
      after.writeExclusiveLock = b.writeExclusiveLock :=
  ⟨_, rfl, entries_withTxs _ t _, rfl, rfl, rfl⟩

theorem openTransaction_refused (b : LmdbDbBackend T) (t : T) (readOnly : Bool) :
    ∃ after, b.openTransaction t readOnly false = (.error .refused, after) ∧
      after.entries = b.entries ∧ after.begun = b.begun ∧ after.ended = b.ended ∧
      after.writeExclusiveLock = b.writeExclusiveLock :=
  ⟨_, rfl, (entries_withTxs _ t _).trans (Function.update_eq_self t b.entries), rfl, rfl, rfl⟩

theorem countOrOpen_counts {top : TxEntry} {rest : List TxEntry} {succeeds : Bool}
    (before : b.entries t = top :: rest) :
    b.countOrOpen t true succeeds = (.ok (), b.withTxs t (some (top.counted :: rest))) := by
  simp only [countOrOpen, before, if_true]

theorem countOrOpen_opens {readOnly succeeds : Bool}
    (unnested : readOnly = true → b.entries t = []) :
    b.countOrOpen t readOnly succeeds = b.openTransaction t readOnly succeeds := by
  cases readOnly with
  | true => simp only [countOrOpen, unnested rfl]
  | false =>
    rw [countOrOpen]
    cases b.entries t with
    | nil => rfl
    | cons top rest => rfl

theorem popTxEntry_nil (empty : b.entries t = []) : b.popTxEntry t = none := by
  cases listed : b.txs t with
  | none => simp only [popTxEntry, listed]
  | some txs =>
    rw [entries, listed, Option.getD_some] at empty
    subst empty
    simp only [popTxEntry, listed]

theorem popTxEntry_last {top : TxEntry} {rest : List TxEntry} (before : b.entries t = top :: rest)
    (last : top.endsTransaction = true) :
    b.popTxEntry t = some (top, b.withTxs t (remaining rest)) := by
  have isLast : top.isLast = true := top.isLast_eq.trans last
  simp only [popTxEntry, txs_of_entries before, isLast, if_true, remaining]

theorem popTxEntry_counted {top : TxEntry} {rest : List TxEntry}
    (before : b.entries t = top :: rest) (counts : top.endsTransaction = false) :
    b.popTxEntry t = some (top, b.withTxs t (some (top.uncounted :: rest))) := by
  have isLast : top.isLast = false := top.isLast_eq.trans counts
  simp only [popTxEntry, txs_of_entries before, isLast, Bool.false_eq_true, if_false]

/-- The backend once the transaction on top was ended by a call. -/
def popped (b : LmdbDbBackend T) (t : T) (rest : List TxEntry) (call : LibraryCall) :
    LmdbDbBackend T :=
  (b.withTxs t (remaining rest)).called call

theorem popped_entries (b : LmdbDbBackend T) (t : T) (rest : List TxEntry) (call : LibraryCall) :
    (b.popped t rest call).entries = Function.update b.entries t rest :=
  (b.entries_withTxs t (remaining rest)).trans <| by rw [remaining_getD]

theorem popped_txs (b : LmdbDbBackend T) (t : T) (rest : List TxEntry) (call : LibraryCall) :
    (b.popped t rest call).txs t = remaining rest :=
  Function.update_self ..

theorem commitTransaction_nil {succeeds : Bool} (empty : b.entries t = []) :
    b.commitTransaction t succeeds = (.error .refused, b) := by
  rw [commitTransaction, popTxEntry_nil empty]

theorem commitTransaction_counted {succeeds : Bool} {top : TxEntry} {rest : List TxEntry}
    (before : b.entries t = top :: rest) (counts : top.endsTransaction = false) :
    b.commitTransaction t succeeds = (.ok (), b.withTxs t (some (top.uncounted :: rest))) := by
  simp only [commitTransaction, popTxEntry_counted before counts, counts, Bool.false_eq_true,
    if_false]

theorem commitTransaction_last {top : TxEntry} {rest : List TxEntry}
    (before : b.entries t = top :: rest) (last : top.endsTransaction = true) :
    (b.commitTransaction t true).2 =
      if !top.readOnly && top.count = 0 then
        (b.popped t rest (.txnCommit top.ptx true)).unlockWrite t
      else b.popped t rest (.txnCommit top.ptx true) := by
  simp only [commitTransaction, popTxEntry_last before last, last, if_true, Bool.not_true,
    Bool.false_eq_true, if_false, apply_ite Prod.snd]
  rfl

theorem commitTransaction_fails {top : TxEntry} {rest : List TxEntry}
    (before : b.entries t = top :: rest) (last : top.endsTransaction = true) :
    b.commitTransaction t false =
      (.error .refused, b.popped t rest (.txnCommit top.ptx false)) := by
  simp only [commitTransaction, popTxEntry_last before last, last, if_true, Bool.not_false]
  rfl

theorem abortTransaction_nil (empty : b.entries t = []) : b.abortTransaction t = b := by
  rw [abortTransaction, popTxEntry_nil empty]

theorem abortTransaction_counted {top : TxEntry} {rest : List TxEntry}
    (before : b.entries t = top :: rest) (counts : top.endsTransaction = false) :
    b.abortTransaction t = b.withTxs t (some (top.uncounted :: rest)) := by
  simp only [abortTransaction, popTxEntry_counted before counts, counts, Bool.false_eq_true,
    if_false]

theorem abortTransaction_last {top : TxEntry} {rest : List TxEntry}
    (before : b.entries t = top :: rest) (last : top.endsTransaction = true) :
    b.abortTransaction t =
      if !top.readOnly && top.count = 0 then
        (b.popped t rest (.txnAbort top.ptx)).unlockWrite t
      else b.popped t rest (.txnAbort top.ptx) := by
  simp only [abortTransaction, popTxEntry_last before last, last, if_true]
  rfl

end LmdbDbBackend
end Virie.Lmdb
