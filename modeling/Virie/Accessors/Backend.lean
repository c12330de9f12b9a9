import Virie.Foundation.Container

/-! # The database backend

`lmdb_db_backend` keeps, for every thread, the list of the transactions it has open. A
write transaction works on a copy of what encloses it: the write transaction below it, or
the committed state. Committing replaces the enclosing copy and aborting drops the
transaction's own. A read-only transaction of a thread that has none open shows the state
that was committed when it began; inside another transaction it is only counted. One
thread at a time holds the lock of the write transactions. -/

open Foundation

namespace Virie.Accessors

/-- The entries of every container of a database. -/
abbrev Store (H K V : Type) [Key K] := H → Container K V

/-- A transaction on a thread's list, with the number of read-only transactions that are
counted on it. -/
structure TxEntry (H K V : Type) [Key K] where
  content : Store H K V
  readOnly : Bool
  count : Nat

/-- The state of the backend. The innermost transaction of a thread comes first. -/
structure Backend (T H K V : Type) [Key K] where
  committed : Store H K V
  txs : T → List (TxEntry H K V)
  writeExclusiveLock : Option (T × Nat)

namespace TxEntry

variable {H K V : Type} [Key K]

/-- Whether taking one transaction off the entry leaves nothing of it. -/
def isLast (entry : TxEntry H K V) : Bool :=
  if entry.readOnly then entry.count < 2 else entry.count < 1

/-- The entry with one read-only transaction less counted on it. -/
def uncounted (entry : TxEntry H K V) : TxEntry H K V := { entry with count := entry.count - 1 }

end TxEntry

namespace Backend

variable {T H K V : Type} [DecidableEq T] [DecidableEq H] [Key K]

/-- What a list of transactions shows over the committed state. -/
def shown (committed : Store H K V) : List (TxEntry H K V) → Store H K V
  | [] => committed
  | entry :: _ => entry.content

/-- What a thread sees: its innermost transaction, and the committed state without one. -/
def view (b : Backend T H K V) (t : T) : Store H K V := shown b.committed (b.txs t)

/-- What encloses a write transaction on top of a list: a read-only transaction cannot be
the parent of a write transaction. -/
def enclosing (committed : Store H K V) : List (TxEntry H K V) → Store H K V
  | [] => committed
  | parent :: _ => if parent.readOnly then committed else parent.content

/-- Whether the thread may take the lock of the write transactions without waiting. -/
def mayWrite (b : Backend T H K V) (t : T) : Bool :=
  match b.writeExclusiveLock with
  | none => true
  | some (owner, _) => owner = t

/-- The lock taken once more by a thread. -/
def lockWrite (lock : Option (T × Nat)) (t : T) : Option (T × Nat) :=
  some (t, (lock.map Prod.snd).getD 0 + 1)

/-- The lock released once. -/
def unlockWrite (lock : Option (T × Nat)) : Option (T × Nat) :=
  lock.bind fun held => if held.2 ≤ 1 then none else some (held.1, held.2 - 1)

/-- Begin a transaction. A write transaction is begun by a thread that may take the lock. -/
def beginTransaction (b : Backend T H K V) (t : T) (readOnly : Bool) : Backend T H K V where
  committed := b.committed
  txs := Function.update b.txs t <|
    match readOnly, b.txs t with
    | true, parent :: rest => { parent with count := parent.count + 1 } :: rest
    | true, [] => [{ content := b.committed, readOnly := true, count := 1 }]
    | false, txs => { content := enclosing b.committed txs, readOnly := false, count := 0 } :: txs
  writeExclusiveLock :=
    if readOnly then b.writeExclusiveLock else lockWrite b.writeExclusiveLock t

/-- The transaction on top of a thread's list, and the list without it. -/
def popTxEntry : List (TxEntry H K V) → Option (TxEntry H K V × List (TxEntry H K V))
  | [] => none
  | entry :: rest => some (entry, if entry.isLast then rest else entry.uncounted :: rest)

/-- Commit the content of a write transaction into what encloses it. -/
def commitInto (b : Backend T H K V) (t : T) (content : Store H K V)
    (rest : List (TxEntry H K V)) : Backend T H K V :=
  match rest with
  | parent :: below =>
      if parent.readOnly then
        { b with committed := content, txs := Function.update b.txs t rest }
      else { b with txs := Function.update b.txs t ({ parent with content } :: below) }
  | [] => { b with committed := content, txs := Function.update b.txs t [] }

/-- Commit the innermost transaction of a thread; `written` says whether the pages of a
write transaction reach the disk. If they do not, they are lost and the lock stays taken. -/
def commitTransaction (b : Backend T H K V) (t : T) (written : Bool) : Bool × Backend T H K V :=
  match popTxEntry (b.txs t) with
  | none => (false, b)
  | some (entry, rest) =>
      if entry.readOnly || entry.count ≠ 0 then
        (true, { b with txs := Function.update b.txs t rest })
      else if written then
        let b' := commitInto b t entry.content rest
        (true, { b' with writeExclusiveLock := unlockWrite b'.writeExclusiveLock })
      else (false, { b with txs := Function.update b.txs t rest })

/-- Abort the innermost transaction of a thread. -/
def abortTransaction (b : Backend T H K V) (t : T) : Backend T H K V :=
  match popTxEntry (b.txs t) with
  | none => b
  | some (entry, rest) =>
      { b with
        txs := Function.update b.txs t rest
        writeExclusiveLock :=
          if entry.readOnly || entry.count ≠ 0 then b.writeExclusiveLock
          else unlockWrite b.writeExclusiveLock }

/-- Change a container within the innermost transaction of a thread. A thread without one,
and one whose innermost transaction is read-only, is refused. -/
def write (b : Backend T H K V) (t : T) (h : H) (f : Container K V → Container K V) :
    Bool × Backend T H K V :=
  match b.txs t with
  | [] => (false, b)
  | entry :: rest =>
      if entry.readOnly then (false, b)
      else
        let content := Function.update entry.content h (f (entry.content h))
        (true, { b with txs := Function.update b.txs t ({ entry with content } :: rest) })

def set (b : Backend T H K V) (t : T) (h : H) (k : K) (v : V) : Bool × Backend T H K V :=
  b.write t h fun container => container.set k v

/-- Erasing reports whether there was an entry. -/
def erase (b : Backend T H K V) (t : T) (h : H) (k : K) : Bool × Backend T H K V :=
  let present := (b.view t h).has k
  let result := b.write t h fun container => container.erase k
  (result.1 && present, result.2)

def clear (b : Backend T H K V) (t : T) (h : H) : Bool × Backend T H K V :=
  b.write t h fun _ => ∅

/-- Reading without a transaction begins a read-only one for the time of the call. -/
def get (b : Backend T H K V) (t : T) (h : H) (k : K) : Option V := (b.view t h).get k

def size (b : Backend T H K V) (t : T) (h : H) : Nat := (b.view t h).size

end Backend
end Virie.Accessors
