import Virie.Accessors.Backend
import Virie.Accessors.Cache
import Virie.Foundation.Procedure
import Virie.Foundation.Runs

/-! # Database accessors

`basic_db_accessor` hands the calls of its containers to the backend and keeps, for every
thread, the stack of the transactions the thread has begun. The first write transaction of a
thread reserves the caches of the containers to it, and the end of that transaction releases
them. A container remembers how many elements it has, and a cached one the values it read and
wrote. `transaction_region` ends the transaction it has begun when its scope is left. -/

open Foundation

namespace Virie.Accessors

/-- A key-value container bound to the database: `basic_key_value_accessor`, or
`cached_key_value_accessor` when it has a cache of values. -/
structure KeyValueAccessor (T K V : Type) [Key K] where
  sizeCache : Nat
  sizeCacheValid : Bool
  isolation : IsolationLock T
  cache : Option (CacheBase K V)

/-- How a transaction region ends the transaction when its scope is left. -/
inductive RegionEvent where
  | commit
  | abort
deriving DecidableEq

/-- A transaction region over the database, or over one of its containers. -/
structure TransactionRegion (H : Type) where
  through : Option H
  event : RegionEvent
  wasBegin : Bool
deriving DecidableEq

/-- The database with its containers, and the regions every thread is in. -/
structure DbAccessor (T H K V : Type) [Key K] where
  backend : Backend T H K V
  transactionsStack : T → List Bool
  containers : H → KeyValueAccessor T K V
  regions : T → List (TransactionRegion H)

/-- A procedure of the database. -/
abbrev DbCall (T H K V : Type) [Key K] (α : Type) := Procedure (DbAccessor T H K V) α

open Procedure

section Calls

variable {T H K V : Type} [DecidableEq T] [FinEnum H] [Key K]

/-- Whether there is a write transaction on a stack of transactions. -/
def hasWriterTxInStack (stack : List Bool) : Bool := stack.any fun readOnly => !readOnly

/-- Run a call of the backend. -/
def onBackend {α : Type} (call : Backend T H K V → α × Backend T H K V) : DbCall T H K V α :=
  fun db => .ok (call db.backend).1 { db with backend := (call db.backend).2 }

/-- Change one of the containers. -/
def onContainer (h : H) (change : KeyValueAccessor T K V → KeyValueAccessor T K V) :
    DbCall T H K V Unit :=
  modify fun db => { db with containers := Function.update db.containers h (change (db.containers h)) }

/-- Replace the calling thread's stack of transactions. -/
def setStack (t : T) (stack : List Bool) : DbCall T H K V Unit :=
  modify fun db => { db with transactionsStack := Function.update db.transactionsStack t stack }

/-! ## What the containers are told -/

def setIsolationMode (t : T) (h : H) : DbCall T H K V Unit := do
  let db ← get
  if (db.containers h).isolation.currentWriterThread.isSome then throw .thrown
  onContainer h fun accessor => { accessor with isolation := ⟨some t⟩ }

def resetIsolationMode (h : H) : DbCall T H K V Unit := do
  let db ← get
  if (db.containers h).isolation.currentWriterThread.isNone then throw .thrown
  onContainer h fun accessor => { accessor with isolation := ⟨none⟩ }

/-- Empty the cache of values, if the thread may use it. -/
def clearCache (t : T) (h : H) : DbCall T H K V Unit :=
  onContainer h fun accessor =>
    if accessor.isolation.allows t then { accessor with cache := accessor.cache.map .clear }
    else accessor

def onWriteTransactionBegin (t : T) (h : H) : DbCall T H K V Unit := setIsolationMode t h

def onWriteTransactionCommit (h : H) : DbCall T H K V Unit := resetIsolationMode h

def onWriteTransactionAbort (t : T) (h : H) : DbCall T H K V Unit := do
  clearCache t h
  resetIsolationMode h

/-! ## Transactions -/

def beginTransaction (t : T) (readOnly : Bool) : DbCall T H K V Bool := do
  onBackend fun backend => ((), backend.beginTransaction t readOnly)
  let db ← get
  let stack := db.transactionsStack t
  setStack t (readOnly :: stack)
  onlyIf (!hasWriterTxInStack stack && !readOnly)
    (forEach (onWriteTransactionBegin t) (FinEnum.toList H))
  return true

def commitTransaction (t : T) (written : Bool) : DbCall T H K V Unit := do
  let db ← get
  let readOnly ← demand .thrown (db.transactionsStack t).head?
  let r ← onBackend fun backend => backend.commitTransaction t written
  let rest := (db.transactionsStack t).tail
  setStack t rest
  onlyIf (!readOnly && !hasWriterTxInStack rest)
    (forEach onWriteTransactionCommit (FinEnum.toList H))
  if r then return () else throw .thrown

def abortTransaction (t : T) : DbCall T H K V Unit := do
  let db ← get
  let readOnly ← demand .thrown (db.transactionsStack t).head?
  if readOnly then throw .thrown
  onBackend fun backend => ((), backend.abortTransaction t)
  let rest := (db.transactionsStack t).tail
  setStack t rest
  onlyIf (!hasWriterTxInStack rest)
    (forEach (onWriteTransactionAbort t) (FinEnum.toList H))

/-- Forget how many elements a container has. -/
def dropSizeCache (h : H) : DbCall T H K V Unit :=
  onContainer h fun accessor => { accessor with sizeCacheValid := false }

/-- Commit through the database, or through one of its containers. -/
def commitThrough (t : T) (through : Option H) (written : Bool) : DbCall T H K V Unit :=
  match through with
  | none => commitTransaction t written
  | some h => do
      tryCatch (commitTransaction t written) fun reason => do
        dropSizeCache h
        throw reason

/-- Abort through the database, or through one of its containers. -/
def abortThrough (t : T) (through : Option H) : DbCall T H K V Unit :=
  match through with
  | none => abortTransaction t
  | some h => do
      dropSizeCache h
      abortTransaction t

/-- End a transaction one way or the other. -/
def endTransaction (t : T) (through : Option H) (event : RegionEvent) (written : Bool) :
    DbCall T H K V Unit :=
  match event with
  | .commit => commitThrough t through written
  | .abort => abortThrough t through

/-! ## Transaction regions -/

/-- Replace the regions of a thread. -/
def setRegions (t : T) (regions : List (TransactionRegion H)) : DbCall T H K V Unit :=
  modify fun db => { db with regions := Function.update db.regions t regions }

/-- Enter a region: a transaction begins. -/
def enterRegion (t : T) (through : Option H) (event : RegionEvent) : DbCall T H K V Unit := do
  let wasBegin ← beginTransaction t false
  let db ← get
  setRegions t ({ through, event, wasBegin } :: db.regions t)

/-- End the transaction of the innermost region, unless it has ended. -/
def endRegion (t : T) (event : RegionEvent) (written : Bool) : DbCall T H K V Unit := do
  let db ← get
  match db.regions t with
  | [] => pure ()
  | region :: rest =>
      if region.wasBegin then
        endTransaction t region.through event written
        setRegions t ({ region with wasBegin := false } :: rest)

/-- `will_commit` and `will_abort`: what leaving the innermost region is going to do. -/
def willEnd (t : T) (event : RegionEvent) : DbCall T H K V Unit := do
  let db ← get
  match db.regions t with
  | [] => pure ()
  | region :: rest => setRegions t ({ region with event } :: rest)

/-- The destructor of the innermost region. -/
def leaveRegion (t : T) (written : Bool) : DbCall T H K V Unit := do
  let db ← get
  match db.regions t with
  | [] => pure ()
  | region :: _ => do
      endRegion t region.event written
      let db ← get
      setRegions t (db.regions t).tail

/-! ## Values and sizes -/

/-- Use the cache of values, if there is one that the thread may use. -/
def onCache {α : Type} (t : T) (h : H) (without : α)
    (use : CacheBase K V → α × CacheBase K V) : DbCall T H K V α := fun db =>
  let accessor := db.containers h
  match accessor.cache with
  | none => .ok without db
  | some cache =>
      if accessor.isolation.allows t then
        .ok (use cache).1
          { db with
            containers :=
              Function.update db.containers h { accessor with cache := some (use cache).2 } }
      else .ok without db

/-- Forget the number of elements, or refuse a thread that may not use the cache. -/
def isolatedWriteAccess (t : T) (h : H) : DbCall T H K V Unit := do
  let db ← get
  if (db.containers h).isolation.allows t then dropSizeCache h else throw .thrown

def setValue (t : T) (h : H) (k : K) (v : V) : DbCall T H K V Bool := do
  dropSizeCache h
  let r ← onBackend fun backend => backend.set t h k v
  let remembered ← onCache t h true fun cache => (true, cache.set k v)
  return r && remembered

def getValue (t : T) (h : H) (k : K) : DbCall T H K V (Option V) := do
  let remembered ← onCache t h none fun cache => cache.get k
  match remembered with
  | some v => return some v
  | none => do
      let db ← get
      match db.backend.get t h k with
      | none => return none
      | some v => do
          onCache t h () fun cache => ((), cache.set k v)
          return some v

def sizeOf (t : T) (h : H) : DbCall T H K V Nat := do
  let db ← get
  let accessor := db.containers h
  let allowed := accessor.isolation.allows t
  if allowed && accessor.sizeCacheValid then return accessor.sizeCache
  let res := db.backend.size t h
  if allowed then
    onContainer h fun accessor => { accessor with sizeCache := res, sizeCacheValid := true }
  return res

def clearValues (t : T) (h : H) : DbCall T H K V Bool := do
  onCache t h () fun cache => ((), cache.clear)
  let result ← onBackend fun backend => backend.clear t h
  isolatedWriteAccess t h
  return result

/-- `erase_validate`, which reports whether there was an entry, and `erase`, which does not. -/
def eraseValue (t : T) (h : H) (k : K) : DbCall T H K V Bool := do
  let result ← onBackend fun backend => backend.erase t h k
  isolatedWriteAccess t h
  onCache t h () fun cache => ((), cache.erase k)
  return result

end Calls

/-! ## Runs -/

/-- A call of a thread. The flag `written` says whether a commit reaches the disk. -/
inductive AccessorCall (T H K V : Type) where
  | beginTransaction (t : T) (readOnly : Bool)
  | endTransaction (t : T) (through : Option H) (event : RegionEvent) (written : Bool)
  | enterRegion (t : T) (through : Option H) (event : RegionEvent)
  | endRegion (t : T) (event : RegionEvent) (written : Bool)
  | willEnd (t : T) (event : RegionEvent)
  | leaveRegion (t : T) (written : Bool)
  | set (t : T) (h : H) (k : K) (v : V)
  | get (t : T) (h : H) (k : K)
  | size (t : T) (h : H)
  | clear (t : T) (h : H)
  | erase (t : T) (h : H) (k : K)

section Runs

variable {T H K V : Type} [DecidableEq T] [FinEnum H] [Key K]

/-- Where a call leads. A thread that has to wait for the lock of the write transactions makes
its call when the lock is free. -/
def AccessorCall.perform (call : AccessorCall T H K V) (db : DbAccessor T H K V) :
    DbAccessor T H K V :=
  match call with
  | .beginTransaction t readOnly =>
      if readOnly || db.backend.mayWrite t then final (Accessors.beginTransaction t readOnly db)
      else db
  | .endTransaction t through event written =>
      final (Accessors.endTransaction t through event written db)
  | .enterRegion t through event =>
      if db.backend.mayWrite t then final (Accessors.enterRegion t through event db) else db
  | .endRegion t event written => final (Accessors.endRegion t event written db)
  | .willEnd t event => final (Accessors.willEnd t event db)
  | .leaveRegion t written => final (Accessors.leaveRegion t written db)
  | .set t h k v => final (setValue t h k v db)
  | .get t h k => final (getValue t h k db)
  | .size t h => final (sizeOf t h db)
  | .clear t h => final (clearValues t h db)
  | .erase t h k => final (eraseValue t h k db)

/-- An opened database: some content, no transactions, and caches that remember nothing. -/
def DbAccessor.Opened (db : DbAccessor T H K V) : Prop :=
  (∀ t, db.backend.txs t = []) ∧ db.backend.writeExclusiveLock = none ∧
  (∀ t, db.transactionsStack t = []) ∧ (∀ t, db.regions t = []) ∧
  ∀ h, (db.containers h).sizeCacheValid = false ∧ (db.containers h).isolation = ⟨none⟩ ∧
    ∀ cache ∈ (db.containers h).cache, cache.data = ∅

/-- The runs of a database and its containers. -/
def accessorSystem (T H K V : Type) [DecidableEq T] [FinEnum H] [Key K] :
    System (AccessorCall T H K V) (DbAccessor T H K V) where
  start := DbAccessor.Opened
  step := AccessorCall.perform

end Runs
end Virie.Accessors
