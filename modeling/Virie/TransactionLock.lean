import Virie.Foundation.Nesting
import Virie.Foundation.Runs
import Virie.Foundation.Tickets
import Virie.Lmdb.Transactions

/-! # The transaction lists and the lock of the write transactions

A thread begins and closes transactions in nested order. A read-only begin inside another
transaction opens nothing, every other begin opens a transaction of the library, and each close
belongs to the last begin that is still open. Whatever the library answers, a close ends exactly
the transaction that its begin opened. The thread holds the lock once for each of its write
transactions, unless a write transaction cannot be begun or its commit fails: those paths keep the
lock. -/

open Foundation

namespace Virie.Lmdb

/-- A call of the backend by a thread. `succeeds` is the answer of the library. -/
inductive Event (T : Type) where
  | beginTransaction (t : T) (readOnly succeeds : Bool)
  | commitTransaction (t : T) (succeeds : Bool)
  | abortTransaction (t : T)

namespace Event

variable {T : Type}

/-- The thread that closes a transaction. -/
def closes : Event T → Option T
  | beginTransaction .. => none
  | commitTransaction t _ => some t
  | abortTransaction t => some t

/-- How a closing call ends a transaction of the library. -/
def endCall : Event T → Nat → LibraryCall
  | commitTransaction _ succeeds, ptx => .txnCommit ptx succeeds
  | beginTransaction .., ptx | abortTransaction _, ptx => .txnAbort ptx

end Event

/-- The backend with the begins of each thread that returned true and are not closed, the newest
first. A begin is recorded with the transaction that it is to open. -/
structure Traced (T : Type) where
  backend : LmdbDbBackend T
  begins : T → List (Option Nat)

namespace Traced

variable {T : Type} [DecidableEq T] {s s' : Traced T} {t : T} {event : Event T}

/-- The transaction that a begin opens: none for a read-only one inside another, otherwise the next
transaction of the library. -/
def opens (s : Traced T) (t : T) (readOnly : Bool) : Option Nat :=
  if readOnly && !(s.begins t).isEmpty then none else some s.backend.begun

/-- What a begin leaves: it is recorded if it returned true. -/
def recorded (s : Traced T) (t : T) (readOnly : Bool) : Outcome Unit × LmdbDbBackend T → Traced T
  | (.ok _, backend) =>
    { backend, begins := Function.update s.begins t (s.opens t readOnly :: s.begins t) }
  | (.error _, backend) => { s with backend }

/-- A call takes effect. A write transaction is not begun while another thread holds the lock. -/
def step : Event T → Traced T → Traced T
  | .beginTransaction t readOnly succeeds, s =>
    if !readOnly && !s.backend.writeExclusiveLock.mayTake t then s
    else s.recorded t readOnly (s.backend.beginTransaction t readOnly succeeds)
  | .commitTransaction t succeeds, s =>
    { backend := (s.backend.commitTransaction t succeeds).2,
      begins := Function.update s.begins t (s.begins t).tail }
  | .abortTransaction t, s =>
    { backend := s.backend.abortTransaction t,
      begins := Function.update s.begins t (s.begins t).tail }

/-- A backend that no thread has used, with the database open or not. -/
def system (T : Type) [DecidableEq T] : System (Event T) (Traced T) where
  start s := ∃ penv, s = ⟨⟨penv, fun _ => none, .free, 0, []⟩, fun _ => []⟩
  step := step

/-- A call that keeps the lock for nothing: a write transaction that is not begun after the lock
was taken, or that cannot be committed. -/
def keepsLock : Event T → Traced T → Bool
  | .beginTransaction t readOnly succeeds, s =>
    !readOnly && s.backend.writeExclusiveLock.mayTake t && (!s.backend.penv || !succeeds)
  | .commitTransaction t succeeds, s =>
    !succeeds && (s.backend.entries t).head?.any fun top => !top.readOnly && top.count = 0
  | .abortTransaction _, _ => false

/-- A read-only begin for which the counter of its entry has no room. -/
def overflows : Event T → Traced T → Bool
  | .beginTransaction t readOnly _, s =>
    readOnly && (s.backend.entries t).head?.any fun top => top.count + 1 = 2 ^ 64
  | .commitTransaction .., _ | .abortTransaction _, _ => false

/-- The lists of the threads, the lock and the library are in step. -/
structure InStep (s : Traced T) : Prop where
  lock : ∀ t, s.backend.writeExclusiveLock.depth t = s.backend.writeCount t
  endedOnce : s.backend.ended.Nodup
  endedIff : ∀ ptx, ptx ∈ s.backend.ended ↔
    ptx < s.backend.begun ∧ ∀ t, ∀ txe ∈ s.backend.entries t, txe.ptx ≠ ptx
  closing : ∀ event t, event.closes = some t → ∀ opened rest, s.begins t = opened :: rest →
    (step event s).backend.calls = (opened.map event.endCall).toList ++ s.backend.calls ∧
      (rest = [] → (step event s).backend.txs t = none)
  outermost : ∀ t, s.begins t = [] →
    s.backend.entries t = [] ∧ s.backend.writeExclusiveLock.depth t = 0

/-! ## What a call does -/

/-- What a call of a thread does to the lists, the open begins, the library and the lock. -/
inductive Effect (event : Event T) (t : T) (s s' : Traced T) : Prop
  | stays
    (entries : s'.backend.entries = s.backend.entries)
    (begins : s'.begins = s.begins)
    (begun : s'.backend.begun = s.backend.begun)
    (ended : s'.backend.ended = s.backend.ended)
    (lock : keepsLock event s = true ∨ s'.backend.writeExclusiveLock = s.backend.writeExclusiveLock)
  | counts (top : TxEntry) (rest : List TxEntry)
    (before : s.backend.entries t = top :: rest)
    (entries : s'.backend.entries = Function.update s.backend.entries t (top.counted :: rest))
    (begins : s'.begins = Function.update s.begins t (s.opens t true :: s.begins t))
    (begun : s'.backend.begun = s.backend.begun)
    (ended : s'.backend.ended = s.backend.ended)
    (lock : s'.backend.writeExclusiveLock = s.backend.writeExclusiveLock)
    (overflows : top.count + 1 = 2 ^ 64 → overflows event s = true)
  | opens (readOnly : Bool)
    (unnested : readOnly = true → s.backend.entries t = [])
    (entries : s'.backend.entries = Function.update s.backend.entries t
      (⟨s.backend.begun, readOnly, if readOnly then 1 else 0⟩ :: s.backend.entries t))
    (begins : s'.begins = Function.update s.begins t (s.opens t readOnly :: s.begins t))
    (begun : s'.backend.begun = s.backend.begun + 1)
    (ended : s'.backend.ended = s.backend.ended)
    (may : readOnly = false → s.backend.writeExclusiveLock.mayTake t = true)
    (lock : s'.backend.writeExclusiveLock =
      if readOnly then s.backend.writeExclusiveLock else s.backend.writeExclusiveLock.take t)
  | uncounts (top : TxEntry) (rest : List TxEntry)
    (before : s.backend.entries t = top :: rest)
    (counts : top.endsTransaction = false)
    (entries : s'.backend.entries = Function.update s.backend.entries t (top.uncounted :: rest))
    (begins : s'.begins = Function.update s.begins t (s.begins t).tail)
    (begun : s'.backend.begun = s.backend.begun)
    (ended : s'.backend.ended = s.backend.ended)
    (lock : s'.backend.writeExclusiveLock = s.backend.writeExclusiveLock)
  | ends (top : TxEntry) (rest : List TxEntry)
    (before : s.backend.entries t = top :: rest)
    (last : top.endsTransaction = true)
    (entries : s'.backend.entries = Function.update s.backend.entries t rest)
    (begins : s'.begins = Function.update s.begins t (s.begins t).tail)
    (begun : s'.backend.begun = s.backend.begun)
    (ended : s'.backend.ended = top.ptx :: s.backend.ended)
    (lock : keepsLock event s = true ∨ s'.backend.writeExclusiveLock =
      if !top.readOnly && top.count = 0 then s.backend.writeExclusiveLock.release t
      else s.backend.writeExclusiveLock)

/-- Opening a transaction after the lock was taken for a write transaction. -/
theorem effect_open {readOnly succeeds : Bool} {b : LmdbDbBackend T}
    (entries : b.entries = s.backend.entries) (begun : b.begun = s.backend.begun)
    (ended : b.ended = s.backend.ended)
    (lock : b.writeExclusiveLock =
      if readOnly then s.backend.writeExclusiveLock else s.backend.writeExclusiveLock.take t)
    (unnested : readOnly = true → s.backend.entries t = [])
    (may : readOnly = false → s.backend.writeExclusiveLock.mayTake t = true) :
    Effect (.beginTransaction t readOnly succeeds) t s
      (s.recorded t readOnly (b.openTransaction t readOnly succeeds)) := by
  cases succeeds with
  | true =>
    obtain ⟨after, opened, entries', begun', ended', lock'⟩ := b.openTransaction_ok t readOnly
    rw [entries, begun] at entries'
    rw [opened]
    exact .opens readOnly unnested entries' rfl (begun'.trans (congrArg (· + 1) begun))
      (ended'.trans ended) may (lock'.trans lock)
  | false =>
    obtain ⟨after, refused, entries', begun', ended', lock'⟩ := b.openTransaction_refused t readOnly
    rw [refused]
    refine .stays (entries'.trans entries) rfl (begun'.trans begun) (ended'.trans ended) ?_
    cases readOnly with
    | true => exact .inr (lock'.trans lock)
    | false => exact .inl (by simp [keepsLock, may rfl])

/-- A begin that need not wait is counted, opens a transaction, or fails. -/
theorem effect_begin {readOnly succeeds : Bool}
    (may : readOnly = false → s.backend.writeExclusiveLock.mayTake t = true) :
    Effect (.beginTransaction t readOnly succeeds) t s
      (s.recorded t readOnly (s.backend.beginTransaction t readOnly succeeds)) := by
  cases penv : s.backend.penv with
  | false =>
    cases readOnly with
    | true =>
      have fails : s.backend.beginTransaction t true succeeds = (.error .thrown, s.backend) := by
        simp [LmdbDbBackend.beginTransaction, penv]
      rw [fails]
      exact .stays rfl rfl rfl rfl (.inr rfl)
    | false =>
      have fails : s.backend.beginTransaction t false succeeds =
          (.error .thrown, s.backend.lockWrite t) := by
        simp [LmdbDbBackend.beginTransaction, LmdbDbBackend.lockWrite, penv]
      rw [fails]
      exact .stays rfl rfl rfl rfl (.inl (by simp [keepsLock, may rfl, penv]))
  | true =>
    cases readOnly with
    | true =>
      have listed : s.backend.beginTransaction t true succeeds =
          s.backend.countOrOpen t true succeeds := by
        simp [LmdbDbBackend.beginTransaction, penv]
      rw [listed]
      cases before : s.backend.entries t with
      | nil =>
        rw [LmdbDbBackend.countOrOpen_opens fun _ => before]
        exact effect_open rfl rfl rfl rfl (fun _ => before) may
      | cons top rest =>
        rw [LmdbDbBackend.countOrOpen_counts before]
        refine .counts top rest before ?_ rfl rfl rfl rfl fun full => ?_
        · exact s.backend.entries_withTxs t _
        · simpa [overflows, before] using Nat.eq_sub_of_add_eq full
    | false =>
      have listed : s.backend.beginTransaction t false succeeds =
          (s.backend.lockWrite t).countOrOpen t false succeeds := by
        simp [LmdbDbBackend.beginTransaction, LmdbDbBackend.lockWrite, penv]
      rw [listed, LmdbDbBackend.countOrOpen_opens fun reads => absurd reads Bool.false_ne_true]
      exact effect_open rfl rfl rfl rfl (fun reads => absurd reads Bool.false_ne_true) may

/-- What is left of the open begins of a thread after a close that finds no entry. -/
theorem update_tail_nil (none : s.begins t = []) :
    Function.update s.begins t (s.begins t).tail = s.begins := by
  have same : (s.begins t).tail = s.begins t := by rw [none, List.tail_nil]
  rw [same, Function.update_eq_self]

/-- A call of the library that ends the transaction on top, after which the lock of a write
transaction is released. -/
theorem effect_released {top : TxEntry} {rest : List TxEntry} {call : LibraryCall}
    (before : s.backend.entries t = top :: rest) (last : top.endsTransaction = true)
    (ends : call.ends = some top.ptx) :
    Effect event t s
      { backend :=
          if !top.readOnly && top.count = 0 then (s.backend.popped t rest call).unlockWrite t
          else s.backend.popped t rest call,
        begins := Function.update s.begins t (s.begins t).tail } := by
  have entries : (s.backend.popped t rest call).entries =
      Function.update s.backend.entries t rest := s.backend.popped_entries t rest call
  have ended : (s.backend.popped t rest call).ended = top.ptx :: s.backend.ended :=
    List.filterMap_cons_some ends
  by_cases write : (!top.readOnly && top.count = 0) = true
  · rw [if_pos write]
    exact .ends top rest before last entries rfl rfl ended (.inr (if_pos write).symm)
  · rw [if_neg write]
    exact .ends top rest before last entries rfl rfl ended (.inr (if_neg write).symm)

/-- A commit ends the transaction on top, takes a read-only one off its count, or finds nothing. -/
theorem effect_commit {succeeds : Bool} (closed : s.backend.entries t = [] → s.begins t = []) :
    Effect (.commitTransaction t succeeds) t s (step (.commitTransaction t succeeds) s) := by
  cases before : s.backend.entries t with
  | nil =>
    rw [step, LmdbDbBackend.commitTransaction_nil before, update_tail_nil (closed before)]
    exact .stays rfl rfl rfl rfl (.inr rfl)
  | cons top rest =>
    cases last : top.endsTransaction with
    | false =>
      rw [step, LmdbDbBackend.commitTransaction_counted before last]
      exact .uncounts top rest before last (s.backend.entries_withTxs t _) rfl rfl rfl rfl
    | true =>
      cases succeeds with
      | true =>
        rw [step, LmdbDbBackend.commitTransaction_last before last]
        exact effect_released before last rfl
      | false =>
        rw [step, LmdbDbBackend.commitTransaction_fails before last]
        refine .ends top rest before last (s.backend.popped_entries t rest _) rfl rfl rfl ?_
        by_cases write : (!top.readOnly && top.count = 0) = true
        · exact .inl (by simpa [keepsLock, before] using write)
        · exact .inr (if_neg write).symm

/-- An abort ends the transaction on top, takes a read-only one off its count, or finds nothing. -/
theorem effect_abort (closed : s.backend.entries t = [] → s.begins t = []) :
    Effect (.abortTransaction t) t s (step (.abortTransaction t) s) := by
  cases before : s.backend.entries t with
  | nil =>
    rw [step, LmdbDbBackend.abortTransaction_nil before, update_tail_nil (closed before)]
    exact .stays rfl rfl rfl rfl (.inr rfl)
  | cons top rest =>
    cases last : top.endsTransaction with
    | false =>
      rw [step, LmdbDbBackend.abortTransaction_counted before last]
      exact .uncounts top rest before last (s.backend.entries_withTxs t _) rfl rfl rfl rfl
    | true =>
      rw [step, LmdbDbBackend.abortTransaction_last before last]
      exact effect_released before last rfl

/-- Every call has one of the effects on the list of its thread. -/
theorem effect (closed : ∀ t, s.backend.entries t = [] → s.begins t = []) (event : Event T) :
    ∃ t, Effect event t s (step event s) := by
  cases event with
  | beginTransaction t readOnly succeeds =>
    refine ⟨t, ?_⟩
    rw [step]
    by_cases waits : (!readOnly && !s.backend.writeExclusiveLock.mayTake t) = true
    · rw [if_pos waits]
      exact .stays rfl rfl rfl rfl (.inr rfl)
    · rw [if_neg waits]
      refine effect_begin fun writes => ?_
      subst writes
      simpa using waits
  | commitTransaction t succeeds => exact ⟨t, effect_commit (closed t)⟩
  | abortTransaction t => exact ⟨t, effect_abort (closed t)⟩

/-! ## The lists follow the open begins -/

end Traced

/-- An entry as a frame: what it counts beyond itself. -/
def TxEntry.frame (txe : TxEntry) : Frame Nat := ⟨txe.ptx, txe.count - txe.base⟩

/-- The transactions that the backend was given, has open, and has ended. -/
def LmdbDbBackend.tickets {T : Type} (b : LmdbDbBackend T) : Tickets T where
  drawn := b.begun
  held t := (b.entries t).map TxEntry.ptx
  returned := b.ended

namespace Traced

variable {T : Type} {s s' : Traced T} {t : T} {event : Event T}

/-- The entries are the frames of the open begins, with counters in range, and every transaction is
open once or was ended once. -/
structure Stacked (s : Traced T) : Prop where
  nests : ∀ t, Nests ((s.backend.entries t).map TxEntry.frame) (s.begins t)
  based : ∀ t, ∀ txe ∈ s.backend.entries t, txe.base ≤ txe.count ∧ txe.count < 2 ^ 64
  accounted : s.backend.tickets.Accounted

theorem Stacked.closed (stacked : s.Stacked) (t : T) :
    s.backend.entries t = [] ↔ s.begins t = [] := by
  rw [← (stacked.nests t).nil_iff, List.map_eq_nil_iff]

variable [DecidableEq T]

/-- The frames and the open begins after a change on the list of one thread. -/
theorem Stacked.nests_update (stacked : s.Stacked) {list : List TxEntry}
    {begins : List (Option Nat)}
    (entries : s'.backend.entries = Function.update s.backend.entries t list)
    (recorded : s'.begins = Function.update s.begins t begins)
    (nests : Nests (list.map TxEntry.frame) begins) (u : T) :
    Nests ((s'.backend.entries u).map TxEntry.frame) (s'.begins u) := by
  rw [entries, recorded]
  by_cases same : u = t
  · rw [same, Function.update_self, Function.update_self]
    exact nests
  · rw [Function.update_of_ne same, Function.update_of_ne same]
    exact stacked.nests u

theorem Stacked.based_update (stacked : s.Stacked) {list : List TxEntry}
    (entries : s'.backend.entries = Function.update s.backend.entries t list)
    (based : ∀ txe ∈ list, txe.base ≤ txe.count ∧ txe.count < 2 ^ 64) (u : T) :
    ∀ txe ∈ s'.backend.entries u, txe.base ≤ txe.count ∧ txe.count < 2 ^ 64 := by
  rw [entries]
  by_cases same : u = t
  · rw [same, Function.update_self]
    exact based
  · rw [Function.update_of_ne same]
    exact stacked.based u

/-- The tickets after a change on the list of one thread. -/
theorem tickets_update {list : List TxEntry}
    (entries : s'.backend.entries = Function.update s.backend.entries t list) :
    s'.backend.tickets = ⟨s'.backend.begun,
      Function.update s.backend.tickets.held t (list.map TxEntry.ptx), s'.backend.ended⟩ := by
  have held : (fun u => (s'.backend.entries u).map TxEntry.ptx) =
      Function.update s.backend.tickets.held t (list.map TxEntry.ptx) := by
    funext u
    rw [entries]
    by_cases same : u = t
    · rw [same, Function.update_self, Function.update_self]
    · rw [Function.update_of_ne same, Function.update_of_ne same]
      rfl
  rw [LmdbDbBackend.tickets, held]

/-- A change on the list of one thread that keeps its transactions. -/
theorem tickets_of_same {list : List TxEntry}
    (entries : s'.backend.entries = Function.update s.backend.entries t list)
    (same : list.map TxEntry.ptx = (s.backend.entries t).map TxEntry.ptx)
    (begun : s'.backend.begun = s.backend.begun) (ended : s'.backend.ended = s.backend.ended) :
    s'.backend.tickets = s.backend.tickets := by
  have held : (s.backend.entries t).map TxEntry.ptx = s.backend.tickets.held t := rfl
  rw [tickets_update entries, same, held, Function.update_eq_self, begun, ended]
  rfl

/-- An entry that counts another read-only transaction is the same frame with one more. -/
theorem frame_counted {top : TxEntry} (based : top.base ≤ top.count)
    (room : top.count + 1 < 2 ^ 64) :
    top.counted.frame = ⟨top.ptx, top.frame.nested + 1⟩ ∧
      top.counted.base ≤ top.counted.count ∧ top.counted.count < 2 ^ 64 := by
  have count : top.counted.count = top.count + 1 := Nat.mod_eq_of_lt room
  have base : top.counted.base = top.base := rfl
  rw [TxEntry.frame, TxEntry.frame, count, base]
  refine ⟨?_, by omega, room⟩
  rw [Nat.sub_add_comm based]
  rfl

/-- The frame of an entry that does not end its transaction counts one more than afterwards. -/
theorem frame_uncounted {top : TxEntry} (based : top.base ≤ top.count)
    (counts : top.endsTransaction = false) :
    top.frame = ⟨top.ptx, top.uncounted.frame.nested + 1⟩ ∧
      top.uncounted.base ≤ top.uncounted.count := by
  have above : top.base < top.count := by
    refine lt_of_le_of_ne based fun same => ?_
    have last := (TxEntry.endsTransaction_iff based).2 same.symm
    rw [counts] at last
    cases last
  have base : top.uncounted.base = top.base := rfl
  have count : top.uncounted.count = top.count - 1 := rfl
  have nested : top.count - top.base = top.count - 1 - top.base + 1 := by omega
  rw [TxEntry.frame, TxEntry.frame, base, count, nested]
  exact ⟨rfl, by omega⟩

/-- The entry that ends its transaction is a frame that counts nothing. -/
theorem frame_last {top : TxEntry} (based : top.base ≤ top.count)
    (last : top.endsTransaction = true) : top.frame = ⟨top.ptx, 0⟩ := by
  rw [TxEntry.frame, (TxEntry.endsTransaction_iff based).1 last, Nat.sub_self]

/-- Every effect keeps the lists, the open begins and the library in agreement. -/
theorem Stacked.after (stacked : s.Stacked) (effect : Effect event t s s')
    (room : overflows event s = false) : s'.Stacked := by
  cases effect with
  | stays entries begins begun ended _ =>
    have same : Function.update s.backend.entries t (s.backend.entries t) = s.backend.entries :=
      Function.update_eq_self t _
    have tickets := tickets_of_same (entries.trans same.symm) rfl begun ended
    refine ⟨fun u => ?_, fun u => ?_, tickets ▸ stacked.accounted⟩
    · rw [entries, begins]
      exact stacked.nests u
    · rw [entries]
      exact stacked.based u
  | counts top rest before entries begins begun ended _ overflows =>
    have based := stacked.based t
    rw [before, List.forall_mem_cons] at based
    have fits : top.count + 1 < 2 ^ 64 := by
      have unfilled : top.count + 1 ≠ 2 ^ 64 := fun full =>
        absurd (overflows full) (room ▸ Bool.false_ne_true)
      omega
    obtain ⟨frame, base, bounded⟩ := frame_counted based.1.1 fits
    have nested : s.opens t true = none := by
      have inside : s.begins t ≠ [] := fun none => by
        have empty := (stacked.closed t).2 none
        rw [before] at empty
        cases empty
      simp [opens, inside]
    have nests := stacked.nests t
    rw [before] at nests
    refine ⟨stacked.nests_update entries begins ?_, stacked.based_update entries ?_, ?_⟩
    · rw [List.map_cons, frame, nested]
      exact .counted nests
    · exact List.forall_mem_cons.2 ⟨⟨base, bounded⟩, based.2⟩
    · have same : (top.counted :: rest).map TxEntry.ptx =
          (s.backend.entries t).map TxEntry.ptx := by
        rw [before]
        rfl
      rw [tickets_of_same entries same begun ended]
      exact stacked.accounted
  | opens readOnly unnested entries begins begun ended _ _ =>
    have opened : s.opens t readOnly = some s.backend.begun := by
      cases readOnly with
      | false => rfl
      | true => simp [opens, (stacked.closed t).1 (unnested rfl)]
    refine ⟨stacked.nests_update entries begins ?_, stacked.based_update entries ?_, ?_⟩
    · rw [opened, List.map_cons]
      have frame : TxEntry.frame ⟨s.backend.begun, readOnly, if readOnly then 1 else 0⟩ =
          ⟨s.backend.begun, 0⟩ := by
        rw [TxEntry.frame, TxEntry.base, Nat.sub_self]
      rw [frame]
      exact .opened _ (stacked.nests t)
    · refine List.forall_mem_cons.2 ⟨⟨le_rfl, ?_⟩, stacked.based t⟩
      cases readOnly with
      | true => exact Nat.one_lt_two_pow (by decide)
      | false => exact Nat.two_pow_pos 64
    · have drawn : s'.backend.tickets = s.backend.tickets.draw t := by
        rw [tickets_update entries, begun, ended]
        rfl
      rw [drawn]
      exact stacked.accounted.draw
  | uncounts top rest before counts entries begins begun ended _ =>
    have based := stacked.based t
    rw [before, List.forall_mem_cons] at based
    obtain ⟨frame, base⟩ := frame_uncounted based.1.1 counts
    have nests := stacked.nests t
    rw [before, List.map_cons, frame] at nests
    refine ⟨stacked.nests_update entries begins ?_, stacked.based_update entries ?_, ?_⟩
    · exact nests.uncount.2
    · exact List.forall_mem_cons.2
        ⟨⟨base, lt_of_le_of_lt (Nat.sub_le _ _) based.1.2⟩, based.2⟩
    · have same : (top.uncounted :: rest).map TxEntry.ptx =
          (s.backend.entries t).map TxEntry.ptx := by
        rw [before]
        rfl
      rw [tickets_of_same entries same begun ended]
      exact stacked.accounted
  | ends top rest before last entries begins begun ended _ =>
    have based := stacked.based t
    rw [before, List.forall_mem_cons] at based
    have nests := stacked.nests t
    rw [before, List.map_cons, frame_last based.1.1 last] at nests
    refine ⟨stacked.nests_update entries begins nests.last.2, stacked.based_update entries based.2,
      ?_⟩
    have given : s'.backend.tickets =
        s.backend.tickets.giveBack t top.ptx (rest.map TxEntry.ptx) := by
      rw [tickets_update entries, begun, ended]
      rfl
    have held : s.backend.tickets.held t = top.ptx :: rest.map TxEntry.ptx :=
      congrArg (List.map TxEntry.ptx) before
    rw [given]
    exact stacked.accounted.giveBack held

/-! ## The lock follows the write transactions -/

/-- Each thread holds the lock once for every write transaction on its list. -/
def Locked (s : Traced T) : Prop :=
  ∀ t, s.backend.writeExclusiveLock.depth t = s.backend.writeCount t

/-- The write transactions on the list of a thread. -/
def writes (list : List TxEntry) : Nat := list.countP fun txe => !txe.readOnly

theorem Locked.update (locked : s.Locked) {list : List TxEntry}
    (entries : s'.backend.entries = Function.update s.backend.entries t list)
    (own : s'.backend.writeExclusiveLock.depth t = writes list)
    (others : ∀ u, u ≠ t →
      s'.backend.writeExclusiveLock.depth u = s.backend.writeExclusiveLock.depth u) :
    s'.Locked := by
  intro u
  rw [LmdbDbBackend.writeCount, entries]
  by_cases same : u = t
  · rw [same, Function.update_self, own, writes]
  · rw [Function.update_of_ne same, others u same]
    exact locked u

/-- A call that does not keep the lock for nothing keeps the lock in step with the lists. -/
theorem Locked.after (locked : s.Locked) (stacked : s.Stacked) (effect : Effect event t s s')
    (released : keepsLock event s = false) : s'.Locked := by
  have keeps : ∀ {lock}, keepsLock event s = true ∨ s'.backend.writeExclusiveLock = lock →
      s'.backend.writeExclusiveLock = lock := fun either =>
    either.resolve_left (released ▸ Bool.false_ne_true)
  cases effect with
  | stays entries _ _ _ lock =>
    intro u
    rw [keeps lock, LmdbDbBackend.writeCount, entries]
    exact locked u
  | counts top rest before entries _ _ _ lock _ =>
    refine locked.update entries ?_ fun u _ => by rw [lock]
    rw [lock, locked t, LmdbDbBackend.writeCount, before]
    rfl
  | opens readOnly _ entries _ _ _ may lock =>
    cases readOnly with
    | true =>
      refine locked.update entries ?_ fun u _ => by rw [lock, if_pos rfl]
      rw [lock, if_pos rfl, locked t]
      rfl
    | false =>
      rw [if_neg Bool.false_ne_true] at lock
      refine locked.update entries ?_ fun u other => ?_
      · rw [lock, RecursiveLock.depth_take (may rfl), locked t]
        exact (List.countP_cons_of_pos rfl).symm
      · rw [lock, RecursiveLock.depth_take_of_ne (may rfl) other]
  | uncounts top rest before _ entries _ _ _ lock =>
    refine locked.update entries ?_ fun u _ => by rw [lock]
    rw [lock, locked t, LmdbDbBackend.writeCount, before]
    rfl
  | ends top rest before last entries _ _ _ lock =>
    have lock := keeps lock
    have own := locked t
    rw [LmdbDbBackend.writeCount, before, List.countP_cons] at own
    cases reader : top.readOnly with
    | true =>
      simp only [reader, Bool.not_true, Bool.false_and, Bool.false_eq_true, if_false] at lock own
      refine locked.update entries ?_ fun u _ => by rw [lock]
      rw [lock, own]
      rfl
    | false =>
      have based := stacked.based t
      rw [before, List.forall_mem_cons] at based
      have count : top.count = 0 := by
        rw [(TxEntry.endsTransaction_iff based.1.1).1 last, TxEntry.base, reader]
        rfl
      simp only [reader, count, Bool.not_false, Bool.true_and, decide_true, if_true] at lock own
      refine locked.update entries ?_ fun u other => ?_
      · rw [lock, RecursiveLock.depth_release, own]
        rfl
      · rw [lock, RecursiveLock.depth_release_of_ne other]

/-! ## Every run -/

theorem start_stacked (start : (system T).start s) : s.Stacked := by
  obtain ⟨penv, rfl⟩ := start
  exact ⟨fun t => .empty, fun t txe member => absurd member List.not_mem_nil,
    Tickets.accounted_start⟩

theorem start_locked (start : (system T).start s) : s.Locked := by
  obtain ⟨penv, rfl⟩ := start
  exact fun t => rfl

/-- The calls that close a transaction reach the library for the transaction that the begin
opened. -/
theorem Stacked.closing (stacked : s.Stacked) (closes : event.closes = some t)
    {opened : Option Nat} {rest : List (Option Nat)} (last : s.begins t = opened :: rest) :
    (Traced.step event s).backend.calls =
        (opened.map event.endCall).toList ++ s.backend.calls ∧
      (rest = [] → (Traced.step event s).backend.txs t = none) := by
  have nests := stacked.nests t
  cases before : s.backend.entries t with
  | nil =>
    have none := (stacked.closed t).1 before
    rw [last] at none
    cases none
  | cons top below =>
    have based := stacked.based t
    rw [before, List.forall_mem_cons] at based
    rw [before, List.map_cons, last] at nests
    cases ends : top.endsTransaction with
    | true =>
      rw [frame_last based.1.1 ends] at nests
      have opener : opened = some top.ptx := Option.some.inj nests.last.1
      have erased : rest = [] → below = [] := fun outermost =>
        List.map_eq_nil_iff.1 (nests.last.2.nil_iff.2 outermost)
      rw [opener]
      have txs : ∀ call, rest = [] → (s.backend.popped t below call).txs t = none := by
        intro call outermost
        rw [LmdbDbBackend.popped_txs, erased outermost]
        rfl
      cases event with
      | beginTransaction _ _ _ => cases closes
      | commitTransaction t' succeeds =>
        cases closes
        cases succeeds with
        | true =>
          rw [step, LmdbDbBackend.commitTransaction_last before ends]
          split
          · exact ⟨rfl, txs (.txnCommit top.ptx true)⟩
          · exact ⟨rfl, txs (.txnCommit top.ptx true)⟩
        | false =>
          rw [step, LmdbDbBackend.commitTransaction_fails before ends]
          exact ⟨rfl, txs _⟩
      | abortTransaction t' =>
        cases closes
        rw [step, LmdbDbBackend.abortTransaction_last before ends]
        split
        · exact ⟨rfl, txs (.txnAbort top.ptx)⟩
        · exact ⟨rfl, txs (.txnAbort top.ptx)⟩
    | false =>
      obtain ⟨frame, -⟩ := frame_uncounted based.1.1 ends
      rw [frame] at nests
      have opener : opened = none := Option.some.inj nests.uncount.1
      have inside : rest ≠ [] := fun outermost => by
        have empty := nests.uncount.2.nil_iff.2 outermost
        cases empty
      rw [opener]
      cases event with
      | beginTransaction _ _ _ => cases closes
      | commitTransaction t' succeeds =>
        cases closes
        rw [step, LmdbDbBackend.commitTransaction_counted before ends]
        exact ⟨rfl, fun outermost => absurd outermost inside⟩
      | abortTransaction t' =>
        cases closes
        rw [step, LmdbDbBackend.abortTransaction_counted before ends]
        exact ⟨rfl, fun outermost => absurd outermost inside⟩

/-- In every run without a write transaction that fails to begin or to commit, and without a full
counter, the lists, the lock and the library stay in step. -/
theorem inStep_of_reaches
    (reached : (system T).Reaches
      (fun event s => keepsLock event s = false ∧ overflows event s = false) s) :
    s.InStep := by
  have both : s.Stacked ∧ s.Locked := by
    induction reached with
    | start start => exact ⟨start_stacked start, start_locked start⟩
    | step _ event meets holds =>
      obtain ⟨t, effect⟩ := effect (fun t => (holds.1.closed t).1) event
      exact ⟨holds.1.after effect meets.2, holds.2.after holds.1 effect meets.1⟩
  obtain ⟨stacked, locked⟩ := both
  exact {
    lock := locked
    endedOnce := stacked.accounted.returnedOnce
    endedIff := fun ptx => by
      refine (stacked.accounted.returnedIff ptx).trans (and_congr_right fun _ => ?_)
      refine forall_congr' fun t => ?_
      change ptx ∉ (s.backend.entries t).map TxEntry.ptx ↔ _
      simp only [List.mem_map, not_exists, not_and, ne_eq]
    closing := fun event t closes opened rest last => stacked.closing closes last
    outermost := fun t none => by
      have empty := (stacked.closed t).2 none
      refine ⟨empty, (locked t).trans ?_⟩
      rw [LmdbDbBackend.writeCount, empty]
      rfl }

end Traced

/-! ## Write transactions that fail -/

namespace KeptLock

/-- A backend that is open and that no thread has used. -/
def fresh : Traced Nat := ⟨⟨true, fun _ => none, .free, 0, []⟩, fun _ => []⟩

theorem fresh_start : (Traced.system Nat).start fresh := ⟨true, rfl⟩

/-- The library does not begin a write transaction. -/
def unbegun : List (Event Nat) := [.beginTransaction 0 false false]

/-- The library does not commit a write transaction. -/
def uncommitted : List (Event Nat) := [.beginTransaction 0 false true, .commitTransaction 0 false]

/-- Events leave the lock with a thread that has no transaction, and another thread waits for it
without end. -/
structure Keeps (events : List (Event Nat)) : Prop where
  reachable : (Traced.system Nat).Reachable ((Traced.system Nat).after fresh events)
  outOfStep : ¬ ((Traced.system Nat).after fresh events).InStep
  ended : ((Traced.system Nat).after fresh events).begins 0 = []
  waits : ((Traced.system Nat).after fresh events).backend.writeExclusiveLock.mayTake 1 = false

theorem keeps_of {events : List (Event Nat)}
    (ended : ((Traced.system Nat).after fresh events).begins 0 = [])
    (waits : ((Traced.system Nat).after fresh events).backend.writeExclusiveLock.mayTake 1 = false)
    (held : ((Traced.system Nat).after fresh events).backend.writeExclusiveLock.depth 0 ≠ 0) :
    Keeps events :=
  ⟨System.Reachable.after (.start fresh_start) events,
    fun inStep => held (inStep.outermost 0 ended).2, ended, waits⟩

/-- Either failure of the library keeps the lock. -/
theorem lock_kept : Keeps unbegun ∧ Keeps uncommitted :=
  ⟨keeps_of rfl rfl (by intro free; cases free),
    keeps_of rfl rfl (by intro free; cases free)⟩

/-- Two threads: write transactions inside each other with a reader between them, a reader that
fails to begin, and a commit of a reader that fails. -/
def nested : List (Event Nat) :=
  [.beginTransaction 0 false true, .beginTransaction 0 true true, .beginTransaction 1 true false,
    .beginTransaction 0 false true, .abortTransaction 0, .beginTransaction 1 true true,
    .commitTransaction 0 true, .commitTransaction 0 true, .commitTransaction 1 false]

theorem nested_inStep : ((Traced.system Nat).after fresh nested).InStep :=
  Traced.inStep_of_reaches <| System.Reaches.after (.start fresh_start)
    ⟨⟨rfl, rfl⟩, ⟨rfl, rfl⟩, ⟨rfl, rfl⟩, ⟨rfl, rfl⟩, ⟨rfl, rfl⟩, ⟨rfl, rfl⟩, ⟨rfl, rfl⟩, ⟨rfl, rfl⟩,
      ⟨rfl, rfl⟩, trivial⟩

end KeptLock
end Virie.Lmdb
