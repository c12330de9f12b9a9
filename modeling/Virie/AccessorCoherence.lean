import Virie.Accessors.Rollback

/-! # The accessors serve what the backend holds

In every run whose aborted transactions leave no trace in the caches, queries for values and for
numbers of elements answer what the calling thread sees: its pending write transaction, or the
committed state. Aborting a write transaction then brings the answers back that the thread got
before it began. -/

open Foundation

namespace Virie.Accessors

section Serving

variable {T H K V : Type} [DecidableEq T] [FinEnum H] [Key K] {db : DbAccessor T H K V} {t : T}

open Procedure Backend

/-- The queries of a thread answer what it sees in the backend. -/
def ServesBackend (db : DbAccessor T H K V) (t : T) : Prop :=
  ∀ h, answer (sizeOf t h db) = .ok (db.backend.view t h).size ∧
    ∀ k, answer (getValue t h k db) = .ok ((db.backend.view t h).get k)

theorem sound_of_run (reached : (accessorSystem T H K V).Reaches KeepsCoherence db) : Sound db :=
  reached.invariant (fun _ opened => DbAccessor.Opened.sound opened)
    fun _ _ _ keeps sound => sound.perform keeps

theorem Sound.serves (sound : Sound db) (t : T) : ServesBackend db t := fun _ =>
  ⟨sizeOf_answer sound.coherent sound.disciplined, fun _ =>
    getValue_answer sound.coherent sound.disciplined⟩

/-! ## Aborting -/

theorem StaysOpen.suffix {outer : List Bool} {during : List (AccessorCall T H K V)}
    (stays : StaysOpen t outer db during) : (false :: outer) <:+ db.transactionsStack t := by
  cases during with
  | nil =>
    change db.transactionsStack t = _ at stays
    rw [stays]
  | cons call rest => exact stays.1

/-- While the transaction stays open, what is below it does not change. -/
theorem frame_of_staysOpen {committed : Store H K V} {below : List (TxEntry H K V)}
    {during : List (AccessorCall T H K V)} (sound : Sound db)
    (frame : Frame t committed below db.backend) (stays : StaysOpen t (stackOf below) db during)
    (meets : (accessorSystem T H K V).Meets KeepsCoherence db during) :
    Frame t committed below ((accessorSystem T H K V).after db during).backend ∧
      Sound ((accessorSystem T H K V).after db during) ∧
      ((accessorSystem T H K V).after db during).transactionsStack t = false :: stackOf below := by
  induction during generalizing db with
  | nil => exact ⟨frame, sound, stays⟩
  | cons call rest ih =>
    have next : Sound (call.perform db) := sound.perform meets.1
    refine ih next ?_ stays.2 meets.2
    apply frame.moves sound.disciplined (perform_moves sound.disciplined call)
    rw [← next.disciplined.stack t]
    exact stays.2.suffix

/-- A call that begins a write transaction puts it over what the thread has open. -/
theorem frame_of_begins {opening : AccessorCall T H K V} (sound : Sound db)
    (begins : opening.Begins t)
    (opened : (false :: db.transactionsStack t) <:+ (opening.perform db).transactionsStack t) :
    Frame t db.backend.committed (db.backend.txs t) (opening.perform db).backend := by
  have waits : opening.perform db = db → False := by
    intro same
    have longer := opened.length_le
    rw [same, List.length_cons] at longer
    omega
  have frame : ∀ after : DbAccessor T H K V,
      after.backend = db.backend.beginTransaction t false →
      Frame t db.backend.committed (db.backend.txs t) after.backend := by
    intro after began
    rw [began, beginTransaction_writes]
    refine ⟨rfl, [], _, Function.update_self _ _ _, ?_⟩
    rfl
  have begun_backend : (db.begun t false).backend = db.backend.beginTransaction t false := by
    unfold DbAccessor.begun
    dsimp only
    split
    · rfl
    · rfl
  cases opening with
  | beginTransaction u readOnly =>
    obtain ⟨rfl, rfl⟩ := begins
    by_cases may : (false || db.backend.mayWrite u) = true
    · apply frame
      change (if _ then _ else _ : DbAccessor T H K V).backend = _
      rw [if_pos may, beginTransaction_eq sound.disciplined may, final_ok, begun_backend]
    · exact (waits (if_neg may)).elim
  | enterRegion u through event =>
    change u = t at begins
    subst begins
    by_cases may : db.backend.mayWrite u = true
    · apply frame
      have writes : (false || db.backend.mayWrite u) = true := by rw [Bool.false_or, may]
      change (if _ then _ else _ : DbAccessor T H K V).backend = _
      rw [if_pos may, Accessors.enterRegion, bind_of_ok (beginTransaction_eq sound.disciplined writes),
        get_bind]
      exact begun_backend
    · exact (waits (if_neg may)).elim
  | endTransaction _ _ _ _ => exact absurd begins id
  | endRegion _ _ _ => exact absurd begins id
  | willEnd _ _ => exact absurd begins id
  | leaveRegion _ _ => exact absurd begins id
  | set _ _ _ _ => exact absurd begins id
  | get _ _ _ => exact absurd begins id
  | size _ _ => exact absurd begins id
  | clear _ _ => exact absurd begins id
  | erase _ _ _ => exact absurd begins id

/-- Aborting a write transaction brings back what the thread saw when it began it. -/
theorem view_of_aborted {opening closing : AccessorCall T H K V}
    {during : List (AccessorCall T H K V)} (sound : Sound db) (begins : opening.Begins t)
    (meets : (accessorSystem T H K V).Meets KeepsCoherence db (opening :: during))
    (stays : StaysOpen t (db.transactionsStack t) (opening.perform db) during)
    (aborts : closing.Aborts t ((accessorSystem T H K V).after db (opening :: during))) :
    ((accessorSystem T H K V).after db (opening :: during ++ [closing])).backend.view t =
      db.backend.view t := by
  have stack := sound.disciplined.stack t
  have opened := frame_of_begins sound begins stays.suffix
  rw [stack] at stays
  obtain ⟨frame, held, full⟩ :=
    frame_of_staysOpen (sound.perform meets.1) opened stays meets.2
  obtain ⟨entry, rest, split, _, _, _, dropped⟩ := aborts_backend held.disciplined aborts full
  have same := frame.innermost held.disciplined full split
  rw [System.after_append]
  change (closing.perform ((accessorSystem T H K V).after (opening.perform db)
    during)).backend.view t = _
  rw [dropped, same, Backend.view, Backend.view]
  have lists : (((accessorSystem T H K V).after (opening.perform db) during).backend.withTxs t
      (db.backend.txs t)).txs t = db.backend.txs t := Function.update_self _ _ _
  change shown _ ((Backend.withTxs _ t (db.backend.txs t)).txs t) = _
  rw [lists]
  exact congrArg (fun committed => shown committed (db.backend.txs t)) frame.1

end Serving

/-! ## A transaction that leaves a trace -/

namespace UnseenAbort

open Procedure

/-- A database with one empty container of numbers that has a cache of values. -/
def opened : DbAccessor Nat Unit Nat Nat where
  backend := { committed := fun _ => ∅, txs := fun _ => [], writeExclusiveLock := none }
  transactionsStack := fun _ => []
  containers := fun _ =>
    { sizeCache := 0
      sizeCacheValid := false
      isolation := ⟨none⟩
      cache := some
        { maxAllowedElements := 10000, mostRecentAccessed := [], data := ∅, nextNode := 0 } }
  regions := fun _ => []

theorem opened_start : opened.Opened := by
  refine ⟨fun _ => rfl, rfl, fun _ => rfl, fun _ => rfl, fun _ => ⟨rfl, rfl, ?_⟩⟩
  intro cache present
  cases present
  rfl

/-- The database after some calls. -/
def afterCalls (calls : List (AccessorCall Nat Unit Nat Nat)) : DbAccessor Nat Unit Nat Nat :=
  (accessorSystem Nat Unit Nat Nat).after opened calls

/-- A thread sets a value in a write transaction and asks for the number of elements. -/
def pending : List (AccessorCall Nat Unit Nat Nat) :=
  [.beginTransaction 0 false, .set 0 () 1 7, .size 0 ()]

/-- A nested transaction leaves its values behind, whichever way it is aborted. -/
example :
    let db := afterCalls [.beginTransaction 0 false, .beginTransaction 0 false, .set 0 () 1 7,
      .endTransaction 0 (some ()) .abort true]
    answer (getValue 0 () 1 db) = .ok (some 7) ∧ (db.backend.view 0 ()).get 1 = none := by
  decide

end UnseenAbort
end Virie.Accessors
