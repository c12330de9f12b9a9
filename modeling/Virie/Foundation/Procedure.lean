import Mathlib

/-! # Procedures that may stop early

A procedure reads and writes a state and either returns or stops. Stopping keeps
the state reached so far, as a function that returns an error code does; undoing
the writes is a separate decision of the caller. The rules below take a
successful run apart step by step and carry invariants through a procedure,
whichever way it ends. -/

namespace Foundation

/-- Why a procedure stopped: it reported failure, or it raised an exception. -/
inductive Stop where
  | refused
  | thrown
deriving DecidableEq

/-- A procedure on states `σ`. -/
abbrev Procedure (σ α : Type) := EStateM Stop σ α

/-- A computation that writes nothing: a value, or a stop. -/
abbrev Outcome (α : Type) := Except Stop α

namespace Outcome

variable {α β : Type}

/-- Stop with a failure unless the condition holds. -/
def require (condition : Bool) : Outcome Unit :=
  if condition then pure () else throw .refused

/-- The value of an option, or a stop. -/
def demand (reason : Stop) : Option α → Outcome α
  | some value => pure value
  | none => throw reason

/-- Whether the computation returned. -/
def succeeds : Outcome α → Bool
  | .ok _ => true
  | .error _ => false

theorem bind_ok {body : Outcome α} {next : α → Outcome β} {result : β} :
    (body >>= next) = .ok result ↔ ∃ value, body = .ok value ∧ next value = .ok result := by
  change Except.bind body next = _ ↔ _
  unfold Except.bind
  cases body with
  | ok value => simp only [Except.ok.injEq, exists_eq_left']
  | error reason => simp only [reduceCtorEq, false_and, exists_false]

@[simp] theorem pure_ok {value result : α} :
    (pure value : Outcome α) = .ok result ↔ value = result := by
  change Except.ok value = _ ↔ _
  simp only [Except.ok.injEq]

@[simp] theorem throw_ok {reason : Stop} {result : α} :
    (throw reason : Outcome α) = .ok result ↔ False := by
  change Except.error reason = _ ↔ _
  simp only [reduceCtorEq]

@[simp] theorem require_ok {condition : Bool} {result : Unit} :
    require condition = .ok result ↔ condition = true := by
  unfold require
  cases condition with
  | true => simp only [↓reduceIte, pure_ok]
  | false => simp only [Bool.false_eq_true, ↓reduceIte, throw_ok]

@[simp] theorem demand_ok {reason : Stop} {option : Option α} {result : α} :
    demand reason option = .ok result ↔ option = some result := by
  cases option with
  | some value => rw [demand, pure_ok, Option.some.injEq]
  | none => simp only [demand, throw_ok, reduceCtorEq]

end Outcome

namespace Procedure

variable {σ τ α β : Type}

/-- Stop with a failure unless the condition holds. -/
def require (condition : Bool) : Procedure σ Unit :=
  if condition then pure () else throw .refused

/-- The value of an option, or a stop. -/
def demand (reason : Stop) : Option α → Procedure σ α
  | some value => pure value
  | none => throw reason

/-- Run a procedure if a condition holds. -/
def onlyIf (condition : Bool) (body : Procedure σ Unit) : Procedure σ Unit :=
  if condition then body else pure ()

/-- Run a procedure and report whether it succeeded. Exceptions pass through. -/
def attempt (body : Procedure σ α) : Procedure σ Bool := fun state =>
  match body state with
  | .ok _ after => .ok true after
  | .error .refused after => .ok false after
  | .error .thrown after => .error .thrown after

/-- A computation that only reads the state. -/
def reading (body : σ → Outcome α) : Procedure σ α := fun state =>
  match body state with
  | .ok value => .ok value state
  | .error reason => .error reason state

/-- Run a procedure on a part of the state. -/
def within (view : σ → τ) (update : σ → τ → σ) (body : Procedure τ α) : Procedure σ α :=
  fun state =>
    match body (view state) with
    | .ok value after => .ok value (update state after)
    | .error reason after => .error reason (update state after)

/-- Run a procedure on every element in turn. -/
def forEach (body : α → Procedure σ Unit) : List α → Procedure σ Unit
  | [] => pure ()
  | head :: tail => do
    body head
    forEach body tail

/-- The state in which a run ends, successful or not. -/
def final : EStateM.Result Stop σ α → σ
  | .ok _ after => after
  | .error _ after => after

/-- What a run answers, apart from the state it ends in. -/
def answer : EStateM.Result Stop σ α → Outcome α
  | .ok value _ => .ok value
  | .error reason _ => .error reason

@[simp] theorem final_ok (value : α) (after : σ) :
    final (.ok value after : EStateM.Result Stop σ α) = after := rfl

theorem ok_of_answer {result : EStateM.Result Stop σ α} {value : α}
    (answered : answer result = .ok value) : result = .ok value (final result) := by
  cases result with
  | error reason after => cases answered
  | ok other after =>
    cases answered
    rfl

@[simp] theorem final_error (reason : Stop) (after : σ) :
    final (.error reason after : EStateM.Result Stop σ α) = after := rfl

/-- Ignoring the result of a procedure does not change where it ends. -/
theorem final_discard (body : Procedure σ α) (value : β) (state : σ) :
    final ((body >>= fun _ => pure value) state) = final (body state) := by
  change final (EStateM.bind body (fun _ => pure value) state) = _
  unfold EStateM.bind
  cases body state <;> rfl

theorem final_pure (value : α) (state : σ) :
    final ((pure value : Procedure σ α) state) = state := rfl

/-! ## Successful runs -/

theorem bind_ok {body : Procedure σ α} {next : α → Procedure σ β} {before after : σ}
    {result : β} :
    (body >>= next) before = .ok result after ↔
      ∃ value middle, body before = .ok value middle ∧ next value middle = .ok result after := by
  change EStateM.bind body next before = _ ↔ _
  unfold EStateM.bind
  cases body before with
  | ok value middle =>
    simp only [EStateM.Result.ok.injEq, ↓existsAndEq, and_true, true_and]
  | error reason middle => simp

@[simp] theorem pure_ok {value result : α} {before after : σ} :
    (pure value : Procedure σ α) before = .ok result after ↔ value = result ∧ before = after := by
  change EStateM.Result.ok value before = _ ↔ _
  simp only [EStateM.Result.ok.injEq]

@[simp] theorem throw_ok {reason : Stop} {result : α} {before after : σ} :
    (throw reason : Procedure σ α) before = .ok result after ↔ False := by
  change EStateM.Result.error reason before = _ ↔ _
  simp

@[simp] theorem get_ok {result before after : σ} :
    (get : Procedure σ σ) before = .ok result after ↔ before = result ∧ before = after := by
  change EStateM.Result.ok before before = _ ↔ _
  simp only [EStateM.Result.ok.injEq]

@[simp] theorem set_ok {value before after : σ} {result : PUnit} :
    (set value : Procedure σ PUnit) before = .ok result after ↔ after = value := by
  change EStateM.Result.ok PUnit.unit value = _ ↔ _
  simp only [EStateM.Result.ok.injEq, true_and, eq_comm]

@[simp] theorem modify_ok {f : σ → σ} {before after : σ} {result : PUnit} :
    (modify f : Procedure σ PUnit) before = .ok result after ↔ after = f before := by
  change EStateM.Result.ok PUnit.unit (f before) = _ ↔ _
  simp only [EStateM.Result.ok.injEq, true_and, eq_comm]

@[simp] theorem require_ok {condition : Bool} {before after : σ} {result : Unit} :
    (require condition : Procedure σ Unit) before = .ok result after ↔
      condition = true ∧ before = after := by
  unfold require
  cases condition with
  | true => simp only [↓reduceIte, pure_ok, true_and]
  | false => simp only [Bool.false_eq_true, ↓reduceIte, throw_ok, false_and]

@[simp] theorem onlyIf_true (body : Procedure σ Unit) : onlyIf true body = body := rfl

@[simp] theorem onlyIf_false (body : Procedure σ Unit) : onlyIf false body = pure () := rfl

@[simp] theorem demand_ok {reason : Stop} {option : Option α} {before after : σ} {result : α} :
    (demand reason option : Procedure σ α) before = .ok result after ↔
      option = some result ∧ before = after := by
  cases option with
  | some value => simp only [demand, pure_ok, Option.some.injEq]
  | none => simp only [demand, throw_ok, reduceCtorEq, false_and]

@[simp] theorem reading_ok {body : σ → Outcome α} {before after : σ} {result : α} :
    reading body before = .ok result after ↔ body before = .ok result ∧ before = after := by
  unfold reading
  cases body before with
  | ok value => simp only [EStateM.Result.ok.injEq, Except.ok.injEq]
  | error reason => simp only [reduceCtorEq, false_and]

theorem within_ok {view : σ → τ} {update : σ → τ → σ} {body : Procedure τ α}
    {before after : σ} {result : α} :
    within view update body before = .ok result after ↔
      ∃ part, body (view before) = .ok result part ∧ after = update before part := by
  unfold within
  cases body (view before) with
  | ok value part =>
    simp only [EStateM.Result.ok.injEq]
    constructor
    · rintro ⟨rfl, rfl⟩
      exact ⟨part, ⟨rfl, rfl⟩, rfl⟩
    · rintro ⟨_, ⟨rfl, rfl⟩, rfl⟩
      exact ⟨rfl, rfl⟩
  | error reason part => simp only [reduceCtorEq, false_and, exists_false]

theorem attempt_true {body : Procedure σ α} {before after : σ} :
    attempt body before = .ok true after ↔ ∃ value, body before = .ok value after := by
  unfold attempt
  rcases body before with ⟨_, middle⟩ | ⟨_ | _, middle⟩ <;> simp

theorem attempt_false {body : Procedure σ α} {before after : σ} :
    attempt body before = .ok false after ↔ body before = .error .refused after := by
  unfold attempt
  rcases body before with ⟨_, middle⟩ | ⟨_ | _, middle⟩ <;> simp

/-- A bind runs the continuation where the first part returned. -/
theorem bind_of_ok {body : Procedure σ α} {next : α → Procedure σ β} {before middle : σ}
    {value : α} (first : body before = .ok value middle) :
    (body >>= next) before = next value middle := by
  change EStateM.bind body next before = _
  rw [EStateM.bind, first]

theorem bind_of_error {body : Procedure σ α} {next : α → Procedure σ β} {before middle : σ}
    {reason : Stop} (first : body before = .error reason middle) :
    (body >>= next) before = .error reason middle := by
  change EStateM.bind body next before = _
  rw [EStateM.bind, first]

theorem get_bind (next : σ → Procedure σ β) (state : σ) :
    ((get : Procedure σ σ) >>= next) state = next state state := rfl

theorem set_bind (value state : σ) (next : PUnit → Procedure σ β) :
    ((set value : Procedure σ PUnit) >>= next) state = next ⟨⟩ value := rfl

theorem demand_bind (reason : Stop) (value : α) (next : α → Procedure σ β) (state : σ) :
    ((demand reason (some value) : Procedure σ α) >>= next) state = next value state := rfl

theorem require_bind (condition : Bool) (next : Unit → Procedure σ β) (state : σ) :
    (require condition >>= next) state =
      if condition then next () state else .error .refused state := by
  cases condition <;> rfl

theorem within_of_ok {view : σ → τ} {update : σ → τ → σ} {body : Procedure τ α}
    {before : σ} {part : τ} {result : α} (inner : body (view before) = .ok result part) :
    within view update body before = .ok result (update before part) := by
  rw [within, inner]

theorem attempt_of_ok {body : Procedure σ α} {before after : σ} {value : α}
    (inner : body before = .ok value after) : attempt body before = .ok true after := by
  rw [attempt, inner]

/-! ## Invariants -/

/-- The procedure keeps an invariant of the state, also when it stops. -/
def Preserves (invariant : σ → Prop) (body : Procedure σ α) : Prop :=
  ∀ before, invariant before → invariant (final (body before))

variable {invariant : σ → Prop}

theorem Preserves.of_ok {body : Procedure σ α} (keeps : Preserves invariant body)
    {before after : σ} {result : α} (run : body before = .ok result after)
    (holds : invariant before) : invariant after := by
  have ended := keeps before holds
  rwa [run] at ended

theorem preserves_pure (value : α) : Preserves invariant (pure value : Procedure σ α) :=
  fun _ holds => holds

theorem preserves_throw (reason : Stop) : Preserves invariant (throw reason : Procedure σ α) :=
  fun _ holds => holds

theorem preserves_modify {f : σ → σ} (keeps : ∀ state, invariant state → invariant (f state)) :
    Preserves invariant (modify f : Procedure σ PUnit) := keeps

/-- What the first part of a procedure establishes and the rest keeps holds in the end. -/
theorem final_bind {body : Procedure σ α} {next : α → Procedure σ β} {before : σ}
    (first : invariant (final (body before))) (rest : ∀ value, Preserves invariant (next value)) :
    invariant (final ((body >>= next) before)) := by
  change invariant (final (EStateM.bind body next before))
  unfold EStateM.bind
  revert first
  cases body before with
  | ok value after => exact fun first => rest value after first
  | error reason after => exact fun first => first

theorem preserves_bind {body : Procedure σ α} {next : α → Procedure σ β}
    (first : Preserves invariant body) (rest : ∀ value, Preserves invariant (next value)) :
    Preserves invariant (body >>= next) :=
  fun before holds => final_bind (first before holds) rest

/-- A continuation may use what the first part returned and where it ended. -/
theorem preserves_bind_of {body : Procedure σ α} {next : α → Procedure σ β}
    (first : Preserves invariant body)
    (rest : ∀ before value middle, invariant before → body before = .ok value middle →
      invariant (final (next value middle))) :
    Preserves invariant (body >>= next) := by
  intro before holds
  have middle := first before holds
  change invariant (final (EStateM.bind body next before))
  unfold EStateM.bind
  revert middle
  cases run : body before with
  | ok value after => exact fun _ => rest before value after holds run
  | error reason after => exact fun middle => middle

/-- A procedure that continues with the state it reads may use the invariant of that state. -/
theorem preserves_get_bind {next : σ → Procedure σ β}
    (rest : ∀ state, invariant state → Preserves invariant (next state)) :
    Preserves invariant (get >>= next) :=
  fun before holds => rest before holds before holds

/-- What follows a demand may use the value that was demanded. -/
theorem preserves_demand_bind {reason : Stop} {option : Option α} {next : α → Procedure σ β}
    (rest : ∀ value, option = some value → Preserves invariant (next value)) :
    Preserves invariant (demand reason option >>= next) := by
  cases option with
  | none => exact preserves_throw reason
  | some value => exact rest value rfl

theorem preserves_require_bind {condition : Bool} {next : Unit → Procedure σ β}
    (rest : condition = true → Preserves invariant (next ())) :
    Preserves invariant (require condition >>= next) := by
  cases condition with
  | false => exact preserves_throw .refused
  | true => exact rest rfl

theorem preserves_set {value : σ} (holds : invariant value) :
    Preserves invariant (set value : Procedure σ PUnit) := fun _ _ => holds

theorem preserves_require (condition : Bool) :
    Preserves invariant (require condition : Procedure σ Unit) := by
  unfold require
  cases condition
  · exact preserves_throw _
  · exact preserves_pure _

theorem preserves_demand (reason : Stop) (option : Option α) :
    Preserves invariant (demand reason option : Procedure σ α) := by
  cases option
  · exact preserves_throw _
  · exact preserves_pure _

theorem preserves_reading (body : σ → Outcome α) : Preserves invariant (reading body) := by
  intro before holds
  unfold reading
  cases body before <;> exact holds

theorem final_attempt (body : Procedure σ α) (before : σ) :
    final (attempt body before) = final (body before) := by
  unfold attempt
  rcases body before with ⟨_, after⟩ | ⟨_ | _, after⟩ <;> rfl

theorem preserves_attempt {body : Procedure σ α} (keeps : Preserves invariant body) :
    Preserves invariant (attempt body) := by
  intro before holds
  rw [final_attempt]
  exact keeps before holds

theorem preserves_within {view : σ → τ} {update : σ → τ → σ} {body : Procedure τ α}
    (keeps : ∀ state, invariant state → invariant (update state (final (body (view state))))) :
    Preserves invariant (within view update body) := by
  intro before holds
  have ended := keeps before holds
  unfold within
  revert ended
  cases body (view before) <;> exact fun ended => ended

theorem preserves_ite {condition : Prop} [Decidable condition] {yes no : Procedure σ α}
    (whenTrue : condition → Preserves invariant yes)
    (whenFalse : ¬ condition → Preserves invariant no) :
    Preserves invariant (if condition then yes else no) := by
  split
  · next holds => exact whenTrue holds
  · next fails => exact whenFalse fails

theorem preserves_onlyIf {condition : Bool} {body : Procedure σ Unit}
    (keeps : Preserves invariant body) : Preserves invariant (onlyIf condition body) := by
  cases condition
  · exact preserves_pure ()
  · exact keeps

/-- A procedure that runs under a condition may use the condition. -/
theorem preserves_onlyIf_of {condition : Bool} {body : Procedure σ Unit}
    (keeps : condition = true → Preserves invariant body) :
    Preserves invariant (onlyIf condition body) := by
  cases condition
  · exact preserves_pure ()
  · exact keeps rfl

theorem preserves_forEach {body : α → Procedure σ Unit} {items : List α}
    (each : ∀ item ∈ items, Preserves invariant (body item)) :
    Preserves invariant (forEach body items) := by
  induction items with
  | nil => exact preserves_pure ()
  | cons head tail ih =>
    exact preserves_bind (each head List.mem_cons_self)
      fun _ => ih fun item member => each item (List.mem_cons_of_mem _ member)

/-! ## Ways of stopping that are ruled out -/

variable {reason : Stop}

/-- The procedure does not stop for a reason. -/
def Avoids (reason : Stop) (body : Procedure σ α) : Prop :=
  ∀ before after, body before ≠ .error reason after

/-- The procedure raises no exception. -/
abbrev NoThrow (body : Procedure σ α) : Prop := Avoids .thrown body

theorem avoids_pure (value : α) : Avoids reason (pure value : Procedure σ α) :=
  fun _ _ same => by cases same

theorem avoids_get : Avoids reason (get : Procedure σ σ) := fun _ _ same => by cases same

theorem avoids_set (value : σ) : Avoids reason (set value : Procedure σ PUnit) :=
  fun _ _ same => by cases same

theorem avoids_modify (f : σ → σ) : Avoids reason (modify f : Procedure σ PUnit) :=
  fun _ _ same => by cases same

theorem avoids_bind {body : Procedure σ α} {next : α → Procedure σ β} (first : Avoids reason body)
    (rest : ∀ value, Avoids reason (next value)) : Avoids reason (body >>= next) := by
  intro before after same
  change EStateM.bind body next before = _ at same
  unfold EStateM.bind at same
  split at same
  · exact rest _ _ _ same
  · next ended =>
    cases same
    exact first _ _ ended

theorem avoids_ite {condition : Prop} [Decidable condition] {yes no : Procedure σ α}
    (whenTrue : Avoids reason yes) (whenFalse : Avoids reason no) :
    Avoids reason (if condition then yes else no) := by
  split
  · exact whenTrue
  · exact whenFalse

theorem avoids_onlyIf {condition : Bool} {body : Procedure σ Unit}
    (inner : condition = true → Avoids reason body) : Avoids reason (onlyIf condition body) := by
  cases condition
  · exact avoids_pure ()
  · exact inner rfl

theorem avoids_forEach {body : α → Procedure σ Unit} {items : List α}
    (each : ∀ item ∈ items, Avoids reason (body item)) : Avoids reason (forEach body items) := by
  induction items with
  | nil => exact avoids_pure ()
  | cons head tail ih =>
    exact avoids_bind (each head List.mem_cons_self)
      fun _ => ih fun item member => each item (List.mem_cons_of_mem _ member)

theorem avoids_reading {body : σ → Outcome α} (reads : ∀ state, body state ≠ .error reason) :
    Avoids reason (reading body) := by
  intro before after same
  unfold reading at same
  split at same
  · cases same
  · next ended =>
    cases same
    exact reads before ended

/-- An attempt answers a failure. -/
theorem attempt_avoids_refused (body : Procedure σ α) : Avoids .refused (attempt body) := by
  intro before after same
  unfold attempt at same
  split at same <;> cases same

theorem noThrow_attempt {body : Procedure σ α} (inner : NoThrow body) : NoThrow (attempt body) := by
  intro before after same
  unfold attempt at same
  split at same
  · cases same
  · cases same
  · next ended => exact inner _ _ ended

theorem noThrow_refuse : NoThrow (throw .refused : Procedure σ α) :=
  fun _ _ same => by cases same

theorem noThrow_require (condition : Bool) :
    NoThrow (require condition : Procedure σ Unit) := by
  unfold require
  cases condition
  · exact noThrow_refuse
  · exact avoids_pure _

theorem noThrow_demand (option : Option α) :
    NoThrow (demand .refused option : Procedure σ α) := by
  cases option
  · exact noThrow_refuse
  · exact avoids_pure _

/-- From states of an invariant the procedure raises no exception and keeps the invariant. -/
def Quiet (invariant : σ → Prop) (body : Procedure σ α) : Prop :=
  ∀ before, invariant before →
    invariant (final (body before)) ∧ ∀ after, body before ≠ .error .thrown after

theorem quiet_forEach {invariant : σ → Prop} {body : α → Procedure σ Unit} {items : List α}
    (each : ∀ item ∈ items, Quiet invariant (body item)) : Quiet invariant (forEach body items) := by
  induction items with
  | nil => exact fun _ holds => ⟨holds, fun _ same => by cases same⟩
  | cons head tail ih =>
    intro before holds
    obtain ⟨middle, calm⟩ := each head List.mem_cons_self before holds
    have rest := ih fun item member => each item (List.mem_cons_of_mem _ member)
    unfold forEach
    cases first : body head before with
    | ok value after =>
      rw [first] at middle
      rw [bind_of_ok first]
      exact rest after middle
    | error reason after =>
      rw [first] at middle
      rw [bind_of_error first]
      refine ⟨middle, fun other same => ?_⟩
      cases same
      exact calm _ first

/-- A quiet procedure can be attempted. -/
theorem Quiet.attempt {invariant : σ → Prop} {body : Procedure σ α} (quiet : Quiet invariant body)
    {before : σ} (holds : invariant before) :
    ∃ success after, Procedure.attempt body before = .ok success after ∧ invariant after := by
  obtain ⟨ends, calm⟩ := quiet before holds
  unfold Procedure.attempt
  revert ends calm
  rcases body before with ⟨_, after⟩ | ⟨_ | _, after⟩
  · exact fun ends _ => ⟨true, after, rfl, ends⟩
  · exact fun ends _ => ⟨false, after, rfl, ends⟩
  · exact fun _ calm => absurd rfl (calm after)

/-- A procedure that raises no exception can be attempted. -/
theorem attempt_runs {body : Procedure σ α} (inner : NoThrow body) (before : σ) :
    ∃ success after, attempt body before = .ok success after := by
  cases run : attempt body before with
  | ok success after => exact ⟨success, after, rfl⟩
  | error reason after =>
    cases reason with
    | refused => exact absurd run (attempt_avoids_refused body _ _)
    | thrown => exact absurd run (noThrow_attempt inner _ _)

end Procedure
end Foundation
