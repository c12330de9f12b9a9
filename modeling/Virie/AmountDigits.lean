import Virie.Amounts

/-! # Amounts in digits

An amount is handed out in chunks of one decimal digit each, its low digits together as dust.
From the first digit above the largest allowed output on, the rest of the amount is handed out
in largest outputs and what remains of it in digits again. The chunks and dusts sum up to the
amount, unless the rest needs more outputs than there may be: then the digits already handed out
stay out, and the rest of the amount is lost. -/

namespace Virie

/-! ## The decomposition -/

/-- The bounds of a decomposition. The amount is divided by the largest allowed output first. -/
structure OutputLimits where
  dustThreshold : Nat
  maxOutputAllowed : Nat
  maxOutsCount : Nat
  positive : 0 < maxOutputAllowed

/-- A call of one of the two handlers. -/
inductive Handed where
  | chunk (amount : Nat)
  | dust (amount : Nat)
  deriving DecidableEq, Repr

def Handed.amount : Handed → Nat
  | .chunk amount => amount
  | .dust amount => amount

/-- The variables of the loop over the digits, with the handler calls so far. -/
structure Digits where
  amount : Nat
  multiplier : Nat
  dust : Nat
  isDustHandled : Bool
  outsCount : Nat
  handed : List Handed
  deriving DecidableEq, Repr

namespace Digits

variable (limits : OutputLimits) (digits : Digits)

def chunk : Nat := digits.amount % 10 * digits.multiplier % 2 ^ 64

/-- The dust that is still to be handed out. -/
def openDust : List Handed :=
  if !digits.isDustHandled && digits.dust != 0 then [.dust digits.dust] else []

def handDust : Digits :=
  if !digits.isDustHandled && digits.dust != 0 then
    { digits with isDustHandled := true, handed := digits.handed ++ [.dust digits.dust] }
  else digits

def handChunk (chunk : Nat) : Digits :=
  if chunk ≠ 0 then
    { digits with outsCount := digits.outsCount + 1, handed := digits.handed ++ [.chunk chunk] }
  else digits

/-- The dust, if there is any, and a chunk above it. -/
def handApart (chunk : Nat) : Digits := digits.handDust.handChunk chunk

/-- The next digit joins the dust or is handed out. -/
def step : Digits :=
  let next := { digits with
    amount := digits.amount / 10, multiplier := digits.multiplier * 10 % 2 ^ 64 }
  if addU64 digits.dust digits.chunk ≤ limits.dustThreshold then
    { next with dust := addU64 digits.dust digits.chunk }
  else next.handApart digits.chunk

@[simp] theorem handDust_amount : digits.handDust.amount = digits.amount := by
  unfold handDust
  split <;> rfl

@[simp] theorem handChunk_amount (chunk : Nat) :
    (digits.handChunk chunk).amount = digits.amount := by
  unfold handChunk
  split <;> rfl

@[simp] theorem handDust_multiplier : digits.handDust.multiplier = digits.multiplier := by
  unfold handDust
  split <;> rfl

@[simp] theorem handChunk_multiplier (chunk : Nat) :
    (digits.handChunk chunk).multiplier = digits.multiplier := by
  unfold handChunk
  split <;> rfl

@[simp] theorem step_amount : (digits.step limits).amount = digits.amount / 10 := by
  unfold step
  dsimp only
  split
  · rfl
  · rw [handApart, handChunk_amount, handDust_amount]

@[simp] theorem step_multiplier :
    (digits.step limits).multiplier = digits.multiplier * 10 % 2 ^ 64 := by
  unfold step
  dsimp only
  split
  · rfl
  · rw [handApart, handChunk_multiplier, handDust_multiplier]

theorem handDust_handed : digits.handDust.handed = digits.handed ++ digits.openDust := by
  unfold handDust openDust
  split
  · rfl
  · exact (List.append_nil digits.handed).symm

theorem handDust_openDust : digits.handDust.openDust = [] := by
  unfold handDust
  split
  · rfl
  · rename_i nothing
    unfold openDust
    rw [if_neg nothing]

theorem handApart_dust (chunk : Nat) : (digits.handApart chunk).dust = digits.dust := by
  unfold handApart handChunk handDust
  split <;> split <;> rfl

theorem handApart_openDust (chunk : Nat) : (digits.handApart chunk).openDust = [] := by
  rw [← handDust_openDust digits]
  unfold handApart handChunk
  split <;> rfl

variable {chunk : Nat}

theorem handApart_handed (some : chunk ≠ 0) :
    (digits.handApart chunk).handed = digits.handed ++ digits.openDust ++ [.chunk chunk] := by
  unfold handApart handChunk
  rw [if_pos some, handDust_handed]

theorem handApart_outsCount (some : chunk ≠ 0) :
    (digits.handApart chunk).outsCount = digits.outsCount + 1 := by
  unfold handApart handChunk handDust
  rw [if_pos some]
  split <;> rfl

/-- The loop over the digits: up to the first one above the largest allowed output. -/
def loop (digits : Digits) : Digits :=
  if digits.amount = 0 then digits
  else if limits.maxOutputAllowed < digits.chunk then digits
  else loop (digits.step limits)
termination_by digits.amount
decreasing_by
  rw [step_amount]
  omega

/-- Where the loop stops with digits left, the next one is above the largest allowed output and
no more than what was there at the start. -/
theorem loop_stops (left : (digits.loop limits).amount ≠ 0) :
    limits.maxOutputAllowed < (digits.loop limits).chunk ∧
      (digits.loop limits).chunk ≤ digits.amount * digits.multiplier := by
  induction digits using loop.induct limits with
  | case1 digits empty =>
    rw [loop, if_pos empty] at left
    exact absurd empty left
  | case2 digits some large =>
    rw [loop, if_neg some, if_pos large] at left ⊢
    refine ⟨large, (Nat.mod_le _ _).trans ?_⟩
    exact Nat.mul_le_mul_right _ (Nat.mod_le _ _)
  | case3 digits some small ih =>
    rw [loop, if_neg some, if_neg small] at left ⊢
    obtain ⟨large, bounded⟩ := ih left
    refine ⟨large, bounded.trans ?_⟩
    rw [step_amount, step_multiplier]
    calc
      digits.amount / 10 * (digits.multiplier * 10 % 2 ^ 64) ≤
          digits.amount / 10 * (digits.multiplier * 10) :=
        Nat.mul_le_mul_left _ (Nat.mod_le _ _)
      _ = digits.amount / 10 * 10 * digits.multiplier := by ring
      _ ≤ digits.amount * digits.multiplier :=
        Nat.mul_le_mul_right _ (Nat.div_mul_le_self _ _)

end Digits

/-- The variables of the loop over the largest outputs; `aborted` when the source returns from
inside it. -/
structure Peeled where
  aborted : Bool
  amountMultiplied : Nat
  outsCount : Nat
  handed : List Handed
  deriving DecidableEq, Repr

section Decomposition

variable (limits : OutputLimits)

/-- The loop that hands out largest outputs. -/
def peel (amountMultiplied outsCount : Nat) (handed : List Handed) : Peeled :=
  if limits.maxOutputAllowed ≤ amountMultiplied then
    let amountMultiplied := amountMultiplied - limits.maxOutputAllowed
    let handed := handed ++ [.chunk limits.maxOutputAllowed]
    if outsCount + 1 < limits.maxOutsCount ∨ amountMultiplied = 0 then
      peel amountMultiplied (outsCount + 1) handed
    else ⟨true, amountMultiplied, outsCount + 1, handed⟩
  else ⟨false, amountMultiplied, outsCount, handed⟩
termination_by amountMultiplied
decreasing_by
  have := limits.positive
  omega

theorem peel_rest (amountMultiplied outsCount : Nat) (handed : List Handed)
    (done : (peel limits amountMultiplied outsCount handed).aborted = false) :
    (peel limits amountMultiplied outsCount handed).amountMultiplied <
      limits.maxOutputAllowed := by
  induction amountMultiplied, outsCount, handed using peel.induct limits with
  | case1 amount outsCount handed enough rest handedMore room ih =>
    rw [peel, if_pos enough] at done ⊢
    dsimp only at done ⊢
    rw [if_pos room] at done ⊢
    exact ih done
  | case2 amount outsCount handed enough rest full =>
    rw [peel, if_pos enough] at done
    dsimp only at done
    rw [if_neg full] at done
    cases done
  | case3 amount outsCount handed short =>
    rw [peel, if_neg short]
    exact Nat.lt_of_not_le short

/-- The handler calls of `decompose_amount_into_digits`, in their order. -/
def decomposeAmountIntoDigits (amount outsCount : Nat) : List Handed :=
  if amount = 0 then []
  else if ¬ amount / limits.maxOutputAllowed ≤ limits.maxOutsCount then []
  else
    let digits := Digits.loop limits ⟨amount, 1, 0, false, outsCount, []⟩
    if digits.amount ≠ 0 then
      if digits.multiplier = 0 then digits.handed
      else
        let peeled := peel limits (digits.amount * digits.multiplier % 2 ^ 64)
          digits.outsCount digits.handed
        if peeled.aborted then peeled.handed
        else if peeled.amountMultiplied ≠ 0 then
          peeled.handed ++ decomposeAmountIntoDigits peeled.amountMultiplied peeled.outsCount ++
            digits.openDust
        else peeled.handed ++ digits.openDust
    else digits.handed ++ digits.openDust
termination_by amount
decreasing_by
  rename_i left _ done _
  have below := peel_rest limits _ _ _ (Bool.eq_false_iff.mpr done)
  have stops := Digits.loop_stops limits _ left
  exact below.trans (stops.1.trans_le (stops.2.trans_eq (Nat.mul_one _)))

end Decomposition

/-! ## What is handed out -/

/-- The sum of the chunks and dusts. -/
def totalHanded (handed : List Handed) : Nat := (handed.map Handed.amount).sum

/-- Every chunk is an amount an output may have. -/
def ChunksAllowed (limits : OutputLimits) (handed : List Handed) : Prop :=
  ∀ amount, .chunk amount ∈ handed → amount ≠ 0 ∧ amount ≤ limits.maxOutputAllowed

section Handing

variable (limits : OutputLimits)

@[simp] theorem totalHanded_nil : totalHanded [] = 0 := rfl

@[simp] theorem totalHanded_append (handed more : List Handed) :
    totalHanded (handed ++ more) = totalHanded handed + totalHanded more := by
  simp only [totalHanded, List.map_append, List.sum_append]

@[simp] theorem totalHanded_singleton (call : Handed) : totalHanded [call] = call.amount := by
  simp only [totalHanded, List.map_cons, List.map_nil, List.sum_cons, List.sum_nil, Nat.add_zero]

theorem chunksAllowed_nil : ChunksAllowed limits [] := by
  intro amount listed
  cases listed

variable {limits}

theorem ChunksAllowed.append {handed more : List Handed} (allowed : ChunksAllowed limits handed)
    (allowedToo : ChunksAllowed limits more) : ChunksAllowed limits (handed ++ more) := by
  intro amount listed
  rcases List.mem_append.mp listed with early | late
  · exact allowed amount early
  · exact allowedToo amount late

theorem chunksAllowed_dust (amount : Nat) : ChunksAllowed limits [.dust amount] := by
  intro amount listed
  cases List.mem_singleton.mp listed

theorem chunksAllowed_chunk {amount : Nat} (some : amount ≠ 0)
    (small : amount ≤ limits.maxOutputAllowed) : ChunksAllowed limits [.chunk amount] := by
  intro amount listed
  cases List.mem_singleton.mp listed
  exact ⟨some, small⟩

end Handing

/-! ## The digits of an amount -/

/-- The digit of an amount at a position, with its weight. -/
def digitChunk (amount position : Nat) : Nat := amount / 10 ^ position % 10 * 10 ^ position

theorem mod_succ_digit (amount position : Nat) :
    amount % 10 ^ (position + 1) = amount % 10 ^ position + digitChunk amount position := by
  rw [Nat.mod_pow_succ, digitChunk, Nat.mul_comm]

/-- The digit at a position is handed out alone: it is not zero, and with the digits below it
is above the dust. -/
def handedAlone (threshold amount position : Nat) : Bool :=
  digitChunk amount position != 0 && decide (threshold < amount % 10 ^ (position + 1))

/-- How many of the low digits are handed out alone. -/
def lowOutputs (threshold amount position : Nat) : Nat :=
  ((List.range position).filter (handedAlone threshold amount)).length

theorem lowOutputs_succ (threshold amount position : Nat) :
    lowOutputs threshold amount (position + 1) =
      lowOutputs threshold amount position +
        if handedAlone threshold amount position then 1 else 0 := by
  unfold lowOutputs
  rw [List.range_succ, List.filter_append, List.length_append, List.filter_singleton]
  cases handedAlone threshold amount position <;> rfl

theorem digitChunk_lt (amount position : Nat) :
    digitChunk amount position < 10 ^ (position + 1) := by
  unfold digitChunk
  rw [Nat.pow_succ, Nat.mul_comm]
  exact Nat.mul_lt_mul_of_pos_left (Nat.mod_lt _ (by decide)) (Nat.pow_pos (by decide))

theorem le_digitChunk {amount position : Nat} (some : digitChunk amount position ≠ 0) :
    10 ^ position ≤ digitChunk amount position := by
  unfold digitChunk at some ⊢
  exact Nat.le_mul_of_pos_left _ (Nat.pos_of_ne_zero (left_ne_zero_of_mul some))

/-- The variables of the loop after a number of digits: the digits that are left, the dust while
there is nothing but dust, and the sum of what was handed out and the dust that is still to be
handed out. -/
structure Digits.After (limits : OutputLimits) (amount outsCount position : Nat)
    (digits : Digits) : Prop where
  left : digits.amount = amount / 10 ^ position
  multiplier : digits.multiplier = 10 ^ position % 2 ^ 64
  small : ∀ earlier < position, digitChunk amount earlier ≤ limits.maxOutputAllowed
  counted : digits.outsCount = outsCount + lowOutputs limits.dustThreshold amount position
  total : totalHanded digits.handed + totalHanded digits.openDust = amount % 10 ^ position
  allowed : ChunksAllowed limits digits.handed
  below : digits.dust ≤ limits.dustThreshold
  part : digits.dust ≤ amount % 10 ^ position
  phase : (digits.isDustHandled = false ∧ digits.dust = amount % 10 ^ position) ∨
    (digits.openDust = [] ∧ limits.dustThreshold < digits.dust + 10 ^ position ∧
      limits.dustThreshold < amount % 10 ^ position)

section Loop

variable {limits : OutputLimits} {amount outsCount : Nat}

theorem Digits.After.start (limits : OutputLimits) (amount outsCount : Nat) :
    Digits.After limits amount outsCount 0 ⟨amount, 1, 0, false, outsCount, []⟩ where
  left := (Nat.div_one amount).symm
  multiplier := rfl
  small := fun earlier before => absurd before (Nat.not_lt_zero earlier)
  counted := rfl
  total := (Nat.mod_one amount).symm
  allowed := chunksAllowed_nil limits
  below := Nat.zero_le _
  part := Nat.zero_le _
  phase := Or.inl ⟨rfl, (Nat.mod_one amount).symm⟩

variable {position : Nat} {digits : Digits}

theorem pow_le_of_left (left : amount / 10 ^ position ≠ 0) : 10 ^ position ≤ amount := by
  by_contra short
  exact left (Nat.div_eq_of_lt (Nat.lt_of_not_le short))

/-- While digits are left, the chunk of the source is the digit with its weight. -/
theorem Digits.After.chunk_eq (reached : Digits.After limits amount outsCount position digits)
    (word : amount < 2 ^ 64) (left : digits.amount ≠ 0) :
    digits.multiplier = 10 ^ position ∧ digits.chunk = digitChunk amount position := by
  rw [reached.left] at left
  have power := pow_le_of_left left
  have exactly : digits.multiplier = 10 ^ position := by
    rw [reached.multiplier, Nat.mod_eq_of_lt (power.trans_lt word)]
  have bounded : digitChunk amount position ≤ amount :=
    calc
      digitChunk amount position ≤ amount / 10 ^ position * 10 ^ position :=
        Nat.mul_le_mul_right _ (Nat.mod_le _ _)
      _ ≤ amount := Nat.div_mul_le_self _ _
  refine ⟨exactly, ?_⟩
  unfold Digits.chunk
  rw [exactly, reached.left]
  exact Nat.mod_eq_of_lt (bounded.trans_lt word)

theorem Digits.After.add_eq (reached : Digits.After limits amount outsCount position digits)
    (word : amount < 2 ^ 64) (left : digits.amount ≠ 0) :
    addU64 digits.dust digits.chunk = digits.dust + digitChunk amount position := by
  rw [(reached.chunk_eq word left).2]
  apply Nat.mod_eq_of_lt
  calc
    digits.dust + digitChunk amount position ≤ amount % 10 ^ (position + 1) := by
      rw [mod_succ_digit]
      exact Nat.add_le_add_right reached.part _
    _ ≤ amount := Nat.mod_le _ _
    _ < 2 ^ 64 := word

theorem handedAlone_of_lt {threshold : Nat} (some : digitChunk amount position ≠ 0)
    (above : threshold < amount % 10 ^ (position + 1)) :
    handedAlone threshold amount position = true := by
  unfold handedAlone
  rw [Bool.and_eq_true, bne_iff_ne, decide_eq_true_eq]
  exact ⟨some, above⟩

theorem not_handedAlone {threshold : Nat}
    (joins : digitChunk amount position = 0 ∨ amount % 10 ^ (position + 1) ≤ threshold) :
    handedAlone threshold amount position = false := by
  apply Bool.eq_false_iff.mpr
  unfold handedAlone
  rw [ne_eq, Bool.and_eq_true, bne_iff_ne, decide_eq_true_eq]
  rintro ⟨some, above⟩
  rcases joins with nothing | within
  · exact some nothing
  · exact Nat.not_lt_of_le within above

theorem totalHanded_openDust (unhandled : digits.isDustHandled = false) :
    totalHanded digits.openDust = digits.dust := by
  unfold Digits.openDust
  rw [unhandled, Bool.not_false, Bool.true_and]
  by_cases some : digits.dust = 0
  · rw [some]
    rfl
  · rw [if_pos (bne_iff_ne.mpr some), totalHanded_singleton]
    rfl

/-- A digit that joins the dust. After something was handed out only a zero does. -/
theorem Digits.After.join (reached : Digits.After limits amount outsCount position digits)
    (joins : digits.dust + digitChunk amount position ≤ limits.dustThreshold) (next : Digits)
    (dust : next.dust = digits.dust + digitChunk amount position)
    (handled : next.isDustHandled = digits.isDustHandled)
    (handed : next.handed = digits.handed) (outs : next.outsCount = digits.outsCount)
    (left : next.amount = amount / 10 ^ (position + 1))
    (multiplier : next.multiplier = 10 ^ (position + 1) % 2 ^ 64)
    (small : ∀ earlier < position + 1, digitChunk amount earlier ≤ limits.maxOutputAllowed) :
    Digits.After limits amount outsCount (position + 1) next := by
  have digit := mod_succ_digit amount position
  have power : 10 ^ position ≤ 10 ^ (position + 1) :=
    Nat.pow_le_pow_right (by decide) (Nat.le_succ position)
  rcases reached.phase with ⟨unhandled, all⟩ | ⟨settled, above, exceeds⟩
  · have dustAll : next.dust = amount % 10 ^ (position + 1) := by
      rw [dust, all, digit]
    have within : amount % 10 ^ (position + 1) ≤ limits.dustThreshold := by
      rw [digit, ← all]
      exact joins
    refine ⟨left, multiplier, small, ?_, ?_, ?_, ?_, dustAll.le, Or.inl ⟨?_, dustAll⟩⟩
    · rw [outs, reached.counted, lowOutputs_succ, not_handedAlone (Or.inr within)]
      rfl
    · have before := reached.total
      rw [totalHanded_openDust unhandled, all] at before
      rw [handed, totalHanded_openDust (handled.trans unhandled), dustAll]
      omega
    · rw [handed]
      exact reached.allowed
    · rw [dust]
      exact joins
    · rw [handled]
      exact unhandled
  · have zero : digitChunk amount position = 0 := by
      by_contra some
      have least := le_digitChunk some
      omega
    have same : next.openDust = digits.openDust := by
      unfold Digits.openDust
      rw [handled, dust, zero, Nat.add_zero]
    rw [zero, Nat.add_zero] at dust digit
    refine ⟨left, multiplier, small, ?_, ?_, ?_, ?_, ?_, Or.inr ⟨?_, ?_, ?_⟩⟩
    · rw [outs, reached.counted, lowOutputs_succ, not_handedAlone (Or.inl zero)]
      rfl
    · rw [handed, same, digit]
      exact reached.total
    · rw [handed]
      exact reached.allowed
    · rw [dust]
      exact reached.below
    · rw [dust, digit]
      exact reached.part
    · rw [same]
      exact settled
    · rw [dust]
      exact above.trans_le (Nat.add_le_add_left power _)
    · rw [digit]
      exact exceeds

/-- A digit that is handed out alone. -/
theorem Digits.After.alone (reached : Digits.After limits amount outsCount position digits)
    (exceeds : limits.dustThreshold < digits.dust + digitChunk amount position) (next : Digits)
    (dust : next.dust = digits.dust) (settled : next.openDust = [])
    (handed : next.handed =
      digits.handed ++ digits.openDust ++ [.chunk (digitChunk amount position)])
    (outs : next.outsCount = digits.outsCount + 1)
    (left : next.amount = amount / 10 ^ (position + 1))
    (multiplier : next.multiplier = 10 ^ (position + 1) % 2 ^ 64)
    (small : ∀ earlier < position + 1, digitChunk amount earlier ≤ limits.maxOutputAllowed) :
    Digits.After limits amount outsCount (position + 1) next := by
  have digit := mod_succ_digit amount position
  have below := reached.below
  have part := reached.part
  have some : digitChunk amount position ≠ 0 := by
    omega
  have above : limits.dustThreshold < amount % 10 ^ (position + 1) := by
    omega
  have weight := digitChunk_lt amount position
  refine ⟨left, multiplier, small, ?_, ?_, ?_, ?_, ?_, Or.inr ⟨settled, ?_, above⟩⟩
  · rw [outs, reached.counted, lowOutputs_succ, handedAlone_of_lt some above]
    rfl
  · rw [handed, settled, totalHanded_append, totalHanded_append, reached.total, digit]
    rfl
  · rw [handed]
    refine (reached.allowed.append ?_).append
      (chunksAllowed_chunk some (small position (Nat.lt_succ_self position)))
    unfold Digits.openDust
    split
    · exact chunksAllowed_dust digits.dust
    · exact chunksAllowed_nil limits
  · rw [dust]
    exact below
  · rw [dust]
    omega
  · rw [dust]
    omega

/-- One more digit. -/
theorem Digits.After.step (reached : Digits.After limits amount outsCount position digits)
    (word : amount < 2 ^ 64) (left : digits.amount ≠ 0)
    (small : ¬limits.maxOutputAllowed < digits.chunk) :
    Digits.After limits amount outsCount (position + 1) (digits.step limits) := by
  obtain ⟨exactly, chunk⟩ := reached.chunk_eq word left
  have sum := reached.add_eq word left
  have leftNext : (digits.step limits).amount = amount / 10 ^ (position + 1) := by
    rw [Digits.step_amount, reached.left, Nat.pow_succ, Nat.div_div_eq_div_mul]
  have multiplierNext : (digits.step limits).multiplier = 10 ^ (position + 1) % 2 ^ 64 := by
    rw [Digits.step_multiplier, exactly, ← Nat.pow_succ]
  have smallNext : ∀ earlier < position + 1,
      digitChunk amount earlier ≤ limits.maxOutputAllowed := by
    intro earlier before
    rcases Nat.lt_succ_iff_lt_or_eq.mp before with already | rfl
    · exact reached.small earlier already
    · rw [← chunk]
      exact Nat.le_of_not_lt small
  by_cases joins : digits.dust + digitChunk amount position ≤ limits.dustThreshold
  · have joined : digits.step limits = { digits with
        amount := digits.amount / 10, multiplier := digits.multiplier * 10 % 2 ^ 64,
        dust := digits.dust + digitChunk amount position } := by
      unfold Digits.step
      dsimp only
      rw [sum, if_pos joins]
    refine reached.join joins _ ?_ ?_ ?_ ?_ leftNext multiplierNext smallNext <;> rw [joined]
  · have exceeds := Nat.lt_of_not_le joins
    have below := reached.below
    have some : digitChunk amount position ≠ 0 := by
      omega
    have apart : digits.step limits = Digits.handApart { digits with
        amount := digits.amount / 10, multiplier := digits.multiplier * 10 % 2 ^ 64 }
          (digitChunk amount position) := by
      unfold Digits.step
      dsimp only
      rw [sum, if_neg joins, chunk]
    rw [apart] at leftNext multiplierNext ⊢
    exact reached.alone exceeds _ (Digits.handApart_dust _ _) (Digits.handApart_openDust _ _)
      (Digits.handApart_handed _ some) (Digits.handApart_outsCount _ some) leftNext multiplierNext
      smallNext

/-- All digits up to the first one above the largest allowed output. -/
theorem Digits.After.run (reached : Digits.After limits amount outsCount position digits)
    (word : amount < 2 ^ 64) :
    ∃ last, Digits.After limits amount outsCount last (digits.loop limits) ∧
      ((digits.loop limits).amount ≠ 0 → limits.maxOutputAllowed < digitChunk amount last) := by
  induction digits using Digits.loop.induct limits generalizing position with
  | case1 digits empty =>
    rw [Digits.loop, if_pos empty]
    exact ⟨position, reached, fun left => absurd empty left⟩
  | case2 digits left large =>
    rw [Digits.loop, if_neg left, if_pos large]
    refine ⟨position, reached, fun _ => ?_⟩
    rw [← (reached.chunk_eq word left).2]
    exact large
  | case3 digits left small ih =>
    rw [Digits.loop, if_neg left, if_neg small]
    exact ih (reached.step word left small)

theorem digitChunk_le (amount position : Nat) :
    digitChunk amount position ≤ amount / 10 ^ position * 10 ^ position :=
  Nat.mul_le_mul_right _ (Nat.mod_le _ _)

/-- Where no digit is left, everything is handed out or dust. -/
theorem Digits.After.whole (reached : Digits.After limits amount outsCount position digits)
    (empty : digits.amount = 0) :
    totalHanded (digits.handed ++ digits.openDust) = amount := by
  rw [totalHanded_append, reached.total]
  have nothing := reached.left.symm.trans empty
  have split := Nat.div_add_mod' amount (10 ^ position)
  rw [nothing, Nat.zero_mul, Nat.zero_add] at split
  exact split

theorem Digits.chunksAllowed_openDust (digits : Digits) :
    ChunksAllowed limits digits.openDust := by
  unfold Digits.openDust
  split
  · exact chunksAllowed_dust digits.dust
  · exact chunksAllowed_nil limits

end Loop

/-! ## The rest in largest outputs -/

/-- The largest outputs it takes to cover an amount. -/
def maximalOutputs (limits : OutputLimits) (amount : Nat) : Nat :=
  (amount + limits.maxOutputAllowed - 1) / limits.maxOutputAllowed

section Rest

variable {limits : OutputLimits}

theorem maximalOutputs_sub {amount : Nat} (enough : limits.maxOutputAllowed ≤ amount) :
    maximalOutputs limits amount =
      maximalOutputs limits (amount - limits.maxOutputAllowed) + 1 := by
  have positive := limits.positive
  unfold maximalOutputs
  have split : amount + limits.maxOutputAllowed - 1 =
      amount - limits.maxOutputAllowed + limits.maxOutputAllowed - 1 +
        limits.maxOutputAllowed := by
    omega
  rw [split, Nat.add_div_right _ positive]

theorem maximalOutputs_zero : maximalOutputs limits 0 = 0 := by
  have positive := limits.positive
  unfold maximalOutputs
  exact Nat.div_eq_of_lt (by omega)

theorem maximalOutputs_pos {amount : Nat} (some : amount ≠ 0) :
    1 ≤ maximalOutputs limits amount := by
  unfold maximalOutputs
  exact (Nat.one_le_div_iff limits.positive).mpr (by omega)

theorem maximalOutputs_one {amount : Nat} (some : amount ≠ 0)
    (short : ¬limits.maxOutputAllowed ≤ amount) : maximalOutputs limits amount = 1 := by
  unfold maximalOutputs
  exact Nat.div_eq_of_lt_le (by omega) (by omega)

/-- What the loop over the largest outputs hands out, and when it gives up. -/
structure PeelsTo (limits : OutputLimits) (amount : Nat) (handed : List Handed)
    (peeled : Peeled) : Prop where
  total : totalHanded peeled.handed + peeled.amountMultiplied = totalHanded handed + amount
  allowed : ChunksAllowed limits peeled.handed
  left : peeled.aborted = true → peeled.amountMultiplied ≠ 0 ∧ peeled.handed ≠ []

theorem peelsTo (amount outsCount : Nat) {handed : List Handed}
    (allowed : ChunksAllowed limits handed) :
    PeelsTo limits amount handed (peel limits amount outsCount handed) := by
  have positive := limits.positive
  induction amount, outsCount, handed using peel.induct limits with
  | case1 amount outsCount handed enough rest handedMore room ih =>
    rw [peel, if_pos enough]
    dsimp only
    rw [if_pos room]
    have more : ChunksAllowed limits handedMore :=
      allowed.append (chunksAllowed_chunk positive.ne' (Nat.le_refl _))
    obtain ⟨total, allowedNext, left⟩ := ih more
    refine ⟨total.trans ?_, allowedNext, left⟩
    change totalHanded (handed ++ [.chunk limits.maxOutputAllowed]) +
      (amount - limits.maxOutputAllowed) = totalHanded handed + amount
    rw [totalHanded_append, totalHanded_singleton, Handed.amount]
    omega
  | case2 amount outsCount handed enough rest full =>
    rw [peel, if_pos enough]
    dsimp only
    rw [if_neg full]
    refine ⟨?_, allowed.append (chunksAllowed_chunk positive.ne' (Nat.le_refl _)), fun _ =>
      ⟨fun none => full (Or.inr none), List.append_ne_nil_of_right_ne_nil _ (by simp)⟩⟩
    dsimp only
    rw [totalHanded_append, totalHanded_singleton, Handed.amount]
    omega
  | case3 amount outsCount handed short =>
    rw [peel, if_neg short]
    exact ⟨rfl, allowed, fun aborted => absurd aborted Bool.false_ne_true⟩

/-- The loop gives up exactly when the largest outputs that cover the amount are too many. -/
theorem peel_aborted (amount outsCount : Nat) (handed : List Handed)
    (enough : limits.maxOutputAllowed ≤ amount)
    (room : amount = limits.maxOutputAllowed → outsCount < limits.maxOutsCount) :
    (peel limits amount outsCount handed).aborted = true ↔
      limits.maxOutsCount < outsCount + maximalOutputs limits amount := by
  induction amount, outsCount, handed using peel.induct limits with
  | case1 amount outsCount handed enough rest handedMore more ih =>
    rw [peel, if_pos enough, maximalOutputs_sub enough]
    dsimp only
    rw [if_pos more]
    by_cases enoughNext : limits.maxOutputAllowed ≤ amount - limits.maxOutputAllowed
    · have positive := limits.positive
      have roomNext : outsCount + 1 < limits.maxOutsCount :=
        more.resolve_right (by omega)
      rw [ih enoughNext (fun _ => roomNext)]
      change limits.maxOutsCount < outsCount + 1 +
        maximalOutputs limits (amount - limits.maxOutputAllowed) ↔ _
      omega
    · rw [peel, if_neg enoughNext]
      refine ⟨fun aborted => absurd aborted Bool.false_ne_true, fun beyond => ?_⟩
      exfalso
      by_cases nothing : amount - limits.maxOutputAllowed = 0
      · rw [nothing, maximalOutputs_zero] at beyond
        have exactly := room (by omega)
        omega
      · have roomNext := more.resolve_right nothing
        rw [maximalOutputs_one nothing enoughNext] at beyond
        omega
  | case2 amount outsCount handed enough rest full =>
    rw [peel, if_pos enough, maximalOutputs_sub enough]
    dsimp only
    rw [if_neg full]
    have some : amount - limits.maxOutputAllowed ≠ 0 := fun none => full (Or.inr none)
    have one : 1 ≤ maximalOutputs limits (amount - limits.maxOutputAllowed) :=
      maximalOutputs_pos some
    have late : ¬outsCount + 1 < limits.maxOutsCount := fun early => full (Or.inl early)
    refine ⟨fun _ => ?_, fun _ => rfl⟩
    omega
  | case3 amount outsCount handed short => exact absurd enough short

end Rest

/-! ## The decomposition as a whole -/

/-- The rest from the first digit above the largest allowed output on needs more outputs than
the low digits leave of them, although the amount passes the check at the start. -/
def Overruns (limits : OutputLimits) (amount : Nat) : Prop :=
  amount / limits.maxOutputAllowed ≤ limits.maxOutsCount ∧
    ∃ position, limits.maxOutputAllowed < digitChunk amount position ∧
      (∀ earlier < position, digitChunk amount earlier ≤ limits.maxOutputAllowed) ∧
      limits.maxOutsCount < lowOutputs limits.dustThreshold amount position +
        maximalOutputs limits (amount / 10 ^ position * 10 ^ position)

/-- No handler is called, or the chunks and dusts sum up to the amount and every chunk is an
amount an output may have. -/
def HandedExactly (limits : OutputLimits) (amount : Nat) : Prop :=
  decomposeAmountIntoDigits limits amount 0 = [] ∨
    (totalHanded (decomposeAmountIntoDigits limits amount 0) = amount ∧
      ChunksAllowed limits (decomposeAmountIntoDigits limits amount 0))

section Whole

variable {limits : OutputLimits} {amount : Nat}

/-- An amount below the largest allowed output is handed out digit by digit. -/
theorem decompose_below (some : amount ≠ 0) (word : amount < 2 ^ 64)
    (small : amount < limits.maxOutputAllowed) (outsCount : Nat) :
    totalHanded (decomposeAmountIntoDigits limits amount outsCount) = amount ∧
      ChunksAllowed limits (decomposeAmountIntoDigits limits amount outsCount) := by
  obtain ⟨last, reached, stopped⟩ :=
    (Digits.After.start limits amount outsCount).run word
  have empty : (Digits.loop limits ⟨amount, 1, 0, false, outsCount, []⟩).amount = 0 := by
    by_contra left
    have large := stopped left
    have bounded := (digitChunk_le amount last).trans (Nat.div_mul_le_self _ _)
    omega
  rw [decomposeAmountIntoDigits, if_neg some]
  have accepted : ¬¬amount / limits.maxOutputAllowed ≤ limits.maxOutsCount := by
    rw [Nat.div_eq_of_lt small]
    exact not_not_intro (Nat.zero_le _)
  rw [if_neg accepted]
  dsimp only
  rw [if_neg (not_not_intro empty)]
  exact ⟨reached.whole empty, reached.allowed.append (Digits.chunksAllowed_openDust _)⟩

theorem first_large_unique {first second : Nat}
    (large : limits.maxOutputAllowed < digitChunk amount first)
    (small : ∀ earlier < first, digitChunk amount earlier ≤ limits.maxOutputAllowed)
    (largeToo : limits.maxOutputAllowed < digitChunk amount second)
    (smallToo : ∀ earlier < second, digitChunk amount earlier ≤ limits.maxOutputAllowed) :
    first = second := by
  rcases Nat.lt_trichotomy first second with before | same | after
  · exact absurd (smallToo first before) (Nat.not_le_of_lt large)
  · exact same
  · exact absurd (small second after) (Nat.not_le_of_lt largeToo)

/-- The source gives up exactly on the amounts whose largest outputs do not fit in. -/
theorem Digits.After.aborted_iff {position : Nat} {digits : Digits}
    (reached : Digits.After limits amount 0 position digits)
    (accepted : amount / limits.maxOutputAllowed ≤ limits.maxOutsCount)
    (large : limits.maxOutputAllowed < digitChunk amount position) :
    (peel limits (amount / 10 ^ position * 10 ^ position) digits.outsCount
      digits.handed).aborted = true ↔ Overruns limits amount := by
  have larger : limits.maxOutputAllowed < amount / 10 ^ position * 10 ^ position :=
    large.trans_le (digitChunk_le amount position)
  rw [peel_aborted _ _ _ larger.le (fun same => absurd same larger.ne'), reached.counted,
    Nat.zero_add]
  constructor
  · intro many
    exact ⟨accepted, position, large, reached.small, many⟩
  · rintro ⟨-, first, largeFirst, smallFirst, many⟩
    rw [first_large_unique largeFirst smallFirst large reached.small] at many
    exact many

/-- For every amount and every limits: nothing is handed out or exactly the amount, if and only
if the largest outputs fit in. -/
theorem decompose_exact_iff (some : 0 < amount) (word : amount < 2 ^ 64) :
    HandedExactly limits amount ↔ ¬Overruns limits amount := by
  have nonzero : amount ≠ 0 := some.ne'
  obtain ⟨last, reached, stopped⟩ := (Digits.After.start limits amount 0).run word
  unfold HandedExactly
  rw [decomposeAmountIntoDigits, if_neg nonzero]
  by_cases accepted : amount / limits.maxOutputAllowed ≤ limits.maxOutsCount
  · rw [if_neg (not_not_intro accepted)]
    dsimp only
    generalize Digits.loop limits ⟨amount, 1, 0, false, 0, []⟩ = digits at *
    by_cases empty : digits.amount = 0
    · rw [if_neg (not_not_intro empty)]
      refine ⟨?_, fun _ => Or.inr ⟨reached.whole empty,
        reached.allowed.append (Digits.chunksAllowed_openDust _)⟩⟩
      rintro - ⟨-, position, large, small, -⟩
      have nothing := reached.left.symm.trans empty
      rcases Nat.lt_or_ge position last with before | after
      · exact Nat.not_lt_of_le (reached.small position before) large
      · have gone : amount / 10 ^ position = 0 := by
          apply Nat.eq_zero_of_le_zero
          calc
            amount / 10 ^ position ≤ amount / 10 ^ last :=
              Nat.div_le_div_left (Nat.pow_le_pow_right (by decide) after)
                (Nat.pow_pos (by decide))
            _ = 0 := nothing
        rw [digitChunk, gone, Nat.zero_mod, Nat.zero_mul] at large
        exact Nat.not_lt_zero _ large
    · rw [if_pos empty]
      have exactly := (reached.chunk_eq word empty).1
      have nonzeroPower : digits.multiplier ≠ 0 := by
        rw [exactly]
        exact (Nat.pow_pos (by decide)).ne'
      have large := stopped empty
      have rest : digits.amount * digits.multiplier % 2 ^ 64 =
          amount / 10 ^ last * 10 ^ last := by
        rw [reached.left, exactly]
        exact Nat.mod_eq_of_lt ((Nat.div_mul_le_self _ _).trans_lt word)
      have decided := reached.aborted_iff accepted large
      have peeled := peelsTo (amount / 10 ^ last * 10 ^ last) digits.outsCount reached.allowed
      have short := peel_rest limits (amount / 10 ^ last * 10 ^ last) digits.outsCount
        digits.handed
      have whole := Nat.div_add_mod' amount (10 ^ last)
      have total := reached.total
      have bounded : amount / 10 ^ last * 10 ^ last ≤ amount := Nat.div_mul_le_self _ _
      rw [if_neg nonzeroPower, rest]
      generalize peel limits (amount / 10 ^ last * 10 ^ last) digits.outsCount digits.handed =
        result at *
      have sum := peeled.total
      by_cases aborted : result.aborted = true
      · rw [if_pos aborted]
        obtain ⟨left, handed⟩ := peeled.left aborted
        refine ⟨?_, fun fits => absurd (decided.mp aborted) fits⟩
        rintro (nothing | ⟨exact, -⟩)
        · exact absurd nothing handed
        · omega
      · rw [if_neg aborted]
        refine ⟨fun _ overruns => aborted (decided.mpr overruns), fun _ => Or.inr ?_⟩
        have below := short (Bool.eq_false_iff.mpr aborted)
        by_cases left : result.amountMultiplied = 0
        · rw [if_neg (not_not_intro left), totalHanded_append]
          refine ⟨?_, peeled.allowed.append (Digits.chunksAllowed_openDust digits)⟩
          omega
        · obtain ⟨totalNext, allowedNext⟩ := decompose_below left (by omega) below
            result.outsCount
          rw [if_pos left, totalHanded_append, totalHanded_append, totalNext]
          refine ⟨?_, (peeled.allowed.append allowedNext).append
            (Digits.chunksAllowed_openDust digits)⟩
          omega
  · rw [if_pos accepted]
    exact ⟨fun _ overruns => accepted overruns.1, fun _ => Or.inl rfl⟩

end Whole

namespace OneOutput

/-- One output of at most 5 units, and no dust. -/
def limits : OutputLimits := ⟨0, 5, 1, by decide⟩

/-- Of 7 units, 5 are handed out; the two that are left are lost. -/
theorem loses_rest : ¬HandedExactly limits 7 := by
  have handed : decomposeAmountIntoDigits limits 7 0 = [.chunk 5] := by
    decide +kernel
  unfold HandedExactly
  rw [handed]
  rintro (nothing | ⟨total, -⟩)
  · cases nothing
  · exact absurd total (by decide)

/-- With the largest word as the bound, the amount of the comment in the source. -/
theorem unbounded_exact : HandedExactly ⟨455827, 2 ^ 64 - 1, 2000, by decide⟩ 62387455827 := by
  apply (decompose_exact_iff (by decide) (by decide)).mpr
  rintro ⟨-, position, large, -⟩
  have bounded := (digitChunk_le 62387455827 position).trans (Nat.div_mul_le_self _ _)
  exact Nat.not_lt_of_le (bounded.trans (by decide)) large

end OneOutput
end Virie
