import Virie.AmountDigits
import Virie.Construction

/-! # Prepared destinations

Before a wallet constructs a transaction it adds up the money that it has to find, and what it has
found beyond that becomes change. A strategy splits the destinations and the change into outputs;
what is left over as dust goes to an address of its own or to the fee. Whoever provides only a part
of an amount leaves the rest to another party. -/

namespace Virie

def walletMaxAllowedOutputAmount : Nat := 2 ^ 64 - 1

/-- A destination and the part of its amount that the wallet provides, zero for all of it. -/
structure WalletDestination extends TxDestinationEntry where
  amountToProvide : Nat
deriving DecidableEq, Inhabited

structure TxDustPolicy where
  dustThreshold : Nat
  addToFee : Bool
  addrForDust : AccountPublicAddress
deriving DecidableEq

/-- An output for several addresses needs the signatures of all of them. -/
def WalletDestination.forAddresses (amount : Nat) (addr : List AccountPublicAddress) :
    WalletDestination :=
  { amount, addr, minimumSigs := addr.length, amountToProvide := 0 }

def WalletDestination.forAddress (amount : Nat) (addr : AccountPublicAddress) :
    WalletDestination :=
  { amount, addr := [addr], minimumSigs := 0, amountToProvide := 0 }

/-! ## Strategies -/

inductive SplitStrategy where
  | digit
  | null
  | void
deriving DecidableEq, Repr

section Strategies

variable (dsts : List WalletDestination) (changeDst : WalletDestination) (dustThreshold : Nat)

/-- The limits of the decomposition of an amount. -/
def splitLimits (dustThreshold : Nat) : OutputLimits :=
  ⟨dustThreshold, walletMaxAllowedOutputAmount, currencyTxMaxAllowedOuts, by decide⟩

/-- The dust handler of the change keeps the last dust it is given. -/
def lastDust (handed : List Handed) : Nat :=
  handed.foldl (fun kept call =>
    match call with
    | .dust amount => amount
    | .chunk _ => kept) 0

def chunkAmounts (handed : List Handed) : List Nat :=
  handed.filterMap fun
    | .chunk amount => some amount
    | .dust _ => none

/-- Shared outputs are not split. The dust of a destination is an output of its own, the dust of
the change is left to the caller. -/
def digitSplitStrategy : List WalletDestination × Nat :=
  let splitted := dsts.flatMap fun de =>
    if de.addr.length > 1 then [de]
    else (decomposeAmountIntoDigits (splitLimits dustThreshold) de.amount 0).map fun handed =>
      .forAddresses handed.amount de.addr
  if changeDst.amount > 0 then
    if changeDst.addr.length > 1 then (splitted ++ [changeDst], 0)
    else
      let handed := decomposeAmountIntoDigits (splitLimits dustThreshold) changeDst.amount 0
      (splitted ++ (chunkAmounts handed).map fun chunk => .forAddresses chunk changeDst.addr,
        lastDust handed)
  else (splitted, 0)

/-- The loop over the powers of ten, from a number of rounds on: the dust and the rest of the
change, `none` for a division by zero. -/
def nullSplitLoop (amount dustThreshold round : Nat) (dust change : Nat) : Option (Nat × Nat) :=
  let order := 10 ^ round % 2 ^ 64
  if order ≤ 10 * dustThreshold % 2 ^ 64 then
    if order = 0 then none
    else if amount % order ≤ dustThreshold then
      nullSplitLoop amount dustThreshold (round + 1) (amount % order) (amount / order * order)
    else some (dust, change)
  else some (dust, change)
termination_by 64 - round
decreasing_by
  rename_i divides _
  have early : round < 64 := by
    by_contra late
    refine divides (Nat.mod_eq_zero_of_dvd ?_)
    exact (pow_dvd_pow 2 (Nat.le_of_not_lt late)).trans (pow_dvd_pow_of_dvd (by decide) round)
  omega

/-- The destinations stay as they are, and the change loses its low digits as long as they are
dust. -/
def nullSplitStrategy : Option (List WalletDestination × Nat) :=
  let split :=
    if 0 < dustThreshold then nullSplitLoop changeDst.amount dustThreshold 1 0 changeDst.amount
    else some (0, changeDst.amount)
  split.map fun (dust, change) =>
    (if change ≠ 0 then dsts ++ [.forAddresses change changeDst.addr] else dsts, dust)

def voidSplitStrategy : List WalletDestination × Nat :=
  (if changeDst.amount > 0 then dsts ++ [changeDst] else dsts, 0)

/-- The split destinations and the dust, `none` for a division by zero. -/
def SplitStrategy.split : SplitStrategy → Option (List WalletDestination × Nat)
  | .digit => some (digitSplitStrategy dsts changeDst dustThreshold)
  | .null => nullSplitStrategy dsts changeDst dustThreshold
  | .void => some (voidSplitStrategy dsts changeDst)

end Strategies

/-! ## Preparing -/

def WalletDestination.provided (de : WalletDestination) : Nat :=
  if de.amountToProvide ≠ 0 then de.amountToProvide else de.amount

/-- The money to find, `none` for a destination of nothing or a sum above 64 bits. -/
def getNeededMoney (fee : Nat) (dsts : List WalletDestination) : Option Nat :=
  dsts.foldlM (fun neededMoney dt =>
    if dt.amount = 0 then none
    else
      let moneyToAdd := dt.provided
      let neededMoney := addU64 neededMoney moneyToAdd
      if neededMoney < moneyToAdd then none else some neededMoney) fee

/-- The amounts of the inputs up to the first one without an amount. -/
def inputAmounts (tx : Transaction) : List Nat := (tx.vin.map Txin.amount).takeWhile (· ≠ 0)

/-- How a preparation ends. -/
inductive Preparation where
  | divisionByZero
  | thrown
  | prepared (destinations : List WalletDestination) (dustToFee : Nat)
deriving DecidableEq

/-- The change goes to the account, and dust that does not go to the fee to its address. -/
def prepareTxDestinations (account : AccountPublicAddress) (neededMoney foundMoney : Nat)
    (strategy : SplitStrategy) (policy : TxDustPolicy) (dsts : List WalletDestination) :
    Preparation :=
  let changeDts : WalletDestination :=
    if neededMoney < foundMoney then
      { amount := foundMoney - neededMoney, addr := [account], minimumSigs := 0
        amountToProvide := 0 }
    else { amount := 0, addr := [], minimumSigs := 0, amountToProvide := 0 }
  if foundMoney < neededMoney then .thrown
  else
    match strategy.split dsts changeDts policy.dustThreshold with
    | none => .divisionByZero
    | some (finalDestinations, dust) =>
      if policy.dustThreshold < dust then .thrown
      else if dust ≠ 0 ∧ policy.addToFee = false then
        .prepared (finalDestinations ++ [.forAddress dust policy.addrForDust]) 0
      else .prepared finalDestinations dust

/-- What a transaction is prepared from. The amounts are 64-bit words. -/
structure ConstructTxParam where
  fee : Nat
  dsts : List WalletDestination
  strategy : SplitStrategy
  policy : TxDustPolicy
  separate : Bool
  /-- The transaction that is extended in the separate mode. -/
  txForModeSeparate : Transaction
  account : AccountPublicAddress
  foundMoney : Nat
  fee_lt : fee < 2 ^ 64
  dsts_lt : ∀ de ∈ dsts, de.amount < 2 ^ 64 ∧ de.amountToProvide < 2 ^ 64
  threshold_lt : policy.dustThreshold < 2 ^ 64
  found_lt : foundMoney < 2 ^ 64

namespace ConstructTxParam

variable (ctp : ConstructTxParam)

/-- Another party's transaction is extended. -/
def extendsTx : Bool := ctp.separate && !ctp.txForModeSeparate.vout.isEmpty

/-- The difference is taken in 64-bit words. -/
def neededMoney : Option Nat :=
  (getNeededMoney ctp.fee ctp.dsts).bind fun neededMoney =>
    if ctp.extendsTx then
      if ctp.txForModeSeparate.separatelySigned then
        some (addU64 neededMoney ((2 ^ 64 + ctp.txForModeSeparate.getOutsMoneyAmount -
          summaryMoney (inputAmounts ctp.txForModeSeparate)) % 2 ^ 64))
      else none
    else some neededMoney

/-- The destinations for the money that was found. -/
def prepareTransaction : Preparation :=
  match ctp.neededMoney with
  | none => .thrown
  | some neededMoney =>
    prepareTxDestinations ctp.account neededMoney ctp.foundMoney ctp.strategy ctp.policy ctp.dsts

end ConstructTxParam

/-! ## The digits of the change -/

/-- The dust is handed out once at most, and it is never above the threshold. -/
structure Digits.OneDust (limits : OutputLimits) (digits : Digits) : Prop where
  total : totalHanded digits.handed = (chunkAmounts digits.handed).sum + lastDust digits.handed
  unhandled : digits.isDustHandled = false → lastDust digits.handed = 0
  bounded : lastDust digits.handed ≤ limits.dustThreshold
  below : digits.dust ≤ limits.dustThreshold

section OneDust

variable {limits : OutputLimits} {digits : Digits}

theorem lastDust_append (handed : List Handed) (call : Handed) :
    lastDust (handed ++ [call]) =
      match call with
      | .dust amount => amount
      | .chunk _ => lastDust handed := by
  unfold lastDust
  rw [List.foldl_append]
  rfl

theorem chunkAmounts_append (handed more : List Handed) :
    chunkAmounts (handed ++ more) = chunkAmounts handed ++ chunkAmounts more :=
  List.filterMap_append

theorem Digits.OneDust.handDust (held : digits.OneDust limits) :
    digits.handDust.OneDust limits := by
  unfold Digits.handDust
  split
  · next open_ =>
    rw [Bool.and_eq_true, Bool.not_eq_true'] at open_
    refine ⟨?_, fun handled => Bool.noConfusion handled, ?_, held.below⟩
    · dsimp only
      rw [totalHanded_append, held.total, held.unhandled open_.1, lastDust_append,
        chunkAmounts_append, List.sum_append]
      rfl
    · dsimp only
      rw [lastDust_append]
      exact held.below
  · exact held

theorem Digits.OneDust.handChunk (held : digits.OneDust limits) (chunk : Nat) :
    (digits.handChunk chunk).OneDust limits := by
  unfold Digits.handChunk
  split
  · refine ⟨?_, fun unhandled => ?_, ?_, held.below⟩
    · dsimp only
      rw [totalHanded_append, held.total, lastDust_append, chunkAmounts_append, List.sum_append,
        Nat.add_right_comm]
      rfl
    · dsimp only
      rw [lastDust_append]
      exact held.unhandled unhandled
    · dsimp only
      rw [lastDust_append]
      exact held.bounded
  · exact held

theorem Digits.OneDust.step (held : digits.OneDust limits) :
    (digits.step limits).OneDust limits := by
  unfold Digits.step
  dsimp only
  split
  · next joins => exact ⟨held.total, held.unhandled, held.bounded, joins⟩
  · have next : Digits.OneDust limits { digits with
        amount := digits.amount / 10, multiplier := digits.multiplier * 10 % 2 ^ 64 } :=
      ⟨held.total, held.unhandled, held.bounded, held.below⟩
    exact next.handDust.handChunk _

theorem Digits.OneDust.loop (held : digits.OneDust limits) :
    (digits.loop limits).OneDust limits := by
  induction digits using Digits.loop.induct limits with
  | case1 digits empty =>
    rw [Digits.loop, if_pos empty]
    exact held
  | case2 digits left large =>
    rw [Digits.loop, if_neg left, if_pos large]
    exact held
  | case3 digits left small ih =>
    rw [Digits.loop, if_neg left, if_neg small]
    exact ih held.step

/-- With the bound of the wallet an amount is handed out exactly, with one dust at most. -/
theorem decompose_unbounded {amount : Nat} (some : amount ≠ 0) (word : amount < 2 ^ 64)
    (dustThreshold : Nat) :
    let handed := decomposeAmountIntoDigits (splitLimits dustThreshold) amount 0
    totalHanded handed = amount ∧
      totalHanded handed = (chunkAmounts handed).sum + lastDust handed ∧
      lastDust handed ≤ dustThreshold := by
  let limits := splitLimits dustThreshold
  obtain ⟨last, reached, stopped⟩ := (Digits.After.start limits amount 0).run word
  have empty : (Digits.loop limits ⟨amount, 1, 0, false, 0, []⟩).amount = 0 := by
    by_contra left
    have large := stopped left
    have bounded := (digitChunk_le amount last).trans (Nat.div_mul_le_self _ _)
    change 2 ^ 64 - 1 < digitChunk amount last at large
    omega
  have accepted : ¬¬amount / limits.maxOutputAllowed ≤ limits.maxOutsCount := by
    refine not_not_intro (Nat.le_trans (Nat.div_le_of_le_mul ?_) (by decide : 1 ≤ 2000))
    change amount ≤ (2 ^ 64 - 1) * 1
    omega
  have handed : decomposeAmountIntoDigits limits amount 0 =
      (Digits.loop limits ⟨amount, 1, 0, false, 0, []⟩).handDust.handed := by
    rw [decomposeAmountIntoDigits, if_neg some, if_neg accepted]
    dsimp only
    rw [if_neg (not_not_intro empty), Digits.handDust_handed]
  have start : Digits.OneDust limits ⟨amount, 1, 0, false, 0, []⟩ :=
    ⟨rfl, fun _ => rfl, Nat.zero_le _, Nat.zero_le _⟩
  have held := start.loop.handDust
  intro result
  change totalHanded (decomposeAmountIntoDigits limits amount 0) = amount ∧
    totalHanded (decomposeAmountIntoDigits limits amount 0) =
      (chunkAmounts (decomposeAmountIntoDigits limits amount 0)).sum +
        lastDust (decomposeAmountIntoDigits limits amount 0) ∧
    lastDust (decomposeAmountIntoDigits limits amount 0) ≤ limits.dustThreshold
  rw [handed]
  refine ⟨?_, held.total, held.bounded⟩
  rw [Digits.handDust_handed]
  exact reached.whole empty

end OneDust

/-! ## What the strategies keep -/

section Totals

variable {dsts splitted : List WalletDestination} {changeDst : WalletDestination}
  {dustThreshold dust : Nat}

/-- The sum of the amounts. -/
def totalAmount (dsts : List WalletDestination) : Nat := (dsts.map fun de => de.amount).sum

theorem totalAmount_append (dsts more : List WalletDestination) :
    totalAmount (dsts ++ more) = totalAmount dsts + totalAmount more := by
  unfold totalAmount
  rw [List.map_append, List.sum_append]

theorem totalAmount_forAddresses (amounts : List Nat) (addr : List AccountPublicAddress) :
    totalAmount (amounts.map fun amount => .forAddresses amount addr) = amounts.sum := by
  unfold totalAmount
  rw [List.map_map]
  congr 1
  exact List.map_id amounts

/-- The digits of the destinations. -/
theorem totalAmount_digits (dustThreshold : Nat) (positive : ∀ de ∈ dsts, de.amount ≠ 0)
    (words : ∀ de ∈ dsts, de.amount < 2 ^ 64) :
    totalAmount (dsts.flatMap fun de =>
      if de.addr.length > 1 then [de]
      else (decomposeAmountIntoDigits (splitLimits dustThreshold) de.amount 0).map fun handed =>
        .forAddresses handed.amount de.addr) = totalAmount dsts := by
  induction dsts with
  | nil => rfl
  | cons de rest ih =>
    have here : totalAmount (if de.addr.length > 1 then [de]
        else (decomposeAmountIntoDigits (splitLimits dustThreshold) de.amount 0).map fun handed =>
          .forAddresses handed.amount de.addr) = de.amount := by
      split
      · exact Nat.add_zero _
      · have whole := (decompose_unbounded (positive de (.head _)) (words de (.head _))
          dustThreshold).1
        have same := totalAmount_forAddresses ((decomposeAmountIntoDigits
          (splitLimits dustThreshold) de.amount 0).map Handed.amount) de.addr
        rw [List.map_map] at same
        exact same.trans whole
    rw [List.flatMap_cons, totalAmount_append, here,
      ih (fun other member => positive other (.tail _ member))
        fun other member => words other (.tail _ member)]
    rfl

/-- The loop of the null strategy divides the change in two. -/
theorem nullSplitLoop_total {amount round start rest change : Nat}
    (split : nullSplitLoop amount dustThreshold round start rest = some (dust, change))
    (whole : start + rest = amount) (below : start ≤ dustThreshold) :
    dust + change = amount ∧ dust ≤ dustThreshold := by
  induction round, start, rest using nullSplitLoop.induct amount dustThreshold with
  | case1 round start rest order goes zero =>
    rw [nullSplitLoop, if_pos goes, if_pos zero] at split
    cases split
  | case2 round start rest order goes divides small ih =>
    rw [nullSplitLoop, if_pos goes, if_neg divides, if_pos small] at split
    exact ih split (Nat.mod_add_div' _ _) small
  | case3 round start rest order goes divides large =>
    rw [nullSplitLoop, if_pos goes, if_neg divides, if_neg large] at split
    obtain ⟨rfl, rfl⟩ := Prod.mk.inj (Option.some.inj split)
    exact ⟨whole, below⟩
  | case4 round start rest order over_ =>
    rw [nullSplitLoop, if_neg over_] at split
    obtain ⟨rfl, rfl⟩ := Prod.mk.inj (Option.some.inj split)
    exact ⟨whole, below⟩

/-- Every strategy keeps the sum of the destinations and the change; dust is never above the
threshold. -/
theorem SplitStrategy.split_total {strategy : SplitStrategy}
    (positive : ∀ de ∈ dsts, de.amount ≠ 0) (words : ∀ de ∈ dsts, de.amount < 2 ^ 64)
    (changeWord : changeDst.amount < 2 ^ 64)
    (split : strategy.split dsts changeDst dustThreshold = some (splitted, dust)) :
    totalAmount splitted + dust = totalAmount dsts + changeDst.amount ∧ dust ≤ dustThreshold := by
  cases strategy with
  | digit =>
    have digits := totalAmount_digits dustThreshold positive words
    have made : digitSplitStrategy dsts changeDst dustThreshold = (splitted, dust) :=
      Option.some.inj split
    unfold digitSplitStrategy at made
    dsimp only at made
    split at made
    · next change =>
      split at made
      · obtain ⟨rfl, rfl⟩ := Prod.mk.inj made
        refine ⟨?_, Nat.zero_le _⟩
        rw [totalAmount_append, digits]
        rfl
      · obtain ⟨rfl, rfl⟩ := Prod.mk.inj made
        obtain ⟨whole, parts, small⟩ := decompose_unbounded change.ne' changeWord dustThreshold
        refine ⟨?_, small⟩
        rw [totalAmount_append, digits, totalAmount_forAddresses, Nat.add_assoc, ← parts, whole]
    · next none_ =>
      obtain ⟨rfl, rfl⟩ := Prod.mk.inj made
      refine ⟨?_, Nat.zero_le _⟩
      rw [digits, Nat.eq_zero_of_not_pos none_]
  | null =>
    obtain ⟨⟨rest, change⟩, halves, same⟩ := Option.map_eq_some_iff.mp split
    obtain ⟨rfl, rfl⟩ := Prod.mk.inj same
    have whole : rest + change = changeDst.amount ∧ rest ≤ dustThreshold := by
      split at halves
      · exact nullSplitLoop_total halves (Nat.zero_add _) (Nat.zero_le _)
      · obtain ⟨rfl, rfl⟩ := Prod.mk.inj (Option.some.inj halves)
        exact ⟨Nat.zero_add _, Nat.zero_le _⟩
    refine ⟨?_, whole.2⟩
    rw [← whole.1]
    split
    · rw [totalAmount_append, Nat.add_assoc, Nat.add_comm rest]
      rfl
    · next nothing =>
      rw [not_not.mp nothing, Nat.add_zero]
  | void =>
    have made : voidSplitStrategy dsts changeDst = (splitted, dust) := Option.some.inj split
    obtain ⟨rfl, rfl⟩ := Prod.mk.inj made
    refine ⟨?_, Nat.zero_le _⟩
    split
    · rw [totalAmount_append]
      rfl
    · next none_ => rw [Nat.eq_zero_of_not_pos none_]

end Totals

/-! ## The arithmetic of the null strategy -/

section Rounds

variable {amount dustThreshold : Nat}

/-- The rounds before a number of rounds all go on to the next power of ten. -/
def RoundsGoOn (amount dustThreshold rounds : Nat) : Prop :=
  ∀ round, 1 ≤ round → round < rounds →
    10 ^ round % 2 ^ 64 ≤ 10 * dustThreshold % 2 ^ 64 ∧
      amount % (10 ^ round % 2 ^ 64) ≤ dustThreshold

/-- No product of the loop leaves 64 bits: neither ten thresholds nor an order that is computed
after a round that goes on. Without a threshold there is no loop. -/
def NullSplitFits (amount dustThreshold : Nat) : Prop :=
  dustThreshold = 0 ∨ (10 * dustThreshold < 2 ^ 64 ∧
    ∀ round, 1 ≤ round → RoundsGoOn amount dustThreshold (round + 1) →
      10 ^ round % 2 ^ 64 * 10 < 2 ^ 64)

/-- The products fit in when the loop ends before the order 10^20. -/
theorem nullSplitFits_iff :
    NullSplitFits amount dustThreshold ↔ dustThreshold < 10 ^ 18 ∨
      (10 * dustThreshold < 2 ^ 64 ∧ dustThreshold < amount % 10 ^ 19) := by
  constructor
  · rintro (none_ | ⟨bound, fits⟩)
    · exact .inl (none_ ▸ by decide)
    · by_cases small : dustThreshold < 10 ^ 18
      · exact .inl small
      · refine .inr ⟨bound, Nat.lt_of_not_le fun goes => ?_⟩
        have overflows := fits 19 (by decide) fun round _ early => by
          have power : 10 ^ round ≤ 10 ^ 19 := Nat.pow_le_pow_right (by decide) (by omega)
          have word : 10 ^ round % 2 ^ 64 = 10 ^ round := Nat.mod_eq_of_lt (by omega)
          rw [word, Nat.mod_eq_of_lt bound]
          refine ⟨by omega, ?_⟩
          rcases Nat.lt_or_ge round 19 with before | last
          · have less : amount % 10 ^ round < 10 ^ round :=
              Nat.mod_lt _ (Nat.pow_pos (by decide))
            have lower : 10 ^ round ≤ 10 ^ 18 := Nat.pow_le_pow_right (by decide) (by omega)
            omega
          · obtain rfl : round = 19 := by omega
            exact goes
        exact absurd overflows (by decide)
  · intro ends
    by_cases none_ : dustThreshold = 0
    · exact .inl none_
    · have bound : 10 * dustThreshold < 2 ^ 64 := by
        rcases ends with small | ⟨bound, _⟩
        · omega
        · exact bound
      refine .inr ⟨bound, fun round _ goesOn => ?_⟩
      by_cases early : round ≤ 18
      · have power : 10 ^ round ≤ 10 ^ 18 := Nat.pow_le_pow_right (by decide) early
        exact (Nat.mul_le_mul_right 10 ((Nat.mod_le _ _).trans power)).trans_lt (by decide)
      · exfalso
        obtain ⟨below, small⟩ := goesOn 19 (by decide) (by omega)
        have word : 10 ^ 19 % 2 ^ 64 = 10 ^ 19 := by decide
        rw [word] at below small
        rw [Nat.mod_eq_of_lt bound] at below
        rcases ends with less | ⟨_, large⟩
        · omega
        · exact absurd small (Nat.not_le_of_lt large)

/-- Where the products fit in, the loop does not divide by zero. -/
theorem nullSplitLoop_isSome (some : dustThreshold ≠ 0) (fits : NullSplitFits amount dustThreshold)
    {round start rest : Nat} (counted : 1 ≤ round)
    (goesOn : RoundsGoOn amount dustThreshold round) :
    (nullSplitLoop amount dustThreshold round start rest).isSome = true := by
  obtain none_ | ⟨_, products⟩ := fits
  · exact absurd none_ some
  · induction round, start, rest using nullSplitLoop.induct amount dustThreshold with
    | case1 round start rest order goes zero =>
      exfalso
      have early : round ≤ 19 := by
        by_contra late
        have overflows := products 19 (by decide) fun earlier counted before =>
          goesOn earlier counted (by omega)
        exact absurd overflows (by decide)
      have power : 10 ^ round ≤ 10 ^ 19 := Nat.pow_le_pow_right (by decide) early
      have word : 10 ^ round % 2 ^ 64 = 10 ^ round := Nat.mod_eq_of_lt (by omega)
      have positive : 0 < 10 ^ round := Nat.pow_pos (by decide)
      change 10 ^ round % 2 ^ 64 = 0 at zero
      omega
    | case2 round start rest order goes divides small ih =>
      rw [nullSplitLoop, if_pos goes, if_neg divides, if_pos small]
      refine ih (by omega) fun earlier counted before => ?_
      rcases Nat.lt_or_ge earlier round with inside | last
      · exact goesOn earlier counted inside
      · obtain rfl : earlier = round := by omega
        exact ⟨goes, small⟩
    | case3 round start rest order goes divides large =>
      rw [nullSplitLoop, if_pos goes, if_neg divides, if_neg large]
      rfl
    | case4 round start rest order above =>
      rw [nullSplitLoop, if_neg above]
      rfl

end Rounds

/-! ## Needed money -/

section Needed

variable {dsts : List WalletDestination}

theorem WalletDestination.provided_lt {de : WalletDestination} (word : de.amount < 2 ^ 64)
    (providedWord : de.amountToProvide < 2 ^ 64) : de.provided < 2 ^ 64 := by
  unfold WalletDestination.provided
  split
  · exact providedWord
  · exact word

/-- The sum of what the wallet provides. -/
def totalProvided (dsts : List WalletDestination) : Nat :=
  (dsts.map WalletDestination.provided).sum

/-- The check of each addition finds every overflow. -/
theorem getNeededMoney_eq_some_iff {fee neededMoney : Nat} (word : fee < 2 ^ 64)
    (words : ∀ de ∈ dsts, de.amount < 2 ^ 64 ∧ de.amountToProvide < 2 ^ 64) :
    getNeededMoney fee dsts = some neededMoney ↔ (∀ de ∈ dsts, de.amount ≠ 0) ∧
      fee + totalProvided dsts < 2 ^ 64 ∧ neededMoney = fee + totalProvided dsts := by
  unfold getNeededMoney
  induction dsts generalizing fee with
  | nil =>
    rw [List.foldlM_nil]
    constructor
    · intro same
      obtain rfl := Option.some.inj same
      exact ⟨fun _ member => (by cases member), word, rfl⟩
    · rintro ⟨_, _, rfl⟩
      rfl
  | cons de rest ih =>
    have provided := WalletDestination.provided_lt (words de (.head _)).1 (words de (.head _)).2
    have sum : totalProvided (de :: rest) = de.provided + totalProvided rest := rfl
    rw [List.foldlM_cons, sum, List.forall_mem_cons]
    by_cases zero : de.amount = 0
    · rw [if_pos zero]
      exact iff_of_false (fun same => by cases same) fun all => all.1.1 zero
    · rw [if_neg zero]
      by_cases fits : fee + de.provided < 2 ^ 64
      · have exact_ : addU64 fee de.provided = fee + de.provided := Nat.mod_eq_of_lt fits
        dsimp only
        rw [exact_, if_neg (Nat.not_lt.mpr (Nat.le_add_left _ _)), Option.bind_eq_bind,
          Option.bind_some, ih fits fun other member => words other (.tail _ member),
          Nat.add_assoc]
        exact and_congr_left fun _ => ⟨fun all => ⟨zero, all⟩, fun all => all.2⟩
      · have wraps : addU64 fee de.provided < de.provided := by
          unfold addU64
          omega
        dsimp only
        rw [if_pos wraps]
        refine iff_of_false (fun same => by cases same) fun all => ?_
        omega

end Needed

namespace ConstructTxParam

variable (ctp : ConstructTxParam)

/-- The money of the other party's transaction: its outputs and its inputs. -/
def txOuts : Nat := if ctp.extendsTx then ctp.txForModeSeparate.outputTotal else 0

def txIns : Nat := if ctp.extendsTx then (inputAmounts ctp.txForModeSeparate).sum else 0

/-- The needed money without any bound. -/
def exactNeeded : Int := ctp.fee + totalProvided ctp.dsts + ctp.txOuts - ctp.txIns

/-- Enough money was found, and no check refuses the destinations or the transaction. -/
structure Reaches : Prop where
  positive : ∀ de ∈ ctp.dsts, de.amount ≠ 0
  sum : ctp.fee + totalProvided ctp.dsts < 2 ^ 64
  separate : ctp.extendsTx = true → ctp.txForModeSeparate.separatelySigned = true
  found : ctp.exactNeeded % 2 ^ 64 ≤ ctp.foundMoney

/-- The needed money is a 64-bit word, and the loop of the null strategy ends in time. -/
structure Fits : Prop where
  nonnegative : 0 ≤ ctp.exactNeeded
  word : ctp.exactNeeded < 2 ^ 64
  rounds : ctp.strategy = .null → ctp.policy.dustThreshold < 10 ^ 18 ∨
    (10 * ctp.policy.dustThreshold < 2 ^ 64 ∧
      ctp.policy.dustThreshold < (ctp.foundMoney - ctp.exactNeeded) % 10 ^ 19)

/-- What the wallet leaves to another party. -/
def otherProvides : Int := (totalAmount ctp.dsts : Int) - totalProvided ctp.dsts

/-- A preparation divides by nothing and lets no product of the null strategy wrap around, and
when it succeeds, the prepared amounts, the fee, the dust for the fee and the outputs of the
other party's transaction are together the found money, the inputs of that transaction and what
is left to the other party. -/
structure PreparesExactly : Prop where
  divides : ctp.prepareTransaction ≠ .divisionByZero
  products : ∀ neededMoney, ctp.neededMoney = some neededMoney → neededMoney ≤ ctp.foundMoney →
    ctp.strategy = .null →
      NullSplitFits (ctp.foundMoney - neededMoney) ctp.policy.dustThreshold
  conserves : ∀ destinations dustToFee,
    ctp.prepareTransaction = .prepared destinations dustToFee →
      ((totalAmount destinations + ctp.fee + dustToFee + ctp.txOuts : Nat) : Int) =
        ctp.foundMoney + ctp.txIns + ctp.otherProvides

/-- The needed money is the exact one as a 64-bit word. -/
theorem neededMoney_eq_some_iff {neededMoney : Nat} :
    ctp.neededMoney = some neededMoney ↔ (∀ de ∈ ctp.dsts, de.amount ≠ 0) ∧
      ctp.fee + totalProvided ctp.dsts < 2 ^ 64 ∧
      (ctp.extendsTx = true → ctp.txForModeSeparate.separatelySigned = true) ∧
      (neededMoney : Int) = ctp.exactNeeded % 2 ^ 64 := by
  unfold ConstructTxParam.neededMoney exactNeeded txOuts txIns
  rw [Option.bind_eq_some_iff]
  simp only [getNeededMoney_eq_some_iff ctp.fee_lt ctp.dsts_lt]
  cases extending : ctp.extendsTx with
  | false =>
    simp only [Bool.false_eq_true, ↓reduceIte, false_implies, true_and, Option.some.injEq]
    constructor
    · rintro ⟨_, ⟨positive, sum, rfl⟩, rfl⟩
      exact ⟨positive, sum, by omega⟩
    · rintro ⟨positive, sum, same⟩
      exact ⟨_, ⟨positive, sum, rfl⟩, by omega⟩
  | true =>
    have ins : summaryMoney (inputAmounts ctp.txForModeSeparate) =
        (inputAmounts ctp.txForModeSeparate).sum % 2 ^ 64 := sumU64 _
    simp only [↓reduceIte, true_implies, Option.ite_none_right_eq_some, Option.some.injEq,
      getOutsMoneyAmount_eq, ins, addU64]
    constructor
    · rintro ⟨_, ⟨positive, sum, rfl⟩, separate, rfl⟩
      exact ⟨positive, sum, separate, by omega⟩
    · rintro ⟨positive, sum, separate, same⟩
      exact ⟨_, ⟨positive, sum, rfl⟩, separate, by omega⟩

end ConstructTxParam

/-! ## The equation -/

/-- With enough money, the prepared destinations and the dust for the fee are together the given
destinations and the change, unless the null strategy divides by zero. -/
theorem prepareTxDestinations_cases {account : AccountPublicAddress}
    {neededMoney foundMoney : Nat} {strategy : SplitStrategy} {policy : TxDustPolicy}
    {dsts : List WalletDestination} (enough : neededMoney ≤ foundMoney)
    (foundWord : foundMoney < 2 ^ 64) (positive : ∀ de ∈ dsts, de.amount ≠ 0)
    (words : ∀ de ∈ dsts, de.amount < 2 ^ 64) :
    (∃ destinations dustToFee,
      prepareTxDestinations account neededMoney foundMoney strategy policy dsts =
        .prepared destinations dustToFee ∧
      totalAmount destinations + dustToFee = totalAmount dsts + (foundMoney - neededMoney)) ∨
    (prepareTxDestinations account neededMoney foundMoney strategy policy dsts =
        .divisionByZero ∧ strategy = .null ∧ policy.dustThreshold ≠ 0 ∧
      nullSplitLoop (foundMoney - neededMoney) policy.dustThreshold 1 0
        (foundMoney - neededMoney) = none) := by
  unfold prepareTxDestinations
  dsimp only
  rw [if_neg (Nat.not_lt.mpr enough)]
  generalize changes : (if neededMoney < foundMoney then
    ({ amount := foundMoney - neededMoney, addr := [account], minimumSigs := 0
       amountToProvide := 0 } : WalletDestination)
    else { amount := 0, addr := [], minimumSigs := 0, amountToProvide := 0 }) = changeDts
  have change : changeDts.amount = foundMoney - neededMoney := by
    rw [← changes]
    split
    · rfl
    · next least => exact (Nat.sub_eq_zero_of_le (Nat.not_lt.mp least)).symm
  cases split : strategy.split dsts changeDts policy.dustThreshold with
  | none =>
    right
    cases strategy with
    | digit => cases split
    | void => cases split
    | null =>
      have stuck := Option.map_eq_none_iff.mp split
      rw [change] at stuck
      split at stuck
      · next some => exact ⟨rfl, rfl, some.ne', stuck⟩
      · cases stuck
  | some result =>
    obtain ⟨splitted, dust⟩ := result
    left
    obtain ⟨whole, small⟩ := SplitStrategy.split_total positive words
      (change ▸ (Nat.sub_le _ _).trans_lt foundWord) split
    rw [change] at whole
    dsimp only
    rw [if_neg (Nat.not_lt.mpr small)]
    split
    · refine ⟨_, _, rfl, ?_⟩
      rw [totalAmount_append, Nat.add_zero]
      exact whole
    · exact ⟨_, _, rfl, whole⟩

/-- A preparation that reaches the splitting keeps the money exactly when the needed money is a
64-bit word and the loop of the null strategy ends in time. -/
theorem preparesExactly_iff (ctp : ConstructTxParam) :
    ctp.PreparesExactly ↔ (ctp.Reaches → ctp.Fits) := by
  constructor
  · intro exactly reaches
    obtain ⟨neededMoney, word⟩ := Int.eq_ofNat_of_zero_le
      (Int.emod_nonneg ctp.exactNeeded (by decide : (2 ^ 64 : Int) ≠ 0))
    have needs : ctp.neededMoney = some neededMoney :=
      ctp.neededMoney_eq_some_iff.mpr
        ⟨reaches.positive, reaches.sum, reaches.separate, word.symm⟩
    have enough : neededMoney ≤ ctp.foundMoney := by
      have found := reaches.found
      omega
    have prepares : ctp.prepareTransaction = prepareTxDestinations ctp.account neededMoney
        ctp.foundMoney ctp.strategy ctp.policy ctp.dsts := by
      rw [ConstructTxParam.prepareTransaction, needs]
    have products := exactly.products neededMoney needs enough
    rcases prepareTxDestinations_cases enough ctp.found_lt reaches.positive
      (fun de member => (ctp.dsts_lt de member).1) with
      ⟨destinations, dustToFee, prepared, whole⟩ | ⟨stuck, _⟩
    · have equation := exactly.conserves destinations dustToFee (prepares.trans prepared)
      have same : ctp.exactNeeded = neededMoney := by
        unfold ConstructTxParam.otherProvides at equation
        unfold ConstructTxParam.exactNeeded
        omega
      refine ⟨by omega, by omega, fun null => ?_⟩
      have ends := nullSplitFits_iff.mp (products null)
      rw [same]
      omega
    · exact absurd (prepares.trans stuck) exactly.divides
  · intro fits
    have reached : ∀ neededMoney, ctp.neededMoney = some neededMoney →
        neededMoney ≤ ctp.foundMoney →
        (∀ de ∈ ctp.dsts, de.amount ≠ 0) ∧ (neededMoney : Int) = ctp.exactNeeded ∧
          (ctp.strategy = .null →
            NullSplitFits (ctp.foundMoney - neededMoney) ctp.policy.dustThreshold) := by
      intro neededMoney needs enough
      obtain ⟨positive, sum, separate, word⟩ := ctp.neededMoney_eq_some_iff.mp needs
      obtain ⟨nonnegative, bounded, rounds⟩ := fits ⟨positive, sum, separate, by omega⟩
      have same : (neededMoney : Int) = ctp.exactNeeded := by omega
      refine ⟨positive, same, fun null => nullSplitFits_iff.mpr ?_⟩
      have ends := rounds null
      rw [← same] at ends
      omega
    have ran : ctp.prepareTransaction = .thrown ∨ ∃ destinations dustToFee,
        ctp.prepareTransaction = .prepared destinations dustToFee ∧
        ((totalAmount destinations + ctp.fee + dustToFee + ctp.txOuts : Nat) : Int) =
          ctp.foundMoney + ctp.txIns + ctp.otherProvides := by
      unfold ConstructTxParam.prepareTransaction
      cases needs : ctp.neededMoney with
      | none => exact .inl rfl
      | some neededMoney =>
        dsimp only
        by_cases enough : neededMoney ≤ ctp.foundMoney
        · obtain ⟨positive, same, products⟩ := reached neededMoney needs enough
          rcases prepareTxDestinations_cases enough ctp.found_lt positive
            (fun de member => (ctp.dsts_lt de member).1) with
            ⟨destinations, dustToFee, prepared, whole⟩ | ⟨_, null, some_, stuck⟩
          · refine .inr ⟨destinations, dustToFee, prepared, ?_⟩
            unfold ConstructTxParam.otherProvides
            unfold ConstructTxParam.exactNeeded at same
            omega
          · have goes : (nullSplitLoop (ctp.foundMoney - neededMoney) ctp.policy.dustThreshold 1 0
                (ctp.foundMoney - neededMoney)).isSome = true :=
              nullSplitLoop_isSome some_ (products null) (Nat.le_refl 1)
                fun round counted early => absurd early (Nat.not_lt.mpr counted)
            rw [stuck] at goes
            cases goes
        · left
          unfold prepareTxDestinations
          dsimp only
          rw [if_pos (Nat.lt_of_not_le enough)]
    refine ⟨fun stuck => ?_, fun neededMoney needs enough => (reached neededMoney needs enough).2.2,
      fun destinations dustToFee prepared => ?_⟩
    · rcases ran with thrown | ⟨_, _, prepared, _⟩
      · cases stuck.symm.trans thrown
      · cases stuck.symm.trans prepared
    · rcases ran with thrown | ⟨_, _, other, equation⟩
      · cases prepared.symm.trans thrown
      · obtain ⟨rfl, rfl⟩ := Preparation.prepared.inj (prepared.symm.trans other)
        exact equation

/-! ## A threshold and a sum that are too large -/

namespace TooLarge

def payer : AccountPublicAddress := ⟨⟨1⟩, ⟨2⟩⟩

/-- One coin for a payee, with the largest threshold. -/
def allDust : ConstructTxParam where
  fee := 0
  dsts := [.forAddress 1 ⟨⟨3⟩, ⟨4⟩⟩]
  strategy := .null
  policy := ⟨2 ^ 64 - 1, true, payer⟩
  separate := false
  txForModeSeparate :=
    { version := 1, vin := [], vout := [], extra := [], signatures := [], attachment := [] }
  account := payer
  foundMoney := 10
  fee_lt := by decide
  dsts_lt := by decide
  threshold_lt := by decide
  found_lt := by decide

/-- One coin for a payee and one for the fee, in a transaction that already pays the largest
amount. -/
def wrapped : ConstructTxParam :=
  { allDust with
    fee := 1
    strategy := .void
    separate := true
    txForModeSeparate :=
      { version := 1, vin := [], vout := [⟨2 ^ 64 - 1, .toKey ⟨⟨5⟩, 0⟩⟩]
        extra := [.etcTxDetailsFlags txFlagSignatureModeSeparate], signatures := []
        attachment := [] }
    foundMoney := 1
    fee_lt := by decide
    found_lt := by decide }

/-- The null strategy divides by the order 10^64, which is zero in 64 bits. In the separate mode
the needed money wraps around: one coin is found and two are paid. -/
theorem not_preparesExactly :
    (allDust.prepareTransaction = .divisionByZero ∧ ¬ allDust.PreparesExactly) ∧
      wrapped.prepareTransaction = .prepared [.forAddress 1 ⟨⟨3⟩, ⟨4⟩⟩] 0 ∧
      ¬ wrapped.PreparesExactly := by
  have stuck : allDust.prepareTransaction = .divisionByZero := by decide +kernel
  have prepared : wrapped.prepareTransaction = .prepared [.forAddress 1 ⟨⟨3⟩, ⟨4⟩⟩] 0 := by
    decide +kernel
  exact ⟨⟨stuck, fun exactly => exactly.divides stuck⟩, prepared,
    fun exactly => absurd (exactly.conserves _ _ prepared) (by decide)⟩

end TooLarge

end Virie
