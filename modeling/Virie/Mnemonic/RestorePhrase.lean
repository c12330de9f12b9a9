import Virie.Mnemonic.Encoding
import Virie.Construction

/-! # The phrase of an account

An account with a seed is written down as the words of its seed and one more word for the week
of its creation, and read back by counting words. The reader expects the words of a seed of the
default size and a word for the week. Seeds of the short size have fewer words, and after as many
weeks as there are words the phrase ends without a word for them. -/

open Foundation

namespace Virie

open Mnemonic

def brainwalletDefaultSeedSize : Nat := 32

def brainwalletShortSeedSize : Nat := 16

def walletBrainDateOffset : Nat := 1543622400

def walletBrainDateQuantum : Nat := 604800

def phraseWordsCount : Nat := 24

def phraseWordsCountWithTs : Nat := phraseWordsCount + 1

def spendKeyWordsCount : Nat := 1

def spendKeyWordsCountWithTs : Nat := spendKeyWordsCount + 1

/-- The derivation of keys and the texts of keys and dates. -/
structure SeedKeys where
  keysFromDefault : List UInt8 → PublicKey × SecretKey
  keysFromShort : List UInt8 → PublicKey × SecretKey
  dependentKey : SecretKey → SecretKey
  secretKeyToPublicKey : SecretKey → Option PublicKey
  podToHex : SecretKey → List UInt8
  hexToPod : List UInt8 → Option SecretKey
  restoreStrFromTime : Nat → List UInt8
  restoreTimeFromStr : List UInt8 → Option Nat

structure AccountBase where
  spendPublicKey : PublicKey
  viewPublicKey : PublicKey
  spendSecretKey : SecretKey
  viewSecretKey : SecretKey
  creationTimestamp : Nat
  seed : List UInt8
  deriving DecidableEq, Inhabited

section Account

variable (K : SeedKeys)

/-! ## Writing the phrase -/

/-- The whole weeks from the offset to the creation of an account. -/
def AccountBase.weeksCount (account : AccountBase) : Nat :=
  (if walletBrainDateOffset < account.creationTimestamp then
    account.creationTimestamp - walletBrainDateOffset else 0) / walletBrainDateQuantum

/-- The phrase of an account; there is an exception where the seed or the weeks have no words. -/
def getRestoreBraindata (account : AccountBase) : Option (List UInt8) :=
  if !account.seed.isEmpty then
    (binary2text account.seed).bind fun restoreString =>
      if account.weeksCount < 2 ^ 32 - 1 then
        some (restoreString ++ wordByNum account.weeksCount)
      else none
  else if account.spendSecretKey = nullSkey then some []
  else some (K.podToHex account.spendSecretKey ++ space ::
    K.restoreStrFromTime account.creationTimestamp)

/-! ## Reading it -/

/-- Derive the view key and its public key; the answer is whether there is one. -/
def deriveViewKey (account : AccountBase) : Bool × AccountBase :=
  let viewSecretKey := K.dependentKey account.spendSecretKey
  match K.secretKeyToPublicKey viewSecretKey with
  | some viewPublicKey =>
    (true, { account with viewSecretKey := viewSecretKey, viewPublicKey := viewPublicKey })
  | none => (false, { account with viewSecretKey := viewSecretKey })

def restoreKeys (account : AccountBase) (restoreData : List UInt8) : Bool × AccountBase :=
  if restoreData.length = brainwalletDefaultSeedSize then
    deriveViewKey K { account with
      spendPublicKey := (K.keysFromDefault restoreData).1,
      spendSecretKey := (K.keysFromDefault restoreData).2, seed := restoreData }
  else if restoreData.length = brainwalletShortSeedSize then
    deriveViewKey K { account with
      spendPublicKey := (K.keysFromShort restoreData).1,
      spendSecretKey := (K.keysFromShort restoreData).2, seed := restoreData }
  else (false, account)

/-- A new account from random bytes; there is an exception where there is no view key. -/
def generate (randomBytes : List UInt8) (now : Nat) : Option AccountBase :=
  let derived := deriveViewKey K {
    spendPublicKey := (K.keysFromDefault randomBytes).1
    spendSecretKey := (K.keysFromDefault randomBytes).2
    viewPublicKey := nullPkey
    viewSecretKey := nullSkey
    creationTimestamp := 0
    seed := randomBytes }
  if derived.1 then some { derived.2 with creationTimestamp := now } else none

def restoreKeysFromSpendKey (account : AccountBase) (restoreData : List UInt8) :
    Bool × AccountBase :=
  let account := { account with seed := [] }
  match K.hexToPod (restoreData.takeWhile (· != space)) with
  | none => (false, account)
  | some spendSecretKey =>
    let account := { account with spendSecretKey := spendSecretKey }
    match K.secretKeyToPublicKey spendSecretKey with
    | none => (false, account)
    | some spendPublicKey => deriveViewKey K { account with spendPublicKey := spendPublicKey }

/-- The words between white space. -/
def streamWords (text : List UInt8) : List (List UInt8) :=
  (text.splitOnP Mnemonic.isSpace).filter fun w => !w.isEmpty

/-- The text after its last space. -/
def lastWord (text : List UInt8) : List UInt8 := text.rtakeWhile (· != space)

/-- The first space from a position on. -/
def findFirstOf (text : List UInt8) (start : Nat) : Option Nat :=
  ((text.drop start).findIdx? (· == space)).map (start + ·)

/-- Copy the words of a seed, each followed by a space. There is no end of the current word
where the text has no space at all; the position after it is then the front of the text. -/
def copyWords (restoreData : List UInt8) :
    Nat → Nat → Option Nat → Nat → List UInt8 → List UInt8
  | 0, _, _, _, restoreString => restoreString
  | fuel + 1, start, last, copiedWordsCount, restoreString =>
    if start ≠ restoreData.length + 1 ∧ copiedWordsCount < phraseWordsCount then
      let next := (last.map (· + 1)).getD 0
      let nextLast := some ((findFirstOf restoreData next).getD restoreData.length)
      if start < last.getD (restoreData.length + 1) then
        copyWords restoreData fuel next nextLast (copiedWordsCount + 1)
          (restoreString ++
            (restoreData.drop start).take (last.getD restoreData.length - start) ++ [space])
      else copyWords restoreData fuel next nextLast copiedWordsCount restoreString
    else restoreString

/-- The creation time that a phrase tells at some time; zero if it tells none. -/
def restoredCreatetime (now : Nat) (restoreData : List UInt8) : Option Nat :=
  if (streamWords restoreData).length = spendKeyWordsCountWithTs then
    some ((K.restoreTimeFromStr (lastWord restoreData)).getD 0)
  else if (streamWords restoreData).length = phraseWordsCountWithTs then
    (numByWord (lastWord restoreData)).map fun countOfWeeks =>
      let timestamp := countOfWeeks * walletBrainDateQuantum + walletBrainDateOffset
      if timestamp < now ∧ walletBrainDateOffset < timestamp then timestamp else 0
  else some 0

/-- Restore an account from a phrase at some time. There is no result where the search for a word
reads outside its table. -/
def restoreKeysFromBraindata (now : Nat) (account : AccountBase) (restoreData : List UInt8) :
    Option (Bool × AccountBase) :=
  (restoredCreatetime K now restoreData).bind fun creationTimestamp =>
    let account := { account with creationTimestamp := creationTimestamp }
    if (streamWords restoreData).length = spendKeyWordsCount ∨
        (streamWords restoreData).length = spendKeyWordsCountWithTs then
      some (restoreKeysFromSpendKey K account restoreData)
    else
      (text2binary (copyWords restoreData (restoreData.length + 3) 0 (findFirstOf restoreData 0) 0
        [])).map fun restoreBuff =>
          if restoreBuff.isEmpty then (false, account) else restoreKeys K account restoreBuff

/-! ## Accounts with a seed -/

/-- What generating and restoring an account from a seed make of it. -/
structure SeedAccount (account : AccountBase) : Prop where
  size : account.seed.length = brainwalletDefaultSeedSize ∨
    account.seed.length = brainwalletShortSeedSize
  spendKey : (account.spendPublicKey, account.spendSecretKey) =
    if account.seed.length = brainwalletDefaultSeedSize then K.keysFromDefault account.seed
    else K.keysFromShort account.seed
  viewKey : account.viewSecretKey = K.dependentKey account.spendSecretKey
  viewPublic : K.secretKeyToPublicKey account.viewSecretKey = some account.viewPublicKey

/-- The phrase of an account restores its spend key and a creation time no later and less than a
week earlier. -/
def RestoresFaithfully (now : Nat) (before account : AccountBase) : Prop :=
  ∃ phrase restored, getRestoreBraindata K account = some phrase ∧
    restoreKeysFromBraindata K now before phrase = some (true, restored) ∧
    restored.spendSecretKey = account.spendSecretKey ∧
    restored.creationTimestamp ≤ account.creationTimestamp ∧
    account.creationTimestamp < restored.creationTimestamp + walletBrainDateQuantum

end Account

section Copying

/-! ## Copying words -/

variable {front w rest : List UInt8}

theorem findFirstOf_append (free : space ∉ w) :
    findFirstOf (front ++ (w ++ space :: rest)) front.length =
      some (front.length + w.length) := by
  have found : (w ++ space :: rest).findIdx? (· == space) = some w.length := by
    induction w with
    | nil => rfl
    | cons c w ih =>
      have apart : (c == space) = false :=
        beq_false_of_ne fun same => free (same ▸ List.mem_cons_self)
      rw [List.cons_append, List.findIdx?_cons, apart,
        ih fun listed => free (List.mem_cons_of_mem c listed)]
      rfl
  unfold findFirstOf
  rw [List.drop_left, found]
  rfl

/-- One word is copied. -/
theorem copyWords_word (nonempty : w ≠ []) {copied : Nat} (room : copied < phraseWordsCount)
    (fuel : Nat) (restoreString : List UInt8) :
    copyWords (front ++ (w ++ space :: rest)) (fuel + 1) front.length
        (some (front.length + w.length)) copied restoreString =
      copyWords (front ++ (w ++ space :: rest)) fuel (front.length + w.length + 1)
        (some ((findFirstOf (front ++ (w ++ space :: rest))
          (front.length + w.length + 1)).getD (front ++ (w ++ space :: rest)).length))
        (copied + 1) (restoreString ++ w ++ [space]) := by
  have positive := List.length_pos_of_ne_nil nonempty
  have inside : front.length ≠ (front ++ (w ++ space :: rest)).length + 1 := by
    rw [List.length_append]
    omega
  have forward : front.length < front.length + w.length := by
    omega
  rw [copyWords, if_pos ⟨inside, room⟩]
  dsimp only [Option.map_some, Option.getD_some]
  rw [if_pos forward, List.drop_left, Nat.add_sub_cancel_left, List.take_left]

/-- As many words as a seed has are copied. -/
theorem copyWords_words {words : List (List UInt8)} (tail : List UInt8)
    (some : ∀ w ∈ words, w ≠ []) (free : ∀ w ∈ words, space ∉ w) {copied fuel : Nat}
    (all : copied + words.length = phraseWordsCount) (enough : words.length ≤ fuel)
    (restoreString : List UInt8) (last : Option Nat)
    (ends : words ≠ [] →
      last = findFirstOf (front ++ (terminated space words ++ tail)) front.length) :
    copyWords (front ++ (terminated space words ++ tail)) fuel front.length last copied
      restoreString = restoreString ++ terminated space words := by
  induction words generalizing front copied fuel restoreString last with
  | nil =>
    have full : ¬copied < phraseWordsCount := by
      rw [← all]
      exact Nat.lt_irrefl _
    cases fuel with
    | zero => exact (List.append_nil restoreString).symm
    | succ fuel =>
      rw [copyWords, if_neg fun both => full both.2]
      exact (List.append_nil restoreString).symm
  | cons w words ih =>
    have shape : front ++ (terminated space (w :: words) ++ tail) =
        front ++ (w ++ space :: (terminated space words ++ tail)) := by
      rw [terminated_cons, List.append_assoc, List.cons_append]
    have shift : front ++ (w ++ space :: (terminated space words ++ tail)) =
        front ++ w ++ [space] ++ (terminated space words ++ tail) := by
      rw [List.append_assoc, List.append_assoc]
      rfl
    have size : (front ++ w ++ [space]).length = front.length + w.length + 1 := by
      rw [List.length_append, List.length_append]
      rfl
    have freeWord := free w List.mem_cons_self
    have found := ends (List.cons_ne_nil w words)
    rw [shape, findFirstOf_append freeWord] at found
    rw [List.length_cons] at all enough
    obtain ⟨fuel, rfl⟩ := Nat.exists_eq_succ_of_ne_zero (by omega : fuel ≠ 0)
    rw [shape, found, copyWords_word (some w List.mem_cons_self) (by omega), shift, ← size]
    rw [ih (fun other listed => some other (List.mem_cons_of_mem w listed))
      (fun other listed => free other (List.mem_cons_of_mem w listed)) (by omega) (by omega)]
    · rw [terminated_cons, List.append_assoc, List.append_assoc]
      rfl
    · intro more
      obtain ⟨next, others, rfl⟩ := List.exists_cons_of_ne_nil more
      have shapeNext : terminated space (next :: others) ++ tail =
          next ++ space :: (terminated space others ++ tail) := by
        rw [terminated_cons, List.append_assoc, List.cons_append]
      have ended := @findFirstOf_append (front ++ w ++ [space]) next
        (terminated space others ++ tail)
        (free next (List.mem_cons_of_mem w List.mem_cons_self))
      rw [shapeNext, ended]
      rfl

end Copying

section Phrases

/-! ## The words of a phrase -/

/-- Seed words and a last word. -/
theorem streamWords_phrase {words : List (List UInt8)} {tail : List UInt8}
    (some : ∀ w ∈ words, w ≠ [])
    (visible : ∀ w ∈ words, ∀ c ∈ w, Mnemonic.isSpace c = false)
    (visibleTail : ∀ c ∈ tail, Mnemonic.isSpace c = false) :
    (streamWords (terminated space words ++ tail)).length =
      words.length + if tail = [] then 0 else 1 := by
  have kept : words.filter (fun w => !w.isEmpty) = words := by
    apply List.filter_eq_self.mpr
    intro w listed
    rw [Bool.not_eq_true', List.isEmpty_eq_false_iff]
    exact some w listed
  unfold streamWords
  rw [splitOnP_terminated_append rfl visible visibleTail, List.filter_append, kept,
    List.length_append]
  by_cases empty : tail = []
  · rw [empty]
    rfl
  · have nonempty : tail.isEmpty = false := List.isEmpty_eq_false_iff.mpr empty
    rw [if_neg empty, List.filter_singleton, nonempty]
    rfl

theorem lastWord_append {front tail : List UInt8}
    (visible : ∀ c ∈ tail, Mnemonic.isSpace c = false) :
    lastWord (front ++ space :: tail) = tail := by
  have free : ∀ c ∈ tail.reverse, (c != space) = true := by
    intro c listed
    apply bne_iff_ne.mpr
    rintro rfl
    exact absurd (visible space (List.mem_reverse.mp listed)) (by decide)
  unfold lastWord List.rtakeWhile
  rw [List.reverse_append, List.reverse_cons, List.append_assoc,
    List.takeWhile_append_of_pos free]
  change (tail.reverse ++ List.takeWhile (· != space) (space :: front.reverse)).reverse = tail
  rw [List.takeWhile_cons_of_neg (by decide), List.append_nil, List.reverse_reverse]

theorem numByWord_word {number : Nat} (inside : number < numwords) :
    numByWord (word number) = some number := by
  unfold numByWord
  rw [findBinary_word inside]

theorem wordByNum_visible (n : Nat) : ∀ c ∈ wordByNum n, Mnemonic.isSpace c = false := by
  intro c listed
  unfold wordByNum at listed
  split at listed
  · cases listed
  · rename_i inside
    exact isSpace_letter ((word_letters (Nat.lt_of_not_le inside)).2 c listed)

/-- The text of a seed is made of three words for every four bytes. -/
theorem seed_words {seed : List UInt8} (fours : seed.length % 4 = 0) :
    ∃ words, binary2text seed = some (terminated space words) ∧
      text2binary (terminated space words) = some seed ∧
      (∀ w ∈ words, w ≠ [] ∧ ∀ c ∈ w, Mnemonic.isSpace c = false) ∧
      4 * words.length = 3 * seed.length := by
  obtain ⟨text, written, read⟩ := text2binary_binary2text fours
  have exactly := written
  unfold binary2text at exactly
  rw [if_neg (not_not_intro fours), phrase_wordNumbers] at exactly
  cases exactly
  refine ⟨(wordNumbers (binaryValues seed)).map word, written, read, ?_, ?_⟩
  · intro w listed
    obtain ⟨nonempty, letters⟩ := word_of_mem (wordNumbers_lt _) w listed
    exact ⟨nonempty, fun c member => isSpace_letter (letters c member)⟩
  · have size := congrArg List.length (flatMap_binaryValues seed fours)
    rw [List.length_flatMap] at size
    simp only [Codec.writeUint_length, List.map_const', List.sum_replicate, smul_eq_mul] at size
    rw [List.length_map, length_wordNumbers]
    omega

variable (K : SeedKeys) {account : AccountBase}

theorem deriveViewKey_kept (account : AccountBase) :
    (deriveViewKey K account).2.creationTimestamp = account.creationTimestamp ∧
      (deriveViewKey K account).2.spendSecretKey = account.spendSecretKey := by
  unfold deriveViewKey
  dsimp only
  split
  · exact ⟨rfl, rfl⟩
  · exact ⟨rfl, rfl⟩

theorem restoreKeys_createtime (account : AccountBase) (restoreData : List UInt8) :
    (restoreKeys K account restoreData).2.creationTimestamp = account.creationTimestamp := by
  unfold restoreKeys
  split
  · exact (deriveViewKey_kept K _).1
  · split
    · exact (deriveViewKey_kept K _).1
    · rfl

theorem deriveViewKey_true {viewPublicKey : PublicKey}
    (found : K.secretKeyToPublicKey (K.dependentKey account.spendSecretKey) =
      some viewPublicKey) : (deriveViewKey K account).1 = true := by
  unfold deriveViewKey
  dsimp only
  rw [found]

/-- Restoring keys from the seed of an account restores its spend key. -/
theorem restoreKeys_seed (seeded : SeedAccount K account) (before : AccountBase) :
    (restoreKeys K before account.seed).1 = true ∧
      (restoreKeys K before account.seed).2.spendSecretKey = account.spendSecretKey := by
  have derived := seeded.spendKey
  have viewPublic := seeded.viewPublic
  rw [seeded.viewKey] at viewPublic
  unfold restoreKeys
  by_cases default : account.seed.length = brainwalletDefaultSeedSize
  · rw [if_pos default] at derived
    have spend := (Prod.mk.inj derived).2
    rw [if_pos default, (deriveViewKey_kept K _).2]
    rw [spend] at viewPublic
    exact ⟨deriveViewKey_true K viewPublic, spend.symm⟩
  · rw [if_neg default] at derived
    have spend := (Prod.mk.inj derived).2
    rw [if_neg default, if_pos (seeded.size.resolve_left default), (deriveViewKey_kept K _).2]
    rw [spend] at viewPublic
    exact ⟨deriveViewKey_true K viewPublic, spend.symm⟩

/-- A phrase with neither two words nor those of a seed and a week tells no creation time. -/
theorem restoredCreatetime_none {now : Nat} {phrase : List UInt8}
    (noDate : (streamWords phrase).length ≠ spendKeyWordsCountWithTs)
    (noWeek : (streamWords phrase).length ≠ phraseWordsCountWithTs) {before : AccountBase}
    {restored : AccountBase}
    (several : (streamWords phrase).length ≠ spendKeyWordsCount)
    (done : restoreKeysFromBraindata K now before phrase = some (true, restored)) :
    restored.creationTimestamp = 0 := by
  unfold restoreKeysFromBraindata restoredCreatetime at done
  rw [if_neg noDate, if_neg noWeek, Option.bind_some] at done
  dsimp only at done
  rw [if_neg (fun either => either.elim several noDate), Option.map_eq_some_iff] at done
  obtain ⟨buff, -, outcome⟩ := done
  split at outcome
  · cases outcome
  · have time := restoreKeys_createtime K { before with creationTimestamp := 0 } buff
    rw [outcome] at time
    exact time

/-- The creation time a week word tells. -/
theorem restored_week {now creation : Nat} (later : walletBrainDateOffset +
    walletBrainDateQuantum < creation) (past : creation < now) :
    let week := (creation - walletBrainDateOffset) / walletBrainDateQuantum
    let timestamp := week * walletBrainDateQuantum + walletBrainDateOffset
    (timestamp < now ∧ walletBrainDateOffset < timestamp) ∧ timestamp ≤ creation ∧
      creation < timestamp + walletBrainDateQuantum := by
  unfold walletBrainDateOffset walletBrainDateQuantum at *
  dsimp only
  omega

theorem wordByNum_eq_nil (n : Nat) : wordByNum n = [] ↔ ¬n < numwords := by
  unfold wordByNum
  split
  · rename_i atLeast
    exact iff_of_true rfl (Nat.not_lt_of_le atLeast)
  · rename_i below
    exact iff_of_false (word_letters (Nat.lt_of_not_le below)).1
      (not_not_intro (Nat.lt_of_not_le below))

/-- How many words a phrase has. -/
theorem phrase_count {words : List (List UInt8)} (some : ∀ w ∈ words, w ≠ [])
    (visible : ∀ w ∈ words, ∀ c ∈ w, Mnemonic.isSpace c = false)
    (size : 4 * words.length = 3 * account.seed.length) (seeded : SeedAccount K account) :
    let count := (streamWords (terminated space words ++ wordByNum account.weeksCount)).length
    count ≠ spendKeyWordsCount ∧ count ≠ spendKeyWordsCountWithTs ∧
      (count = phraseWordsCountWithTs ↔ account.seed.length = brainwalletDefaultSeedSize ∧
        account.weeksCount < numwords) := by
  dsimp only
  rw [streamWords_phrase some visible (wordByNum_visible account.weeksCount)]
  have default : brainwalletDefaultSeedSize = 32 := rfl
  have short : brainwalletShortSeedSize = 16 := rfl
  have one : spendKeyWordsCount = 1 := rfl
  have two : spendKeyWordsCountWithTs = 2 := rfl
  have many : phraseWordsCountWithTs = 25 := rfl
  have sizes := seeded.size
  by_cases inside : account.weeksCount < numwords
  · rw [if_neg ((wordByNum_eq_nil _).not.mpr (not_not_intro inside))]
    omega
  · rw [if_pos ((wordByNum_eq_nil _).mpr inside)]
    omega

/-- A phrase with all its words is read back. -/
theorem restore_phrase {words : List (List UInt8)}
    (some : ∀ w ∈ words, w ≠ [])
    (visible : ∀ w ∈ words, ∀ c ∈ w, Mnemonic.isSpace c = false)
    (read : text2binary (terminated space words) = .some account.seed)
    (full : words.length = phraseWordsCount) {week : Nat} (within : week < numwords)
    (many : (streamWords (terminated space words ++ wordByNum week)).length =
      phraseWordsCountWithTs) (nonempty : account.seed.isEmpty = false) {now : Nat}
    (told : week * walletBrainDateQuantum + walletBrainDateOffset < now ∧
      walletBrainDateOffset < week * walletBrainDateQuantum + walletBrainDateOffset)
    (before : AccountBase) :
    restoreKeysFromBraindata K now before (terminated space words ++ wordByNum week) =
      .some (restoreKeys K { before with
        creationTimestamp := week * walletBrainDateQuantum + walletBrainDateOffset }
          account.seed) := by
  have free : ∀ w ∈ words, space ∉ w := fun w listed member =>
    absurd (visible w listed space member) (by decide)
  obtain ⟨first, others, split⟩ : ∃ first others, words = first :: others :=
    List.exists_cons_of_ne_nil (List.ne_nil_of_length_pos (by rw [full]; decide))
  have last : lastWord (terminated space words ++ wordByNum week) = wordByNum week := by
    rw [split, terminated_eq_intercalate, List.append_assoc]
    exact lastWord_append (wordByNum_visible week)
  have number : wordByNum week = word week := if_neg (Nat.not_le_of_lt within)
  have enough : words.length ≤ (terminated space words ++ wordByNum week).length + 3 := by
    have atLeast := length_le_terminated space words
    rw [List.length_append]
    omega
  have copied : copyWords (terminated space words ++ wordByNum week)
      ((terminated space words ++ wordByNum week).length + 3) 0
      (findFirstOf (terminated space words ++ wordByNum week) 0) 0 [] = terminated space words :=
    @copyWords_words [] words (wordByNum week) some free 0 _ ((Nat.zero_add _).trans full)
      enough [] _ fun _ => rfl
  have time : restoredCreatetime K now (terminated space words ++ wordByNum week) =
      .some (week * walletBrainDateQuantum + walletBrainDateOffset) := by
    unfold restoredCreatetime
    rw [many, if_neg (by decide), if_pos rfl, last, number, numByWord_word within]
    exact congrArg Option.some (if_pos told)
  unfold restoreKeysFromBraindata
  rw [time, Option.bind_some]
  dsimp only
  rw [many, if_neg (by decide), copied, read, Option.map_some, nonempty]
  rfl

/-- A phrase is restored faithfully exactly when the seed has the default size and there is a
word for the week. -/
theorem restoresFaithfully_iff (seeded : SeedAccount K account) {now : Nat}
    (later : walletBrainDateOffset + walletBrainDateQuantum < account.creationTimestamp)
    (past : account.creationTimestamp < now) (before : AccountBase) :
    RestoresFaithfully K now before account ↔
      account.seed.length = brainwalletDefaultSeedSize ∧ account.weeksCount < numwords := by
  have fours : account.seed.length % 4 = 0 := by
    rcases seeded.size with default | short
    · rw [default]
      rfl
    · rw [short]
      rfl
  have nonempty : account.seed.isEmpty = false := by
    rw [List.isEmpty_eq_false_iff]
    apply List.ne_nil_of_length_pos
    rcases seeded.size with default | short
    · rw [default]
      decide
    · rw [short]
      decide
  obtain ⟨words, written, read, known, size⟩ := seed_words fours
  have some : ∀ w ∈ words, w ≠ [] := fun w listed => (known w listed).1
  have visible : ∀ w ∈ words, ∀ c ∈ w, Mnemonic.isSpace c = false :=
    fun w listed => (known w listed).2
  obtain ⟨notOne, notTwo, whole⟩ := phrase_count K some visible size seeded
  have since : account.weeksCount =
      (account.creationTimestamp - walletBrainDateOffset) / walletBrainDateQuantum := by
    unfold AccountBase.weeksCount
    rw [if_pos (by omega)]
  have printed : getRestoreBraindata K account =
      if account.weeksCount < 2 ^ 32 - 1 then
        .some (terminated space words ++ wordByNum account.weeksCount) else none := by
    unfold getRestoreBraindata
    rw [nonempty, written]
    rfl
  constructor
  · rintro ⟨phrase, restored, given, done, -, -, recent⟩
    by_contra short
    rw [printed] at given
    split at given
    · cases given
      have zero := restoredCreatetime_none K notTwo (whole.not.mpr short) notOne done
      rw [zero] at recent
      omega
    · cases given
  · rintro ⟨default, within⟩
    obtain ⟨told, earlier, recent⟩ := restored_week later past
    rw [← since] at told earlier recent
    have full : words.length = phraseWordsCount := by
      have thirtyTwo : brainwalletDefaultSeedSize = 32 := rfl
      have twentyFour : phraseWordsCount = 24 := rfl
      omega
    have restored := restore_phrase K some visible read full within
      (whole.mpr ⟨default, within⟩) nonempty told before
    obtain ⟨success, spend⟩ := restoreKeys_seed K seeded { before with creationTimestamp :=
      account.weeksCount * walletBrainDateQuantum + walletBrainDateOffset }
    have time := restoreKeys_createtime K { before with creationTimestamp :=
      account.weeksCount * walletBrainDateQuantum + walletBrainDateOffset } account.seed
    refine ⟨_, _, ?_, restored.trans (congrArg Option.some (Prod.ext success rfl)), spend, ?_, ?_⟩
    · rw [printed, if_pos (within.trans (by decide))]
    · rw [time]
      exact earlier
    · rw [time]
      exact recent

/-! ## Accounts with a seed -/

theorem deriveViewKey_found {before restored : AccountBase}
    (done : deriveViewKey K before = (true, restored)) :
    restored.seed = before.seed ∧ restored.spendPublicKey = before.spendPublicKey ∧
      restored.spendSecretKey = before.spendSecretKey ∧
      restored.viewSecretKey = K.dependentKey restored.spendSecretKey ∧
      K.secretKeyToPublicKey restored.viewSecretKey = some restored.viewPublicKey := by
  unfold deriveViewKey at done
  dsimp only at done
  split at done
  · rename_i viewPublicKey found
    cases done
    exact ⟨rfl, rfl, rfl, rfl, found⟩
  · cases done

/-- An account restored from a seed is an account with a seed. -/
theorem seedAccount_restoreKeys {before restored : AccountBase} {seed : List UInt8}
    (done : restoreKeys K before seed = (true, restored)) : SeedAccount K restored := by
  unfold restoreKeys at done
  split at done
  · rename_i default
    obtain ⟨same, publicKey, secretKey, view, found⟩ := deriveViewKey_found K done
    dsimp only at same publicKey secretKey
    refine ⟨Or.inl ?_, ?_, view, found⟩
    · rw [same]
      exact default
    · rw [same, if_pos default, publicKey, secretKey]
  · rename_i notDefault
    split at done
    · rename_i short
      obtain ⟨same, publicKey, secretKey, view, found⟩ := deriveViewKey_found K done
      dsimp only at same publicKey secretKey
      refine ⟨Or.inr ?_, ?_, view, found⟩
      · rw [same]
        exact short
      · rw [same, if_neg notDefault, publicKey, secretKey]
    · cases done

/-- A new account is an account with a seed. -/
theorem seedAccount_generate {randomBytes : List UInt8} {now : Nat} {created : AccountBase}
    (random : randomBytes.length = brainwalletDefaultSeedSize)
    (done : generate K randomBytes now = some created) : SeedAccount K created := by
  unfold generate at done
  dsimp only at done
  split at done
  · rename_i success
    cases done
    obtain ⟨same, publicKey, secretKey, view, found⟩ :=
      deriveViewKey_found K (Prod.ext success rfl)
    dsimp only at same publicKey secretKey
    refine ⟨Or.inl ?_, ?_, view, found⟩
    · rw [same]
      exact random
    · rw [same, if_pos random, publicKey, secretKey]
  · cases done

/-- Bytes that come in fours are read back from their text. An accepted text is written again
with the same words exactly when every triple of its words fits in 32 bits. The phrase of an
account with a seed, created more than a week after the offset and in the past, is restored
faithfully exactly when the seed has the default size and there is a word for the week. -/
theorem restorePhrase_exact :
    (∀ binary : List UInt8, binary.length % 4 = 0 →
      ∃ text, binary2text binary = some text ∧ text2binary text = some binary) ∧
    (∀ text binary, text2binary text = some binary → binary ≠ [] →
      ((∃ again, binary2text binary = some again ∧ tokens again = tokens text) ↔
        TriplesFit text)) ∧
    ∀ account now before, SeedAccount K account →
      walletBrainDateOffset + walletBrainDateQuantum < account.creationTimestamp →
      account.creationTimestamp < now →
        (RestoresFaithfully K now before account ↔
          account.seed.length = brainwalletDefaultSeedSize ∧ account.weeksCount < numwords) :=
  ⟨fun _ fours => text2binary_binary2text fours,
    fun _ _ read accepted => rewritten_iff read accepted,
    fun _ _ before seeded later past => restoresFaithfully_iff K seeded later past before⟩

end Phrases

namespace PlainKeys

/-- Keys that are read off the seed, for accounts whose texts are not looked at. -/
def keys : SeedKeys where
  keysFromDefault seed := (⟨seed.length⟩, ⟨seed.length⟩)
  keysFromShort seed := (⟨seed.length⟩, ⟨seed.length⟩)
  dependentKey secret := ⟨secret.val + 1⟩
  secretKeyToPublicKey secret := some ⟨secret.val⟩
  podToHex _ := []
  hexToPod _ := none
  restoreStrFromTime _ := []
  restoreTimeFromStr _ := none

/-- An account with a seed of the default size, created two weeks after the offset. -/
def account : AccountBase where
  spendPublicKey := ⟨32⟩
  spendSecretKey := ⟨32⟩
  viewPublicKey := ⟨33⟩
  viewSecretKey := ⟨33⟩
  creationTimestamp := 1543622400 + 2 * 604800
  seed := List.replicate 32 7

theorem account_seeded : SeedAccount keys account where
  size := Or.inl rfl
  spendKey := rfl
  viewKey := rfl
  viewPublic := rfl

/-- The account is restored from its phrase. -/
theorem account_restored : RestoresFaithfully keys 1600000000 account account :=
  ((restorePhrase_exact keys).2.2 account 1600000000 account account_seeded (by decide)
    (by decide)).mpr ⟨rfl, by decide⟩

/-- Three words that stand for a number of more than 32 bits. -/
def longTriple : List UInt8 := bytesOf "like like weary"

/-- The text is accepted, and written again with other words. -/
theorem longTriple_rewritten :
    text2binary longTriple = some [4, 80, 20, 0] ∧
      (binary2text [4, 80, 20, 0]).map tokens ≠ some (tokens longTriple) := by
  decide +kernel

end PlainKeys
end Virie
