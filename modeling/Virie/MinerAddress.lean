import Virie.Stratum.Server

/-! # The one address of the stratum server

Every template is requested for the address that is set at the moment. A login with an
address sets it before the login is judged, so that one rejected login redirects the
templates to come; and a first login takes over a template that was made before. Without
such logins all templates and blocks from the choice of the address on pay that address. -/

open Foundation

namespace Virie
namespace Stratum

section Payments

variable {σ : Type} {S : Sending} {E : Env} {C : Core σ} {cnFastHash : List UInt8 → Hash}
  {s : Server σ}

/-- The coinbase of a block was constructed for an address. -/
def PaysTo (S : Sending) (C : Core σ) (address : AccountPublicAddress) (b : Block) : Prop :=
  ∃ height medianSize size fee txkey,
    constructMinerTx S C height medianSize size fee address txkey = some b.minerTx

/-- The address a user name is read as is the address set; with none set, it is a valid address,
or nothing was read. -/
def LoginHarmless (E : Env) (cnFastHash : List UInt8 → Hash) (userStr : List UInt8)
    (s : Server σ) : Prop :=
  userStr = workerAllowedUsername ∨
    if s.config.minerAddr = nullPubAddr then
      ((getAccountAddressFromStr E cnFastHash userStr).1 = true ↔
        (getAccountAddressFromStr E cnFastHash userStr).2 ≠ nullPubAddr)
    else (getAccountAddressFromStr E cnFastHash userStr).2 = s.config.minerAddr

/-- A login that chooses the address finds no template, or one that is refreshed at once. -/
def ChoiceFresh (C : Core σ) (s : Server σ) : Prop :=
  s.chosen = none → s.current = none ∨ C.isSynchronized s.core = true ∧ updateDue C s = true

/-- No login redirects the server, and the templates are created. -/
def AddressAllowed (S : Sending) (E : Env) (C : Core σ) (cnFastHash : List UInt8 → Hash)
    (event : Event σ) (s : Server σ) : Prop :=
  TemplatesReady S E C cnFastHash event s ∧
    match event with
    | .login userStr _ => LoginHarmless E cnFastHash userStr s ∧
        ((answerLogin E cnFastHash userStr s).1 = true → ChoiceFresh C s)
    | _ => True

/-- The address chosen first is the one set, and whatever came after the choice pays it. The
stored template has the coinbase of the last template created. -/
structure Steady (S : Sending) (C : Core σ) (s : Server σ) : Prop where
  unset : s.chosen = none → s.config.minerAddr = nullPubAddr
  set : ∀ a, s.chosen = some a → s.config.minerAddr = a ∧ a ≠ nullPubAddr
  stored : ∀ template, s.current = some template →
    s.config.blockTemplate.minerTx = template.b.minerTx
  created : ∀ entry ∈ s.created, ∀ a, entry.1 = some a → PaysTo S C a entry.2.b
  finds : ∀ found ∈ s.finds, ∀ a, found.chosen = some a → PaysTo S C a found.block

/-- The last template pays the address chosen. -/
def CurrentPays (S : Sending) (C : Core σ) (s : Server σ) : Prop :=
  ∀ a template, s.chosen = some a → s.current = some template → PaysTo S C a template.b

/-- A created template pays the address it is requested for. -/
theorem adoptTemplate_steady {template : BlockTemplate} {txkey : Keypair}
    (made : createBlockTemplate S E C s.core s.config.minerAddr txkey = (true, template))
    (holds : Steady S C s) :
    Steady S C (adoptTemplate E C template (receiveTemplate template s)) ∧
      CurrentPays S C (adoptTemplate E C template (receiveTemplate template s)) := by
  have pays : ∀ a, s.chosen = some a → PaysTo S C a template.b := by
    intro a chosen
    obtain ⟨_, _, medianSize, size, fee, coinbase⟩ := createBlockTemplate_ok made
    rw [(holds.set a chosen).1] at coinbase
    exact ⟨template.height, medianSize, size, fee, txkey, coinbase⟩
  refine ⟨⟨holds.unset, holds.set, fun other current => ?_, fun entry member a chosen => ?_,
    holds.finds⟩, fun a other chosen current => ?_⟩
  · cases current
    rfl
  · rcases List.mem_append.mp member with early | last
    · exact holds.created entry early a chosen
    · rw [List.mem_singleton.mp last] at chosen ⊢
      exact pays a chosen
  · cases current
    exact pays a chosen

theorem update_steady {txkey : Keypair} (succeeds : UpdateSucceeds S E C txkey s)
    (holds : Steady S C s ∧ CurrentPays S C s) :
    (Steady S C (updateBlockTemplate S E C false txkey s).2 ∧
        CurrentPays S C (updateBlockTemplate S E C false txkey s).2) ∧
      Steady S C (updateWork S E C txkey s) ∧ CurrentPays S C (updateWork S E C txkey s) :=
  updateWork_keeps (I := fun s => Steady S C s ∧ CurrentPays S C s) succeeds
    (fun _ made => adoptTemplate_steady made holds.1) holds

/-- A refresh that is due replaces a template that pays somebody else. -/
theorem freshWork_steady {txkey : Keypair} (succeeds : UpdateSucceeds S E C txkey s)
    (fresh : C.isSynchronized s.core = true ∧ updateDue C s = true) (holds : Steady S C s) :
    Steady S C (updateWork S E C txkey s) ∧ CurrentPays S C (updateWork S E C txkey s) := by
  unfold updateWork
  rw [if_pos fresh.1]
  rcases updateBlockTemplate_cases succeeds with ⟨_, still⟩ | ⟨template, made, adopted⟩
  · rw [fresh.2] at still
    cases still
  · rw [adopted]
    exact adoptTemplate_steady made holds

theorem push_steady {nonce : Nat} {pow : Hash} (present : s.current ≠ none)
    (holds : Steady S C s ∧ CurrentPays S C s) :
    Steady S C (pushFound C nonce pow s).2 ∧ CurrentPays S C (pushFound C nonce pow s).2 := by
  obtain ⟨template, current⟩ := Option.ne_none_iff_exists'.mp present
  obtain ⟨steady, pays⟩ := holds
  refine ⟨⟨steady.unset, steady.set, steady.stored, steady.created,
    fun found member a chosen => ?_⟩, pays⟩
  rcases List.mem_append.mp member with early | last
  · exact steady.finds found early a chosen
  · rw [List.mem_singleton.mp last] at chosen ⊢
    obtain ⟨height, medianSize, size, fee, txkey, coinbase⟩ := pays a template chosen current
    exact ⟨height, medianSize, size, fee, txkey, by
      rw [coinbase, ← steady.stored template current]⟩

/-! ## Logins -/

/-- A harmless login that is answered with an error changes nothing. -/
theorem answerLogin_error {userStr : List UInt8} (harmless : LoginHarmless E cnFastHash userStr s)
    (error : (answerLogin E cnFastHash userStr s).1 = false) :
    (answerLogin E cnFastHash userStr s).2.config = s.config ∧
      (answerLogin E cnFastHash userStr s).2.chosen = s.chosen := by
  unfold LoginHarmless at harmless
  unfold answerLogin at error ⊢
  by_cases miner : userStr = workerAllowedUsername
  · rw [if_pos miner]
    exact ⟨rfl, rfl⟩
  · rw [if_neg miner] at error ⊢
    replace harmless := harmless.resolve_left miner
    generalize getAccountAddressFromStr E cnFastHash userStr = parsed at *
    obtain ⟨r, address⟩ := parsed
    dsimp only at harmless error ⊢
    have failed := error
    rw [Bool.not_eq_false'] at failed
    rw [failed, if_pos rfl]
    refine ⟨?_, rfl⟩
    suffices same : address = s.config.minerAddr by rw [same]
    by_cases free : s.config.minerAddr = nullPubAddr
    · rw [if_pos free] at harmless
      simp only [free, ne_eq, not_true_eq_false, false_and, decide_false, Bool.or_false,
        Bool.not_eq_true'] at failed
      rw [free]
      by_contra apart
      rw [harmless.mpr apart] at failed
      cases failed
    · rw [if_neg free] at harmless
      exact harmless

/-- A harmless login that succeeds sets the address that is chosen. -/
theorem answerLogin_success {userStr : List UInt8}
    (harmless : LoginHarmless E cnFastHash userStr s) (holds : Steady S C s)
    (success : (answerLogin E cnFastHash userStr s).1 = true) :
    Steady S C (answerLogin E cnFastHash userStr s).2 ∧
      (s.chosen ≠ none → (answerLogin E cnFastHash userStr s).2 = s) := by
  unfold LoginHarmless at harmless
  unfold answerLogin at success ⊢
  by_cases miner : userStr = workerAllowedUsername
  · rw [if_pos miner]
    exact ⟨holds, fun _ => rfl⟩
  · rw [if_neg miner] at success ⊢
    replace harmless := harmless.resolve_left miner
    generalize getAccountAddressFromStr E cnFastHash userStr = parsed at *
    obtain ⟨r, address⟩ := parsed
    dsimp only at harmless success ⊢
    have passed := success
    rw [Bool.not_eq_true'] at passed
    rw [passed, if_neg Bool.false_ne_true]
    cases chosen : s.chosen with
    | none =>
      have free := holds.unset chosen
      rw [if_pos free] at harmless
      rw [Bool.or_eq_false_iff, Bool.not_eq_false'] at passed
      refine ⟨⟨fun unset => ?_, fun a set => ?_, holds.stored, holds.created, holds.finds⟩,
        fun present => absurd rfl present⟩
      · cases unset
      · cases set
        exact ⟨rfl, harmless.mp passed.1⟩
    | some a =>
      obtain ⟨set, nonnull⟩ := holds.set a chosen
      rw [if_neg (by rw [set]; exact nonnull)] at harmless
      rw [harmless, Option.some_or, ← chosen]
      exact ⟨holds, fun _ => rfl⟩

theorem handleLogin_steady {userStr : List UInt8} {txkey : Keypair}
    (harmless : LoginHarmless E cnFastHash userStr s)
    (fresh : (answerLogin E cnFastHash userStr s).1 = true → ChoiceFresh C s)
    (succeeds : UpdateSucceeds S E C txkey (answerLogin E cnFastHash userStr s).2)
    (holds : Steady S C s ∧ CurrentPays S C s) :
    Steady S C (handleLogin S E C cnFastHash userStr txkey s).2 ∧
      CurrentPays S C (handleLogin S E C cnFastHash userStr txkey s).2 := by
  have frame : (answerLogin E cnFastHash userStr s).2.core = s.core ∧
      (answerLogin E cnFastHash userStr s).2.current = s.current ∧
      updateDue C (answerLogin E cnFastHash userStr s).2 = updateDue C s ∧
      (answerLogin E cnFastHash userStr s).2.created = s.created ∧
      (answerLogin E cnFastHash userStr s).2.finds = s.finds := by
    unfold answerLogin
    split
    · exact ⟨rfl, rfl, rfl, rfl, rfl⟩
    · exact ⟨rfl, rfl, rfl, rfl, rfl⟩
  have error := answerLogin_error harmless
  have success := answerLogin_success harmless holds.1
  unfold handleLogin
  cases answer : answerLogin E cnFastHash userStr s with
  | mk r after =>
    rw [answer] at frame error success fresh succeeds
    obtain ⟨core, current, due, created, finds⟩ := frame
    dsimp only at core current due created finds error success fresh succeeds
    cases r with
    | false =>
      obtain ⟨config, chosen⟩ := error rfl
      dsimp only
      refine ⟨⟨?_, ?_, ?_, ?_, ?_⟩, ?_⟩
      · rw [chosen, config]
        exact holds.1.unset
      · rw [chosen, config]
        exact holds.1.set
      · rw [current, config]
        exact holds.1.stored
      · rw [created]
        exact holds.1.created
      · rw [finds]
        exact holds.1.finds
      · unfold CurrentPays
        rw [chosen, current]
        exact holds.2
    | true =>
      obtain ⟨steady, kept⟩ := success rfl
      dsimp only
      by_cases before : s.chosen = none
      · rcases fresh rfl before with none | ⟨synchronized, isDue⟩
        · refine (update_steady succeeds ⟨steady, fun a template _ present => ?_⟩).2
          rw [current, none] at present
          cases present
        · exact freshWork_steady succeeds ⟨by rw [core]; exact synchronized, due.trans isDue⟩
            steady
      · have same := kept before
        rw [same] at succeeds ⊢
        exact (update_steady succeeds holds).2

/-! ## Runs -/

theorem step_steady {event : Event σ} (allowed : AddressAllowed S E C cnFastHash event s)
    (holds : Steady S C s ∧ CurrentPays S C s) :
    Steady S C (step S E C cnFastHash event s) ∧
      CurrentPays S C (step S E C cnFastHash event s) := by
  obtain ⟨ready, login⟩ := allowed
  cases event with
  | coreChange core =>
    exact ⟨⟨holds.1.unset, holds.1.set, holds.1.stored, holds.1.created, holds.1.finds⟩, holds.2⟩
  | tick now =>
    exact ⟨⟨holds.1.unset, holds.1.set, holds.1.stored, holds.1.created, holds.1.finds⟩, holds.2⟩
  | periodicUpdate txkey =>
    unfold step
    dsimp only
    split
    · exact (update_steady ready holds).1
    · exact holds
  | blockchainUpdate txkey => exact (update_steady ready holds).2
  | getWork txkey => exact (update_steady ready holds).2
  | login userStr txkey => exact handleLogin_steady login.1 login.2 ready holds
  | submitWork workerDifficulty nonce blockEthash txkey =>
    change Steady S C (handleWork S E C workerDifficulty nonce blockEthash txkey s) ∧
      CurrentPays S C (handleWork S E C workerDifficulty nonce blockEthash txkey s)
    unfold handleWork
    cases finds : findsBlock E C workerDifficulty nonce blockEthash s with
    | false =>
      rw [if_neg Bool.false_ne_true]
      exact holds
    | true =>
      obtain ⟨present, succeeds⟩ := ready finds
      have pushed : Steady S C (pushFound C nonce (sharePow E nonce s) s).2 ∧
          CurrentPays S C (pushFound C nonce (sharePow E nonce s) s).2 := push_steady present holds
      rw [if_pos rfl]
      dsimp only
      split
      · exact (update_steady succeeds pushed).1
      · exact pushed

end Payments

/-! ## A rejected login -/

/-- The key of the one output of a coinbase for the address of the example. -/
theorem paysTo_example {b : Block} (pays : PaysTo plainSending .plain ⟨⟨5⟩, ⟨6⟩⟩ b) :
    b.minerTx.vout = [⟨1, .toKey ⟨⟨12⟩, 0⟩⟩] := by
  obtain ⟨height, medianSize, size, fee, txkey, coinbase⟩ := pays
  unfold constructMinerTx at coinbase
  cases reward : getBlockReward false medianSize size height with
  | none =>
    rw [reward] at coinbase
    cases coinbase
  | some blockReward =>
    rw [reward] at coinbase
    exact congrArg (fun tx => tx.vout) (Option.some.inj coinbase).symm

end Stratum
end Virie
