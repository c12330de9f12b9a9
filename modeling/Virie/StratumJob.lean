import Virie.Stratum.Server

/-! # The job data of the stratum server

Header hash, hashing blob, height and difficulty are stored beside the template they belong
to. As long as every request for a template is answered with one, they all come from the last
template, up to the nonce that found blocks leave in it, and a block found on it has the proof
of work that the share was judged by. A request that fails clears the template and leaves the
rest of the job in place. -/

open Foundation

namespace Virie
namespace Stratum

section Jobs

variable {σ : Type} {S : Sending} {E : Env} {C : Core σ} {cnFastHash : List UInt8 → Hash}
  {s : Server σ}

/-- The job data all belong to one template. -/
structure JobOf (E : Env) (template : BlockTemplate) (config : Config) : Prop where
  block : config.blockTemplate = { template.b with nonce := config.blockTemplate.nonce }
  blob : config.blockTemplateHashBlob = (getBlockHashingBlob E template.b).zeroNonce
  ethash : config.blockTemplateEthash = config.blockTemplateHashBlob.hash E
  height : config.blockTemplateHeight = template.height
  difficulty : config.networkDifficulty = template.difficulty

/-- A found block has the proof of work of its share, and a core that still asks for the
difficulty of its template accepts it. -/
structure Sound (E : Env) (C : Core σ) (found : Find σ) : Prop where
  pow : getBlockLonghash E found.block = found.pow
  accepted : C.nextDifficulty found.core = found.difficulty →
    checkHash (getBlockLonghash E found.block) (C.nextDifficulty found.core) = true

/-- The invariant of runs in which no request for a template fails. -/
structure OneJob (S : Sending) (E : Env) (C : Core σ) (s : Server σ) : Prop where
  job : ∀ template, s.current = some template → JobOf E template s.config
  created : ∀ template, s.current = some template →
    ∃ core minerAddr txkey, createBlockTemplate S E C core minerAddr txkey = (true, template)
  finds : ∀ found ∈ s.finds, Sound E C found

theorem adoptTemplate_oneJob {template : BlockTemplate} {txkey : Keypair}
    (made : createBlockTemplate S E C s.core s.config.minerAddr txkey = (true, template))
    (holds : OneJob S E C s) :
    OneJob S E C (adoptTemplate E C template (receiveTemplate template s)) where
  job other current := by
    cases current
    exact ⟨rfl, rfl, rfl, rfl, rfl⟩
  created other current := by
    cases current
    exact ⟨s.core, s.config.minerAddr, txkey, made⟩
  finds := holds.finds

theorem OneJob.update {txkey : Keypair} (succeeds : UpdateSucceeds S E C txkey s)
    (holds : OneJob S E C s) :
    OneJob S E C (updateBlockTemplate S E C false txkey s).2 ∧
      OneJob S E C (updateWork S E C txkey s) :=
  updateWork_keeps succeeds (fun _ made => adoptTemplate_oneJob made holds) holds

/-- A share that finds a block is pushed as the template with its nonce. -/
theorem OneJob.push {workerDifficulty nonce : Nat} {blockEthash : Hash} {template : BlockTemplate}
    (current : s.current = some template)
    (finds : findsBlock E C workerDifficulty nonce blockEthash s = true) (holds : OneJob S E C s) :
    OneJob S E C (pushFound C nonce (sharePow E nonce s) s).2 := by
  have job := holds.job template current
  have pow : getBlockLonghash E { s.config.blockTemplate with nonce } = sharePow E nonce s := by
    rw [sharePow, job.ethash, job.blob, job.block]
    rfl
  refine ⟨fun other also => ?_, holds.created, fun found member => ?_⟩
  · have before := holds.job other also
    refine ⟨?_, before.blob, before.ethash, before.height, before.difficulty⟩
    change ({ s.config.blockTemplate with nonce } : Block) = { other.b with nonce }
    rw [before.block]
  · rcases List.mem_append.mp member with early | last
    · exact holds.finds found early
    · rw [List.mem_singleton.mp last]
      refine ⟨pow, fun same => ?_⟩
      change C.nextDifficulty s.core = s.config.networkDifficulty at same
      change checkHash (getBlockLonghash E { s.config.blockTemplate with nonce })
        (C.nextDifficulty s.core) = true
      rw [pow, same]
      unfold findsBlock at finds
      rw [Bool.and_eq_true] at finds
      exact finds.2

theorem answerLogin_oneJob (userStr : List UInt8) (holds : OneJob S E C s) :
    OneJob S E C (answerLogin E cnFastHash userStr s).2 := by
  unfold answerLogin
  split
  · exact holds
  · refine ⟨fun template current => ?_, holds.created, holds.finds⟩
    have before := holds.job template current
    exact ⟨before.block, before.blob, before.ethash, before.height, before.difficulty⟩

theorem step_oneJob {event : Event σ} (ready : TemplatesReady S E C cnFastHash event s)
    (holds : OneJob S E C s) : OneJob S E C (step S E C cnFastHash event s) := by
  cases event with
  | coreChange core => exact ⟨holds.job, holds.created, holds.finds⟩
  | tick now => exact ⟨holds.job, holds.created, holds.finds⟩
  | periodicUpdate txkey =>
    unfold step
    dsimp only
    split
    · exact (holds.update ready).1
    · exact holds
  | blockchainUpdate txkey => exact (holds.update ready).2
  | getWork txkey => exact (holds.update ready).2
  | login userStr txkey =>
    have answered : OneJob S E C (answerLogin E cnFastHash userStr s).2 :=
      answerLogin_oneJob userStr holds
    change OneJob S E C (handleLogin S E C cnFastHash userStr txkey s).2
    unfold handleLogin
    change UpdateSucceeds S E C txkey (answerLogin E cnFastHash userStr s).2 at ready
    cases answer : answerLogin E cnFastHash userStr s with
    | mk r after =>
      rw [answer] at answered ready
      cases r with
      | false => exact answered
      | true => exact (answered.update ready).2
  | submitWork workerDifficulty nonce blockEthash txkey =>
    change OneJob S E C (handleWork S E C workerDifficulty nonce blockEthash txkey s)
    unfold handleWork
    cases finds : findsBlock E C workerDifficulty nonce blockEthash s with
    | false =>
      rw [if_neg Bool.false_ne_true]
      exact holds
    | true =>
      obtain ⟨present, succeeds⟩ := ready finds
      obtain ⟨template, current⟩ := Option.ne_none_iff_exists'.mp present
      have pushed := holds.push current finds
      rw [if_pos rfl]
      dsimp only
      split
      · exact (pushed.update succeeds).1
      · exact pushed

/-- In a run whose requests for templates all succeed the job data belong to one created
template, and every block found on it has the proof of work its share was judged by. -/
theorem stratumJob_consistent
    (reached : (system S E C cnFastHash).Reaches (TemplatesReady S E C cnFastHash) s) :
    (∀ template, s.current = some template → JobOf E template s.config ∧
      ∃ core minerAddr txkey,
        createBlockTemplate S E C core minerAddr txkey = (true, template)) ∧
      ∀ found ∈ s.finds, Sound E C found := by
  have holds : OneJob S E C s := by
    refine reached.invariant ?_ fun event state _ ready before => step_oneJob ready before
    rintro _ ⟨core, now, minerAddr, period, rfl⟩
    refine ⟨?_, ?_, ?_⟩
    · intro _ current
      cases current
    · intro _ current
      cases current
    · intro _ member
      cases member
  exact ⟨fun template current => ⟨holds.job template current, holds.created template current⟩,
    holds.finds⟩

end Jobs

theorem stratumJob_consistent_serving :
    (∀ template, servingServer.current = some template →
      JobOf .plain template servingServer.config ∧ ∃ core minerAddr txkey,
        createBlockTemplate plainSending .plain .plain core minerAddr txkey = (true, template)) ∧
      ∀ found ∈ servingServer.finds, Sound .plain .plain found :=
  stratumJob_consistent (S := plainSending)
    (.step (.start startedServer_start) (.blockchainUpdate ⟨⟨1⟩, ⟨1⟩⟩) fun _ => by decide)

/-- A refresh that fails at a new tip leaves the old job data beside an empty template. -/
theorem stratumJob_mixed :
    ¬ ∀ s : Server Nat, (system plainSending .plain .plain fun _ => nullHash).Reachable s →
      ∀ template, s.current = some template → JobOf .plain template s.config := by
  intro always
  have started : (system plainSending .plain .plain fun _ => nullHash).Reachable startedServer :=
    .start startedServer_start
  have failed := started.after [.blockchainUpdate ⟨⟨1⟩, ⟨1⟩⟩, .coreChange 13,
    .blockchainUpdate ⟨⟨1⟩, ⟨1⟩⟩]
  obtain ⟨template, current, coinbase⟩ : ∃ template, (System.after
      (system plainSending .plain .plain fun _ => nullHash) startedServer
      [.blockchainUpdate ⟨⟨1⟩, ⟨1⟩⟩, .coreChange 13, .blockchainUpdate ⟨⟨1⟩, ⟨1⟩⟩]).current =
        some template ∧ template.b.minerTx.vin = [.gen 12] := ⟨_, rfl, rfl⟩
  have job := (always _ failed template current).block
  have cleared := congrArg (fun b : Block => b.minerTx.vin) job
  change [] = template.b.minerTx.vin at cleared
  rw [coinbase] at cleared
  cases cleared

end Stratum
end Virie
