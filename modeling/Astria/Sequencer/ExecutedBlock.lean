import Astria.Sequencer.App

/-!
# Executed blocks

What the execution of a block leaves alone until its end, and what it has done when it is over, in
`process_proposal` and in `finalize_block` (`app/mod.rs`).

Results:
* `executeProposal_sameResults`: nothing before the end of a block touches the consensus parameters, the
  result of the block or the stored blocks;
* `postExecuteTransactions_enables`: the end of a block does not change whether the block itself has vote
  extensions;
* `RunsTransactions.executeBlock`: behind its transactions, a block is executed by its end;
* `executeProposal_runs`: a proposal that is accepted has run all its transactions.
-/

namespace Astria.Sequencer

open Astria.Core Astria.Lib Exec

/-! ## What nothing before the end of a block touches -/

/-- The consensus parameters, the result of the block and the stored blocks are as they were. -/
structure Base.SameResults (s s' : Base) : Prop where
  params : s'.nonverifiable.consensusParams = s.nonverifiable.consensusParams
  result : s'.ephemeral.postTransactionExecutionResult =
    s.ephemeral.postTransactionExecutionResult
  blocks : s'.nonverifiable.sequencerBlocks = s.nonverifiable.sequencerBlocks

instance : IsPreorder Base Base.SameResults where
  refl _ := ⟨rfl, rfl, rfl⟩
  trans _ _ _ h h' :=
    ⟨h'.params.trans h.params, h'.result.trans h.result, h'.blocks.trans h.blocks⟩

def State.SameResults (s s' : State) : Prop := s.base.SameResults s'.base

instance : IsPreorder State State.SameResults where
  refl s := refl_of Base.SameResults s.base
  trans _ _ _ h h' := trans_of Base.SameResults h h'

theorem sameResults_onBase {α : Type} {x : BaseM α} (hx : Keeps Base.SameResults x) :
    Keeps State.SameResults (onBase x) :=
  hx.zoom fun _ _ h => h

theorem sameResults_onOracle {α : Type} (x : OracleM α) : Keeps State.SameResults (onOracle x) :=
  Keeps.zoom (Q := fun _ _ => True) (fun _ => trivial) fun s _ _ => refl_of Base.SameResults s.base

theorem sameResults_applyDelta {α : Type} {x : AppM α} (hx : Keeps State.SameResults x) :
    Keeps State.SameResults (applyDelta x) := by
  intro s
  have hs := hx (s.withEvents [])
  unfold applyDelta
  cases h : x (s.withEvents []) with
  | ok a t =>
    rw [h] at hs
    exact ⟨hs.params, hs.result, hs.blocks⟩
  | error e t => exact refl_of State.SameResults s

section

variable [ext : External]

theorem executeTransaction_sameResults [TransactionCodec] (tx : Transaction) (s : State) :
    s.SameResults (executeTransaction tx s).2 := by
  refine executeTransaction_keeps (R := Base.SameResults) ?_ ?_ ?_ ?_ tx s
  all_goals constructor <;> intros <;> exact ⟨rfl, rfl, rfl⟩

theorem finalizeTransactions_sameResults [TransactionCodec] (txs : List Transaction) (s : State) :
    s.SameResults (finalizeTransactions txs s).2 := by
  induction txs generalizing s with
  | nil => exact refl_of State.SameResults s
  | cons tx rest ih =>
    have hfirst : s.SameResults (finalizeTransaction tx s).2 := by
      rw [finalizeTransaction_snd]
      exact executeTransaction_sameResults tx s
    exact trans_of State.SameResults hfirst (ih _)

theorem beginBlock_sameResults (request : BeginBlock) :
    Keeps Base.SameResults (beginBlock request) := by
  have hremove (a : AddressBytes) : Keeps Base.SameResults (removeValidator a) := by
    refine Keeps.bind (by simp) fun _ => Keeps.ite ?_ (by simp)
    exact Keeps.bind (keeps_writes fun _ => ⟨rfl, rfl, rfl⟩) fun _ => by simp
  have hmisbehaving (m : Misbehavior) : Keeps Base.SameResults (removeMisbehaving m) := by
    refine Keeps.bind ((hremove _).mapErr _) fun _ => Keeps.ite ?_ (by simp)
    exact Keeps.bind (by simp) fun _ => keeps_writes fun _ => ⟨rfl, rfl, rfl⟩
  have hauthority (l : List Misbehavior) : Keeps Base.SameResults (authorityBeginBlock l) := by
    refine Keeps.bind (by simp) fun _ => Keeps.ite ?_ (Keeps.forEach hmisbehaving l)
    exact Keeps.bind (by simp) fun _ => keeps_writes fun _ => ⟨rfl, rfl, rfl⟩
  refine Keeps.bind (keeps_writes fun _ => ⟨rfl, rfl, rfl⟩) fun _ => ?_
  refine Keeps.bind (keeps_writes fun _ => ⟨rfl, rfl, rfl⟩) fun _ => ?_
  exact Keeps.bind ((hauthority _).mapErr _) fun _ => Keeps.bind (keeps_reads _) fun _ =>
    keeps_writes fun _ => ⟨rfl, rfl, rfl⟩

theorem executeUpgradeIfDue_sameResults [UpgradeCodec] (upgrades : Upgrades) (height : ℕ) :
    Keeps State.SameResults (executeUpgradeIfDue upgrades height) := by
  unfold executeUpgradeIfDue
  cases upgrades.upgradeActivatingAtHeight height with
  | none => exact keeps_pure _
  | some aspen =>
    have hvalidators : Keeps Base.SameResults handleAspenUpgrade := by
      refine Keeps.bind (by simp) fun set => Keeps.bind (keeps_writes fun _ => ⟨rfl, rfl, rfl⟩) fun _ => ?_
      refine Keeps.bind (keeps_writes fun _ => ⟨rfl, rfl, rfl⟩) fun _ => Keeps.forEach (fun _ => ?_) _
      exact keeps_writes fun _ => ⟨rfl, rfl, rfl⟩
    change Keeps State.SameResults aspen.execute
    unfold Aspen.execute
    refine Keeps.bind (sameResults_onBase (Keeps.forEach (fun _ => ?_) _)) fun _ => ?_
    · exact keeps_writes fun _ => ⟨rfl, rfl, rfl⟩
    refine Keeps.bind (sameResults_onBase (keeps_writes fun _ => ⟨rfl, rfl, rfl⟩)) fun _ => ?_
    refine Keeps.bind (sameResults_onOracle _) fun _ => ?_
    exact Keeps.bind (sameResults_onBase (hvalidators.mapErr _)) fun _ => keeps_pure _

theorem preExecuteTransactions_sameResults [UpgradeCodec] (upgrades : Upgrades) (appHash : Bytes32)
    (block : BlockData) : Keeps State.SameResults (preExecuteTransactions upgrades appHash block) := by
  have hupgrade := executeUpgradeIfDue_sameResults upgrades block.height
  refine Keeps.bind ((sameResults_applyDelta hupgrade).mapErr _) fun _ => ?_
  refine Keeps.bind ((sameResults_onBase (by simp)).mapErr _) fun _ => ?_
  have hbegin (request : BeginBlock) := sameResults_onBase (beginBlock_sameResults request)
  exact Keeps.bind ((sameResults_applyDelta (hbegin _)).mapErr _) fun _ => keeps_pure _

section

variable [TransactionCodec] {parkedMaxTxCount : ℕ}

theorem checksAndTxExecution_sameResults (tx : Transaction) (info : Proposal parkedMaxTxCount) :
    Keeps State.SameResults (info.checksAndTxExecution tx) := by
  have hrefuse (message : String) : Keeps State.SameResults (info.refuse message) := by
    unfold Proposal.refuse
    cases info.prepare with
    | none => exact keeps_fail _
    | some p => exact keeps_pure _
  have hrecord (result : Except Report (List Event)) :
      Keeps State.SameResults (info.record tx result) := by
    cases result with
    | ok events => exact Keeps.bind (by simp) fun _ => Keeps.bind (by simp) fun _ => keeps_pure _
    | error e =>
      unfold Proposal.record
      cases info.prepare with
      | none => exact keeps_fail _
      | some p => exact keeps_pure _
  unfold Proposal.checksAndTxExecution
  split
  · exact keeps_pure _
  · refine Keeps.ite (hrefuse _) (Keeps.ite (hrefuse _) ?_)
    refine Keeps.bind (fun s => executeTransaction_sameResults tx s) fun result => ?_
    exact Keeps.bind (hrecord result) fun _ => keeps_pure _

theorem executeAll_sameResults (txs : List Transaction) (info : Proposal parkedMaxTxCount) :
    Keeps State.SameResults (info.executeAll txs) := by
  induction txs generalizing info with
  | nil => exact keeps_pure _
  | cons tx rest ih =>
    refine Keeps.bind (checksAndTxExecution_sameResults tx info) fun r => ?_
    rcases r with ⟨flow, info'⟩
    cases flow with
    | «break» => exact keeps_pure _
    | «continue» => exact ih info'

end

/-! ## The end of a block -/

section

omit ext in
theorem applyDelta_eq_error {α : Type} {x : AppM α} {s s' : State} {e : Report}
    (h : applyDelta x s = .error e s') : s' = s := by
  unfold applyDelta at h
  cases hx : x (s.withEvents []) with
  | ok a t =>
    rw [hx] at h
    cases h
  | error e' t =>
    rw [hx] at h
    exact (EStateM.Result.error.inj h).2.symm

theorem endBlock_sameResults (recipient : AddressBytes) : Keeps Base.SameResults (endBlock recipient) := by
  have hauthority : Keeps Base.SameResults authorityEndBlock := by
    refine Keeps.bind (by simp) fun _ => Keeps.ite ?_ (by simp)
    refine Keeps.bind (by simp) fun _ => Keeps.bind (by simp) fun _ => ?_
    exact keeps_writes fun _ => ⟨rfl, rfl, rfl⟩
  refine Keeps.bind (hauthority.mapErr _) fun _ => Keeps.bind (by simp) fun _ => ?_
  refine Keeps.bind (keeps_writes fun _ => ⟨rfl, rfl, rfl⟩) fun _ => Keeps.bind (by simp) fun fees => ?_
  refine Keeps.bind (Keeps.forEach (fun fee => ?_) fees) fun _ => keeps_pure _
  exact (keeps_increaseBalance (fun _ _ _ _ => ⟨rfl, rfl, rfl⟩) _ _ _).mapErr _

variable [BlockCodec] {handler : UpgradesHandler} {post : PostExecution} {s s' : State}

/-- The end of a block leaves the consensus parameters, unless an upgrade is due. -/
theorem postExecuteTransactions_params {u : Unit}
    (h : postExecuteTransactions handler post s = .ok u s') :
    s'.base.nonverifiable.consensusParams =
      (handler.upgrades.upgradeActivatingAtHeight post.height).elim
        s.base.nonverifiable.consensusParams
        fun aspen => some (handler.updatedParams aspen s.base post.height) := by
  obtain ⟨chainId, recipient, updates, b, c, -, -, hend, hstore, rfl⟩ :=
    postExecuteTransactions_eq_ok.mp h
  have hsame := (endBlock_sameResults recipient).of_ok hend
  have hparams : b.nonverifiable.consensusParams = s.base.nonverifiable.consensusParams := hsame.params
  simp only [storeBlock, bind_eq_ok, reads_eq_ok, writes_eq_ok, mapErr_eq_ok, lift_eq_ok, and_assoc,
    exists_and_left, exists_eq_left, exists_const] at hstore
  obtain ⟨block, -, params, d, hupgrades, rfl⟩ := hstore
  unfold UpgradesHandler.endBlock at hupgrades
  cases hdue : handler.upgrades.upgradeActivatingAtHeight post.height with
  | none =>
    rw [hdue] at hupgrades
    obtain ⟨-, rfl⟩ := pure_eq_ok.mp hupgrades
    exact hparams
  | some aspen =>
    rw [hdue] at hupgrades
    simp only [bind_eq_ok, reads_eq_ok, writes_eq_ok, pure_eq_ok, and_assoc, exists_and_left,
      exists_eq_left, exists_const] at hupgrades
    obtain ⟨-, rfl⟩ := hupgrades
    change some (handler.updatedParams aspen _ post.height) =
      some (handler.updatedParams aspen s.base post.height)
    unfold UpgradesHandler.updatedParams UpgradesHandler.getConsensusParams
    dsimp only [Base.putSequencerBlock, Base.putDeposits]
    rw [hparams]

/-- An end of a block that fails leaves the parameters, and no result. -/
theorem postExecuteTransactions_error {e : Report}
    (h : postExecuteTransactions handler post s = .error e s') : s.SameResults s' := by
  simp only [postExecuteTransactions, bind_eq_error, mapErr_eq_error, mapErr_eq_ok, pure_eq_error,
    onBase_tryReads_eq_ok, and_false, exists_false, or_false] at h
  have hread {α : Type} {f : Base → Except Report α} {e' : Report} {r t : State}
      (hr : onBase (tryReads f) r = .error e' t) : r.SameResults t :=
    (sameResults_onBase (keeps_tryReads f)).of_error hr
  rcases h with ⟨e', hchain, -⟩ | ⟨chainId, t, ⟨-, rfl⟩, h⟩
  · exact hread hchain
  rcases h with ⟨e', hsudo, -⟩ | ⟨recipient, t', ⟨-, rfl⟩, h⟩
  · exact hread hsudo
  rcases h with hend | ⟨r, q, hend, hstore⟩
  · rw [applyDelta_eq_error hend]
    exact refl_of State.SameResults _
  · rw [applyDelta_eq_error hstore]
    exact (sameResults_applyDelta (sameResults_onBase (endBlock_sameResults _))).of_ok hend

/-! ## Where vote extensions are enabled -/

/-- Before the upgrade CometBFT has not enabled vote extensions for a height below it. -/
def UpgradesHandler.EnablesLater (handler : UpgradesHandler) : Prop :=
  ∀ aspen params, handler.upgrades.aspen = some aspen →
    handler.consensusParamsFromCometbft aspen.activationHeight = some params →
      params.voteExtensionsEnableHeight.getD 0 = 0 ∨
        aspen.activationHeight ≤ params.voteExtensionsEnableHeight.getD 0

/-- Vote extensions are enabled since the upgrade at the earliest. -/
def Base.EnablesSince (upgrades : Upgrades) (b : Base) : Prop :=
  b.voteExtensionsEnableHeight ≠ 0 →
    ∃ aspen, upgrades.aspen = some aspen ∧ aspen.activationHeight ≤ b.voteExtensionsEnableHeight

omit ext [BlockCodec] in
theorem Base.SameResults.enableHeight {b b' : Base} (h : b.SameResults b') :
    b'.voteExtensionsEnableHeight = b.voteExtensionsEnableHeight := by
  unfold Base.voteExtensionsEnableHeight
  rw [h.params]

omit ext [BlockCodec] in
theorem Base.SameResults.enablesSince {upgrades : Upgrades} {b b' : Base} (h : b.SameResults b')
    (hb : b.EnablesSince upgrades) : b'.EnablesSince upgrades := by
  unfold Base.EnablesSince
  rw [h.enableHeight]
  exact hb

omit ext [BlockCodec] in
theorem Base.SameResults.enabled {b b' : Base} (h : b.SameResults b') (height : ℕ) :
    b'.voteExtensionsEnabled height = b.voteExtensionsEnabled height := by
  unfold Base.voteExtensionsEnabled
  rw [h.enableHeight]

omit ext [BlockCodec] in
theorem setVoteExtensionsEnableHeight_getD (height : ℕ) (params : ConsensusParams) :
    (setVoteExtensionsEnableHeight height params).voteExtensionsEnableHeight.getD 0 =
      if params.voteExtensionsEnableHeight.getD 0 = 0 then height + 1
      else params.voteExtensionsEnableHeight.getD 0 := by
  unfold setVoteExtensionsEnableHeight
  split_ifs <;> rfl

omit ext [BlockCodec] in
/-- The upgrade enables the vote extensions of later heights, unless they are enabled already. -/
theorem updatedParams_enableHeight (hlater : handler.EnablesLater) {aspen : Aspen} {height : ℕ}
    (hdue : handler.upgrades.upgradeActivatingAtHeight height = some aspen) (b : Base) :
    (b.voteExtensionsEnableHeight ≠ 0 ∧
        (handler.updatedParams aspen b height).voteExtensionsEnableHeight.getD 0 =
          b.voteExtensionsEnableHeight) ∨
      (b.voteExtensionsEnableHeight = 0 ∧
        height ≤ (handler.updatedParams aspen b height).voteExtensionsEnableHeight.getD 0) := by
  obtain ⟨haspen, rfl⟩ := Upgrades.upgradeActivatingAtHeight_eq_some.mp hdue
  have hupdated : (handler.updatedParams aspen b aspen.activationHeight).voteExtensionsEnableHeight.getD 0 =
      if (handler.getConsensusParams b aspen.activationHeight).voteExtensionsEnableHeight.getD 0 = 0 then
        aspen.activationHeight + 1
      else (handler.getConsensusParams b aspen.activationHeight).voteExtensionsEnableHeight.getD 0 :=
    setVoteExtensionsEnableHeight_getD _ _
  rw [hupdated]
  cases hstored : b.nonverifiable.consensusParams with
  | some params =>
    have hget : handler.getConsensusParams b aspen.activationHeight = params := by
      unfold UpgradesHandler.getConsensusParams
      rw [hstored]
      rfl
    have hheight : b.voteExtensionsEnableHeight = params.voteExtensionsEnableHeight.getD 0 := by
      unfold Base.voteExtensionsEnableHeight
      rw [hstored]
    rw [hget, hheight]
    split_ifs with hzero
    · exact Or.inr ⟨hzero, Nat.le_succ _⟩
    · exact Or.inl ⟨hzero, rfl⟩
  | none =>
    have hheight : b.voteExtensionsEnableHeight = 0 := by
      unfold Base.voteExtensionsEnableHeight
      rw [hstored]
    refine Or.inr ⟨hheight, ?_⟩
    split_ifs with hzero
    · exact Nat.le_succ _
    unfold UpgradesHandler.getConsensusParams at hzero ⊢
    rw [hstored] at hzero ⊢
    cases hparams : handler.consensusParamsFromCometbft aspen.activationHeight with
    | none =>
      rw [hparams] at hzero
      exact absurd rfl hzero
    | some params =>
      rw [hparams] at hzero
      exact (hlater aspen params haspen hparams).resolve_left hzero

/-- The end of a block does not change whether the block itself has vote extensions. -/
theorem postExecuteTransactions_enables (hlater : handler.EnablesLater) {u : Unit}
    (h : postExecuteTransactions handler post s = .ok u s')
    (hs : s.base.EnablesSince handler.upgrades) :
    s'.base.EnablesSince handler.upgrades ∧
      s'.base.voteExtensionsEnabled post.height = s.base.voteExtensionsEnabled post.height := by
  have hparams := postExecuteTransactions_params h
  cases hdue : handler.upgrades.upgradeActivatingAtHeight post.height with
  | none =>
    rw [hdue] at hparams
    have hheight : s'.base.voteExtensionsEnableHeight = s.base.voteExtensionsEnableHeight := by
      unfold Base.voteExtensionsEnableHeight
      rw [hparams]
      rfl
    unfold Base.EnablesSince Base.voteExtensionsEnabled
    rw [hheight]
    exact ⟨hs, rfl⟩
  | some aspen =>
    rw [hdue] at hparams
    have hheight : s'.base.voteExtensionsEnableHeight =
        (handler.updatedParams aspen s.base post.height).voteExtensionsEnableHeight.getD 0 := by
      unfold Base.voteExtensionsEnableHeight
      rw [hparams]
      rfl
    unfold Base.EnablesSince Base.voteExtensionsEnabled
    rw [hheight]
    obtain ⟨haspen, hactivation⟩ := Upgrades.upgradeActivatingAtHeight_eq_some.mp hdue
    rcases updatedParams_enableHeight hlater hdue s.base with ⟨-, hsame⟩ | ⟨hzero, hle⟩
    · rw [hsame]
      exact ⟨hs, rfl⟩
    · refine ⟨fun _ => ⟨aspen, haspen, hactivation ▸ hle⟩, ?_⟩
      have hnot : ¬(handler.updatedParams aspen s.base post.height).voteExtensionsEnableHeight.getD 0 <
          post.height := Nat.not_lt.mpr hle
      simp [hzero, hnot]

end

/-! ## The transactions of a block -/

section

variable [UpgradeCodec] [TransactionCodec] [BlockCodec] {handler : UpgradesHandler}
  {appHash : Bytes32} {data : BlockData} {expanded : ExpandedBlockData} {s s' : State}
  {results : List ExecTxResult}

/-- The transactions of a block were run on a state: what is left is the end of the block. -/
def RunsTransactions (handler : UpgradesHandler) (appHash : Bytes32) (data : BlockData)
    (expanded : ExpandedBlockData) (s : State) (results : List ExecTxResult) (s' : State) : Prop :=
  ∃ t, preExecuteTransactions handler.upgrades appHash data s = .ok expanded.upgradeChangeHashes t ∧
    finalizeTransactions expanded.userSubmittedTransactions t = (results, s')

theorem RunsTransactions.executeBlock (h : RunsTransactions handler appHash data expanded s results s')
    (hash : BlockHash) :
    executeBlock handler appHash { hash := hash, data := data, expanded := expanded } s =
      wrapErr "failed to run post execute transactions handler" (postExecuteTransactions handler
        (Block.postExecution { hash := hash, data := data, expanded := expanded } results)) s' := by
  obtain ⟨t, hpre, htxs⟩ := h
  have hrun : runTransactions expanded.userSubmittedTransactions t = .ok results s' :=
    runTransactions_eq_ok.mpr htxs.symm
  have hensure : ensureUpgradeChangeHashes expanded expanded.upgradeChangeHashes t = .ok () t := by
    unfold ensureUpgradeChangeHashes
    rw [ensure_eq_ok]
    exact ⟨rfl, rfl⟩
  unfold Sequencer.executeBlock
  rw [bind_of_ok (mapErr_eq_ok.mpr hpre), bind_of_ok hensure, bind_of_ok hrun]

omit [UpgradeCodec] [BlockCodec] in
/-- Transactions that all succeed have the results that they have in a finalized block. -/
theorem finalizeTransactions_of_executeTransactions {txs : List Transaction}
    (h : executeTransactions txs s = .ok results s') :
    finalizeTransactions txs s = (results, s') := by
  induction txs generalizing s results with
  | nil =>
    obtain ⟨rfl, rfl⟩ := pure_eq_ok.mp h
    rfl
  | cons tx rest ih =>
    simp only [executeTransactions, bind_eq_ok, pure_eq_ok] at h
    obtain ⟨result, t, htx, results', _, hrest, rfl, rfl⟩ := h
    have hfirst : finalizeTransaction tx s = (result, t) := by
      unfold executeOrFail at htx
      unfold finalizeTransaction
      rcases hexec : executeTransaction tx s with ⟨outcome, q⟩
      rw [hexec] at htx
      cases outcome with
      | ok events =>
        obtain ⟨rfl, rfl⟩ := EStateM.Result.ok.inj htx
        rfl
      | error e => cases htx
    rw [finalizeTransactions, hfirst]
    dsimp only
    rw [ih hrest]

omit [UpgradeCodec] [BlockCodec] in
/-- A validator goes on with a transaction only if no check stops it and it succeeds. -/
theorem checksAndTxExecution_process_ok {parkedMaxTxCount : ℕ} {tx : Transaction}
    {info : Proposal parkedMaxTxCount} {r : BreakOrContinue × Proposal parkedMaxTxCount}
    (hprocess : info.prepare = none) (h : info.checksAndTxExecution tx s = .ok r s') :
    ∃ result, executeOrFail tx s = .ok result s' ∧ r.1 = .continue ∧ r.2.prepare = none ∧
      r.2.executionResults = info.executionResults ++ [result] := by
  have hrefuse (message : String) : info.refuse message s ≠ .ok r s' := by
    unfold Proposal.refuse
    rw [hprocess]
    exact fun h => fail_eq_ok.mp h
  unfold Proposal.checksAndTxExecution at h
  rw [hprocess] at h
  dsimp only at h
  split_ifs at h
  · exact absurd h (hrefuse _)
  · exact absurd h (hrefuse _)
  · simp only [bind_eq_ok, pure_eq_ok] at h
    obtain ⟨result, t, hrun, info', _, hrecord, rfl, rfl⟩ := h
    obtain ⟨rfl, rfl⟩ := EStateM.Result.ok.inj hrun
    unfold executeOrFail
    cases hexec : executeTransaction tx s with
    | mk result t =>
      rw [hexec] at hrecord
      cases result with
      | error e =>
        rw [Proposal.record, hprocess] at hrecord
        exact (fail_eq_ok.mp hrecord).elim
      | ok events =>
        simp only [Proposal.record, bind_eq_ok, mapErr_eq_ok, lift_eq_ok, pure_eq_ok] at hrecord
        obtain ⟨c₁, _, ⟨-, rfl⟩, c₂, _, ⟨-, rfl⟩, rfl, rfl⟩ := hrecord
        refine ⟨{ events := events }, rfl, rfl, ?_, rfl⟩
        rw [hprocess]
        rfl

omit [UpgradeCodec] [BlockCodec] in
theorem executeAll_process_ok {parkedMaxTxCount : ℕ} {txs : List Transaction}
    {info info' : Proposal parkedMaxTxCount} (hprocess : info.prepare = none)
    (h : info.executeAll txs s = .ok info' s') :
    ∃ results, executeTransactions txs s = .ok results s' ∧
      info'.executionResults = info.executionResults ++ results := by
  induction txs generalizing info s with
  | nil =>
    obtain ⟨rfl, rfl⟩ := pure_eq_ok.mp h
    exact ⟨[], rfl, (List.append_nil _).symm⟩
  | cons tx rest ih =>
    rw [Proposal.executeAll, bind_eq_ok] at h
    obtain ⟨⟨flow, info₁⟩, t, hstep, hrest⟩ := h
    obtain ⟨result, htx, hflow, hnone, hresult⟩ := checksAndTxExecution_process_ok hprocess hstep
    dsimp only at hflow hnone hresult hrest
    rw [hflow] at hrest
    obtain ⟨results, hresults, heq⟩ := ih hnone hrest
    refine ⟨result :: results, ?_, ?_⟩
    · simp only [executeTransactions, bind_eq_ok, pure_eq_ok]
      exact ⟨result, t, htx, results, s', hresults, rfl, rfl⟩
    · rw [heq, hresult, List.append_assoc, List.singleton_append]

/-! ## Proposals of other nodes -/

section

variable [VoteCrypto]

omit [UpgradeCodec] [TransactionCodec] in
/-- The validation of an extended commit info writes nothing. -/
theorem validateExtendedCommitInfo_keeps (completion : Completion) (height : ℕ) (last : CommitInfo)
    (info : ExtendedCommitInfoWithMapping) :
    Keeps Eq (validateExtendedCommitInfo completion height last info) := by
  have haddress (address : AddressBytes) : Keeps Eq (tryBasePrefixed address) :=
    Keeps.bind (by simp) fun _ => by simp
  have hvote (chainId : String) (round : ℕ) (vote : ExtendedVoteInfo) (power : VotingPower) :
      Keeps Eq (validateVote chainId height round vote power) := by
    refine Keeps.bind ((haddress _).mapErr _) fun a => Keeps.bind (by simp) fun _ => ?_
    refine Keeps.bind (by simp) fun _ => Keeps.ite ?_ ?_
    · refine Keeps.bind ?_ fun _ => Keeps.bind (by simp) fun _ => Keeps.bind ?_ fun _ => by simp
      · exact Keeps.bind (by simp) fun _ => Keeps.bind (by simp) fun _ => by simp
      · exact Keeps.bind (by simp) fun _ => Keeps.bind (by simp) fun _ => by simp
    · exact Keeps.bind (by simp) fun _ => Keeps.bind (by simp) fun _ => by simp
  have hvotes (chainId : String) (round : ℕ) (votes : List ExtendedVoteInfo) (power : VotingPower) :
      Keeps Eq (validateVotes chainId height round votes power) := by
    induction votes generalizing power with
    | nil => exact keeps_pure _
    | cons vote rest ih => exact Keeps.bind (hvote _ _ _ _) fun next => ih next
  have hvalidate (i : ExtendedCommitInfo) : Keeps Eq (validateVoteExtensions height i) := by
    refine Keeps.bind (by simp) fun _ => Keeps.bind (hvotes _ _ _ _) fun _ => ?_
    exact Keeps.bind (by simp) fun _ => Keeps.bind (by simp) fun _ => by simp
  have hbase (i : ExtendedCommitInfo) : Keeps Eq (onBase (validateVoteExtensions height i)) :=
    (hvalidate i).zoom fun s t h => by rw [← h]
  have hmapping (ids : List ℕ) : Keeps Eq (getIdToCurrencyPair completion ids) :=
    Keeps.bind (by simp) fun _ => Keeps.bind (by simp) fun _ => by simp
  refine Keeps.ite (by simp) (Keeps.ite (by simp) ?_)
  refine Keeps.bind (by simp) fun _ => Keeps.bind ((hbase _).mapErr _) fun _ => ?_
  refine Keeps.bind (by simp) fun _ => Keeps.bind (by simp) fun ids => ?_
  exact Keeps.bind ((hmapping ids).mapErr _) fun _ => by simp

theorem executeProposal_sameResults (completion : Completion) (request : ProcessProposal) :
    Keeps State.SameResults
      (App.executeProposal handler appHash completion request expanded) := by
  have hvalidate : Keeps State.SameResults (App.validateProposal completion request expanded) := by
    unfold App.validateProposal
    cases expanded.extendedCommitInfo with
    | none => exact keeps_pure _
    | some info =>
      refine Keeps.bind (by simp) fun last => Keeps.mapErr (fun s => ?_) _
      have hsame := validateExtendedCommitInfo_keeps completion request.blockData.height last info.1 s
      rw [← hsame]
      exact refl_of State.SameResults s
  have hpre := preExecuteTransactions_sameResults handler.upgrades appHash request.blockData
  have hexec : Keeps State.SameResults
      (processProposalTxExecution expanded.userSubmittedTransactions .newUnlimitedCometbft) :=
    Keeps.bind (executeAll_sameResults _ _) fun _ => keeps_pure _
  refine Keeps.bind hvalidate fun _ => ?_
  refine Keeps.bind (hpre.mapErr _) fun _ => Keeps.bind (keeps_ensure _ _) fun _ => ?_
  refine Keeps.bind (hexec.mapErr _) fun _ => Keeps.bind (keeps_reads _) fun _ => ?_
  exact Keeps.bind (keeps_ensure _ _) fun _ => Keeps.bind (keeps_ensure _ _) fun _ => keeps_pure _

omit [UpgradeCodec] [TransactionCodec] in
theorem validateProposal_state {completion : Completion} {request : ProcessProposal} {u : Unit}
    (h : App.validateProposal completion request expanded s = .ok u s') : s' = s := by
  unfold App.validateProposal at h
  cases hinfo : expanded.extendedCommitInfo with
  | none =>
    rw [hinfo] at h
    exact (pure_eq_ok.mp h).2
  | some info =>
    rw [hinfo] at h
    simp only [bind_eq_ok, require_eq_ok, mapErr_eq_ok, and_assoc, exists_and_left,
      exists_eq_left] at h
    obtain ⟨last, -, hvalid⟩ := h
    exact ((validateExtendedCommitInfo_keeps completion _ _ _).of_ok hvalid).symm

/-- A proposal that is accepted has run all its transactions, behind the hashes that it carries. -/
theorem executeProposal_runs {completion : Completion} {request : ProcessProposal}
    (h : App.executeProposal handler appHash completion request expanded s = .ok results s') :
    RunsTransactions handler appHash request.blockData expanded s results s' := by
  simp only [App.executeProposal, bind_eq_ok, mapErr_eq_ok, ensureUpgradeChangeHashes, ensure_eq_ok,
    reads_eq_ok, pure_eq_ok, and_assoc, exists_and_left, exists_eq_left, processProposalTxExecution]
    at h
  obtain ⟨_, r, hvalid, hashes, t, hpre, rfl, _, _, q, ⟨info, _, hexec, rfl, rfl⟩, -, -, rfl,
    _, _, rfl⟩ := h
  obtain rfl := validateProposal_state hvalid
  obtain ⟨results, htxs, heq⟩ := executeAll_process_ok rfl hexec
  have hresults : info.executionResults = results := heq
  rw [hresults]
  exact ⟨t, hpre, finalizeTransactions_of_executeTransactions htxs⟩

end

end

end

end Astria.Sequencer
