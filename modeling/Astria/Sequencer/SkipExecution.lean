import Astria.Sequencer.NodeState
import Astria.Sequencer.TxResults

/-!
# Blocks that are not executed again

A node that has executed a block as a proposal does not execute it again in `finalize_block`
(`app/mod.rs`, lines 1228–1350).  What it relies on then is the state that earlier requests have left.

Specification: a node that was just started, `App.new`, and executes the block on the snapshot.

Results:
* `finalizeBlock_executed`, `finalizeBlock_unexecuted`: the two ways of `finalize_block`;
* `App.Sound.stages_iff`: they have the same response and the same snapshot;
* `NodeRun.sound`: whatever the order of the requests, what a node remembers is what the execution on its
  snapshot leads to;
* `NodeRun.finalizeBlock_agrees`: so a node finalizes a block like one that has not seen it before.
-/

namespace Astria.Sequencer

open Astria.Core Astria.Lib Exec

section

variable [ext : External] [UpgradeCodec] [TransactionCodec] [BlockCodec] [hash : RootHash]
  {handler : UpgradesHandler}

/-! ## Finalizing a block -/

/-- What is left of `finalize_block` when the block was executed and its prices were applied. -/
def Finishes (storage : Storage) (priceEvents : List Event) (s : State)
    (response : FinalizeBlockResponse) (batch : State) : Prop :=
  ∃ result height, s.base.ephemeral.postTransactionExecutionResult = some result ∧
    s.base.chain.blockHeight = some height ∧
    batch = s.putStorageVersionByHeight height storage.newVersion ∧
    response =
      { events := priceEvents ++ result.events
        txResults := result.txResults
        validatorUpdates := result.validatorUpdates
        consensusParamUpdates := result.consensusParamUpdates
        appHash := batch.rootHash }

section

variable {storage : Storage} {app app' : App} {request : FinalizeBlock}
  {response : FinalizeBlockResponse} {blockHash : BlockHash}

omit [UpgradeCodec] [TransactionCodec] [BlockCodec] ext in
theorem prepareCommit_eq_ok {appHash : Bytes32} :
    App.prepareCommit storage app = .ok appHash app' ↔
      ∃ height, app.state.base.chain.blockHeight = some height ∧
        let batch := app.state.putStorageVersionByHeight height storage.newVersion
        appHash = batch.rootHash ∧
          app' = { app with state := storage.latestSnapshot, writeBatch := some batch } := by
  simp only [App.prepareCommit, bind_eq_ok, reads_eq_ok, writes_eq_ok, require_eq_ok, pure_eq_ok,
    and_assoc, exists_and_left, exists_eq_left, exists_const]

/-- A block that was executed is not executed again. -/
theorem finalizeBlock_executed {cached : Option CachedProposal}
    (hhash : request.hash = some blockHash)
    (hstate : app.executionState = .executedBlock blockHash cached) :
    App.finalizeBlock handler storage request app = .ok response app' ↔
      ∃ expanded events s batch,
        App.expandBlockData handler.upgrades request.blockData.height request.txs
          (app.state.base.voteExtensionsEnabled request.blockData.height) = .ok expanded ∧
        App.applyPricesIfAny request expanded app.state = .ok events s ∧
        Finishes storage events s response batch ∧
        app' = { app with state := storage.latestSnapshot, writeBatch := some batch } := by
  have hcheck : checks (ExecutionState.checkIfExecutedBlock blockHash) app = .ok true app := by
    unfold checks
    rw [hstate, ExecutionState.checkIfExecutedBlock, if_pos rfl, ← hstate]
  have hsome : (require request.hash ["block hash is empty; this should not occur"] :
      NodeM BlockHash) app = .ok blockHash app := by
    rw [hhash]
    rfl
  have hskip (x : NodeM Unit) : App.unlessSkipped true x = pure () := if_pos rfl
  rw [App.finalizeBlock, bind_of_ok hsome, bind_of_ok hcheck, hskip]
  simp only [hskip, bind_eq_ok, pure_eq_ok, reads_eq_ok, require_eq_ok, mapErr_eq_ok, lift_eq_ok,
    prepareCommit_eq_ok, and_assoc, exists_and_left, exists_eq_left, exists_const, onState, zoom_eq_ok]
  constructor
  · rintro ⟨-, expanded, hexpand, events, _, ⟨s, hprices, rfl⟩, -, result, hresult, _, _,
      ⟨height, hheight, rfl, rfl⟩, rfl, rfl⟩
    exact ⟨expanded, hexpand, events, s, hprices, _, ⟨result, height, hresult, hheight, rfl, rfl⟩, rfl⟩
  · rintro ⟨expanded, hexpand, events, s, hprices, _, ⟨result, height, hresult, hheight, rfl, rfl⟩, rfl⟩
    exact ⟨trivial, expanded, hexpand, events, _, ⟨s, hprices, rfl⟩, trivial, result, hresult, _, _,
      ⟨height, hheight, rfl, rfl⟩, rfl, rfl⟩

omit hash in
/-- The execution of a block in `finalize_block`, on an application that has executed none. -/
theorem executeBlock_eq_ok {expanded : ExpandedBlockData} {u : Unit}
    (hhash : request.hash = some blockHash) (hunset : app.executionState = .unset) :
    App.executeBlock handler request expanded app = .ok u app' ↔
      ∃ s, executeBlock handler app.appHash
          { hash := blockHash, data := request.blockData, expanded := expanded } app.state = .ok () s ∧
        app' = { app with state := s, executionState := .executedBlock blockHash none } := by
  simp only [App.executeBlock, App.postExecuteTransactions, executeBlock, bind_eq_ok, reads_eq_ok,
    mapErr_eq_ok, require_eq_ok, hhash, transition, tryReads_eq_ok, writes_eq_ok, onState, zoom_eq_ok,
    and_assoc, exists_and_left, exists_eq_left]
  constructor
  · rintro ⟨hashes, _, ⟨s₁, hpre, rfl⟩, _, _, ⟨s₂, hensure, rfl⟩, results, _, ⟨s₃, hrun, rfl⟩, _, hsome, _, _,
      ⟨state, hset, rfl⟩, s, hpost, rfl⟩
    obtain rfl := Option.some.inj hsome
    dsimp only at hset
    rw [hunset] at hset
    obtain rfl := Except.ok.inj hset
    exact ⟨s, ⟨hashes, s₁, hpre, (), s₂, hensure, results, s₃, hrun, hpost⟩, rfl⟩
  · rintro ⟨s, ⟨hashes, s₁, hpre, _, s₂, hensure, results, s₃, hrun, hpost⟩, rfl⟩
    refine ⟨hashes, _, ⟨s₁, hpre, rfl⟩, (), _, ⟨s₂, hensure, rfl⟩, results, _, ⟨s₃, hrun, rfl⟩, blockHash,
      rfl, (), _, ⟨.executedBlock blockHash none, ?_, rfl⟩, s, hpost, rfl⟩
    rw [hunset]
    rfl

/-- A block that was not executed is executed on the snapshot, with its prices applied first. -/
theorem finalizeBlock_unexecuted (hhash : request.hash = some blockHash)
    (hnot : ∀ cached, app.executionState ≠ .executedBlock blockHash cached) :
    App.finalizeBlock handler storage request app = .ok response app' ↔
      ∃ expanded events s t batch,
        App.expandBlockData handler.upgrades request.blockData.height request.txs
          (storage.latestSnapshot.base.voteExtensionsEnabled request.blockData.height) = .ok expanded ∧
        App.applyPricesIfAny request expanded storage.latestSnapshot = .ok events s ∧
        executeBlock handler app.appHash
          { hash := blockHash, data := request.blockData, expanded := expanded } s = .ok () t ∧
        Finishes storage events t response batch ∧
        app' = { app with
          state := storage.latestSnapshot
          executionState := .executedBlock blockHash none
          writeBatch := some batch } := by
  have hcheck : checks (ExecutionState.checkIfExecutedBlock blockHash) app = .ok false { app with
      executionState := (app.executionState.checkIfExecutedBlock blockHash).2 } := by
    have hfalse : (app.executionState.checkIfExecutedBlock blockHash).1 = false := by
      by_contra hskip
      obtain ⟨cached, hstate, -⟩ := ExecutionState.checkIfExecutedBlock_eq_true
        (Prod.ext (Bool.eq_true_of_not_eq_false hskip) rfl :
          app.executionState.checkIfExecutedBlock blockHash = (true, _))
      exact hnot cached hstate
    unfold checks
    rw [hfalse]
  have hsome : (require request.hash ["block hash is empty; this should not occur"] :
      NodeM BlockHash) app = .ok blockHash app := by
    rw [hhash]
    rfl
  have hrun (x : NodeM Unit) : App.unlessSkipped false x = x := if_neg Bool.false_ne_true
  rw [App.finalizeBlock, bind_of_ok hsome, bind_of_ok hcheck, hrun]
  simp only [hrun, App.updateStateForNewRound, bind_eq_ok, pure_eq_ok, reads_eq_ok, writes_eq_ok,
    require_eq_ok, mapErr_eq_ok, lift_eq_ok, prepareCommit_eq_ok, and_assoc, exists_and_left,
    exists_eq_left, exists_const, onState, zoom_eq_ok]
  constructor
  · rintro ⟨expanded, hexpand, events, _, ⟨s, hprices, rfl⟩, _, app₁, hexec, result, hresult, _, _,
      ⟨height, hheight, rfl, rfl⟩, rfl, rfl⟩
    obtain ⟨t, hblock, rfl⟩ := (executeBlock_eq_ok hhash rfl).mp hexec
    exact ⟨expanded, hexpand, events, s, hprices, t, hblock, _, ⟨result, height, hresult, hheight, rfl, rfl⟩,
      rfl⟩
  · rintro ⟨expanded, hexpand, events, s, hprices, t, hexec, _,
      ⟨result, height, hresult, hheight, rfl, rfl⟩, rfl⟩
    exact ⟨expanded, hexpand, events, _, ⟨s, hprices, rfl⟩, (), _,
      (executeBlock_eq_ok hhash rfl).mpr ⟨t, hexec, rfl⟩, result, hresult, _, _,
      ⟨height, hheight, rfl, rfl⟩, rfl, rfl⟩

/-- `finalize_block` returns a response, and stages what the commit makes the next snapshot. -/
def Stages (finalized : EStateM.Result Report App FinalizeBlockResponse)
    (response : FinalizeBlockResponse) (snapshot : State) : Prop :=
  ∃ app batch, finalized = .ok response app ∧ app.writeBatch = some batch ∧ batch.commit = snapshot

/-- The prices of a block may be applied before its transactions or behind them: it carries none, or its
transactions leave the currency pairs. -/
def PricesApart (expanded : ExpandedBlockData) : Prop :=
  expanded.extendedCommitInfo = none ∨
    ∀ tx ∈ expanded.userSubmittedTransactions, LeavesCurrencyPairs tx

omit hash in
/-- A block whose execution fails has no result. -/
theorem executeBlock_error {appHash : Bytes32} {block : Block} {s s' : State} {e : Report}
    (h : executeBlock handler appHash block s = .error e s') : s.SameResults s' := by
  have hrun : Keeps State.SameResults (runTransactions block.expanded.userSubmittedTransactions) :=
    fun s => finalizeTransactions_sameResults _ s
  have hpre := (preExecuteTransactions_sameResults handler.upgrades appHash block.data).mapErr
    fun e => "failed to execute block" :: e
  have hensure (hashes : List Bytes32) :
      Keeps State.SameResults (ensureUpgradeChangeHashes block.expanded hashes) := keeps_ensure _ _
  simp only [executeBlock, bind_eq_error] at h
  rcases h with h | ⟨hashes, t, hok, h⟩
  · exact hpre.of_error h
  rcases h with h | ⟨_, t', hok', h⟩
  · exact trans_of State.SameResults (hpre.of_ok hok) ((hensure hashes).of_error h)
  have ht' := trans_of State.SameResults (hpre.of_ok hok) ((hensure hashes).of_ok hok')
  rcases h with h | ⟨results, u, hok'', h⟩
  · exact trans_of State.SameResults ht' (hrun.of_error h)
  obtain ⟨e', hpost, -⟩ := mapErr_eq_error.mp h
  exact trans_of State.SameResults (trans_of State.SameResults ht' (hrun.of_ok hok''))
    (postExecuteTransactions_error hpost)

/-- Whether a block of a storage is executed before its prices or behind them. -/
theorem Storage.Sound.executeBlock_comm (hstorage : storage.Sound handler)
    {expanded : ExpandedBlockData} (hexpand : storage.expand handler request.txs = .ok expanded)
    (hprices : PricesApart expanded) (hheight : request.blockData.height = storage.nextHeight)
    (blockHash : BlockHash) (events : List Event) (s : State) :
    let block : Block := { hash := blockHash, data := request.blockData, expanded := expanded }
    (∃ t, executeBlock handler storage.latestSnapshot.rootHash block storage.latestSnapshot = .ok () t ∧
        App.applyPricesIfAny request expanded t = .ok events s) ↔
      ∃ t, App.applyPricesIfAny request expanded storage.latestSnapshot = .ok events t ∧
        executeBlock handler storage.latestSnapshot.rootHash block t = .ok () s := by
  intro block
  cases hinfo : expanded.extendedCommitInfo with
  | none =>
    have hnone : App.applyPricesIfAny request expanded = pure [] := by
      unfold App.applyPricesIfAny
      rw [hinfo]
    simp only [hnone, pure_eq_ok]
    constructor
    · rintro ⟨t, hexec, rfl, rfl⟩
      exact ⟨_, ⟨rfl, rfl⟩, hexec⟩
    · rintro ⟨t, ⟨rfl, rfl⟩, hexec⟩
      exact ⟨s, hexec, rfl, rfl⟩
  | some info =>
    have henabled : storage.latestSnapshot.base.voteExtensionsEnabled storage.nextHeight = true := by
      by_contra hnot
      unfold Storage.expand at hexpand
      rw [Bool.eq_false_of_not_eq_true hnot] at hexpand
      rw [expandBlockData_withoutInfo hexpand] at hinfo
      cases hinfo
    have hdue : handler.upgrades.upgradeActivatingAtHeight block.data.height = none := by
      have hsame : block.data.height = storage.nextHeight := hheight
      rw [hsame]
      exact hstorage.enables.upgradeActivatingAtHeight henabled
    have hleaves : ∀ tx ∈ block.expanded.userSubmittedTransactions, LeavesCurrencyPairs tx :=
      hprices.resolve_left (by rw [hinfo]; simp)
    have hleavesOracle : LeavesOracle handler.upgrades block.data.height block.expanded := ⟨hdue, hleaves⟩
    exact executeBlock_comm_prices hleavesOracle _ request

omit [UpgradeCodec] [TransactionCodec] [BlockCodec] ext in
/-- The cached results of the transactions are not committed. -/
theorem finishes_putExecutionResults {results : List ExecTxResult} {events : List Event}
    {s snapshot : State} :
    (∃ batch, Finishes storage events (s.putExecutionResults results) response batch ∧
        batch.commit = snapshot) ↔
      ∃ batch, Finishes storage events s response batch ∧ batch.commit = snapshot := by
  constructor
  · rintro ⟨_, ⟨result, height, hresult, hheight, rfl, hresponse⟩, hcommit⟩
    exact ⟨s.putStorageVersionByHeight height storage.newVersion,
      ⟨result, height, hresult, hheight, rfl, hresponse⟩, hcommit⟩
  · rintro ⟨_, ⟨result, height, hresult, hheight, rfl, hresponse⟩, hcommit⟩
    exact ⟨(s.putExecutionResults results).putStorageVersionByHeight height storage.newVersion,
      ⟨result, height, hresult, hheight, rfl, hresponse⟩, hcommit⟩

omit [UpgradeCodec] [TransactionCodec] ext in
/-- Without a result there is nothing to finish. -/
theorem not_finishes {expanded : ExpandedBlockData} {events : List Event} {s t batch : State}
    (hnone : s.base.ephemeral.postTransactionExecutionResult = none)
    (hprices : App.applyPricesIfAny request expanded s = .ok events t) :
    ¬Finishes storage events t response batch := by
  rintro ⟨result, height, hresult, -⟩
  have hsame := (applyPricesIfAny_sameResults request expanded).of_ok hprices
  rw [hsame.result, hnone] at hresult
  cases hresult

/-- What is left of a block that was executed as a proposal is what is left of it on the snapshot. -/
theorem Storage.LeadsTo.finishes_iff (hstorage : storage.Sound handler) {expanded : ExpandedBlockData}
    (hexpand : storage.expand handler request.txs = .ok expanded)
    (hprices : PricesApart expanded) (hheight : request.blockData.height = storage.nextHeight)
    {s snapshot : State} (hs : storage.LeadsTo handler
      { hash := blockHash, data := request.blockData, expanded := expanded } s) :
    (∃ events t, App.applyPricesIfAny request expanded s = .ok events t ∧
        ∃ batch, Finishes storage events t response batch ∧ batch.commit = snapshot) ↔
      ∃ events t u, App.applyPricesIfAny request expanded storage.latestSnapshot = .ok events t ∧
        executeBlock handler storage.latestSnapshot.rootHash
          { hash := blockHash, data := request.blockData, expanded := expanded } t = .ok () u ∧
        ∃ batch, Finishes storage events u response batch ∧ batch.commit = snapshot := by
  generalize hblock : ({ hash := blockHash, data := request.blockData, expanded := expanded } : Block) =
    block at hs ⊢
  have hcomm {events : List Event} {u : State} :=
    hstorage.executeBlock_comm hexpand hprices hheight blockHash events u
  simp only [hblock] at hcomm
  -- the cached results do not matter
  have hcached : (∃ events t, App.applyPricesIfAny request expanded s = .ok events t ∧
        ∃ batch, Finishes storage events t response batch ∧ batch.commit = snapshot) ↔
      ∃ events t,
        App.applyPricesIfAny request expanded (storage.executed handler block) = .ok events t ∧
        ∃ batch, Finishes storage events t response batch ∧ batch.commit = snapshot := by
    rcases hs with rfl | ⟨results, rfl⟩
    · rfl
    have hblind : Oblivious (State.putExecutionResults results)
        (App.applyPricesIfAny request expanded) :=
      (usesOracle_applyPricesIfAny request expanded).oblivious (Base.putExecutionResults results)
    constructor
    · rintro ⟨events, t, happly, hfinishes⟩
      rw [hblind] at happly
      cases hrun : App.applyPricesIfAny request expanded (storage.executed handler block) with
      | error e t' =>
        rw [hrun] at happly
        cases happly
      | ok events' t' =>
        rw [hrun] at happly
        obtain ⟨rfl, rfl⟩ := EStateM.Result.ok.inj happly
        exact ⟨events', t', rfl, finishes_putExecutionResults.mp hfinishes⟩
    · rintro ⟨events, t, happly, hfinishes⟩
      exact ⟨events, _, hblind.ok happly, finishes_putExecutionResults.mpr hfinishes⟩
  rw [hcached]
  unfold Storage.executed
  cases hexec : executeBlock handler storage.latestSnapshot.rootHash block storage.latestSnapshot with
  | error e v =>
    have hnone : v.base.ephemeral.postTransactionExecutionResult = none :=
      (executeBlock_error hexec).result.trans hstorage.result
    constructor
    · rintro ⟨events, t, happly, batch, hfinishes, -⟩
      exact absurd hfinishes (not_finishes hnone happly)
    · rintro ⟨events, t, u, happly, hrun, -⟩
      obtain ⟨t', hok, -⟩ := hcomm.mpr ⟨t, happly, hrun⟩
      rw [hexec] at hok
      cases hok
  | ok _ v =>
    constructor
    · rintro ⟨events, u, happly, hfinishes⟩
      obtain ⟨t, hfirst, hrun⟩ := hcomm.mp ⟨v, hexec, happly⟩
      exact ⟨events, t, u, hfirst, hrun, hfinishes⟩
    · rintro ⟨events, t, u, happly, hrun, hfinishes⟩
      obtain ⟨t', hok, hlast⟩ := hcomm.mpr ⟨t, happly, hrun⟩
      obtain ⟨-, rfl⟩ := EStateM.Result.ok.inj (hexec.symm.trans hok)
      exact ⟨events, u, hlast, hfinishes⟩

/-- What is staged of a block that was not executed. -/
theorem stages_unexecuted (happHash : app.appHash = storage.latestSnapshot.rootHash)
    (hhash : request.hash = some blockHash)
    (hnot : ∀ cached, app.executionState ≠ .executedBlock blockHash cached) {snapshot : State} :
    Stages (App.finalizeBlock handler storage request app) response snapshot ↔
      ∃ expanded, App.expandBlockData handler.upgrades request.blockData.height request.txs
          (storage.latestSnapshot.base.voteExtensionsEnabled request.blockData.height) = .ok expanded ∧
        ∃ events t u, App.applyPricesIfAny request expanded storage.latestSnapshot = .ok events t ∧
          executeBlock handler storage.latestSnapshot.rootHash
            { hash := blockHash, data := request.blockData, expanded := expanded } t = .ok () u ∧
          ∃ batch, Finishes storage events u response batch ∧ batch.commit = snapshot := by
  unfold Stages
  simp only [finalizeBlock_unexecuted hhash hnot, happHash]
  constructor
  · rintro ⟨_, batch, ⟨expanded, events, t, u, _, hexpand, hprices, hexec, hfinishes, rfl⟩, hsome, hcommit⟩
    obtain rfl := Option.some.inj hsome
    exact ⟨expanded, hexpand, events, t, u, hprices, hexec, _, hfinishes, hcommit⟩
  · rintro ⟨expanded, hexpand, events, t, u, hprices, hexec, batch, hfinishes, hcommit⟩
    exact ⟨_, batch, ⟨expanded, events, t, u, batch, hexpand, hprices, hexec, hfinishes, rfl⟩, rfl, hcommit⟩

/-- What is staged of a block that was executed. -/
theorem stages_executed {cached : Option CachedProposal} (hhash : request.hash = some blockHash)
    (hstate : app.executionState = .executedBlock blockHash cached) {snapshot : State} :
    Stages (App.finalizeBlock handler storage request app) response snapshot ↔
      ∃ expanded, App.expandBlockData handler.upgrades request.blockData.height request.txs
          (app.state.base.voteExtensionsEnabled request.blockData.height) = .ok expanded ∧
        ∃ events t, App.applyPricesIfAny request expanded app.state = .ok events t ∧
          ∃ batch, Finishes storage events t response batch ∧ batch.commit = snapshot := by
  unfold Stages
  simp only [finalizeBlock_executed hhash hstate]
  constructor
  · rintro ⟨_, batch, ⟨expanded, events, t, _, hexpand, hprices, hfinishes, rfl⟩, hsome, hcommit⟩
    obtain rfl := Option.some.inj hsome
    exact ⟨expanded, hexpand, events, t, hprices, _, hfinishes, hcommit⟩
  · rintro ⟨expanded, hexpand, events, t, hprices, batch, hfinishes, hcommit⟩
    exact ⟨_, batch, ⟨expanded, events, t, batch, hexpand, hprices, hfinishes, rfl⟩, rfl, hcommit⟩

/-- A block that is finalized is staged. -/
theorem finalizeBlock_stages
    (h : App.finalizeBlock handler storage request app = .ok response app') :
    ∃ batch, app'.writeBatch = some batch ∧
      Stages (App.finalizeBlock handler storage request app) response batch.commit := by
  have hsome : ∃ batch, app'.writeBatch = some batch := by
    cases hhash : request.hash with
    | none => simp [App.finalizeBlock, hhash] at h
    | some blockHash =>
      by_cases hexecuted : ∃ cached, app.executionState = .executedBlock blockHash cached
      · obtain ⟨cached, hstate⟩ := hexecuted
        obtain ⟨expanded, events, s, batch, -, -, -, rfl⟩ := (finalizeBlock_executed hhash hstate).mp h
        exact ⟨batch, rfl⟩
      · obtain ⟨expanded, events, s, t, batch, -, -, -, -, rfl⟩ :=
          (finalizeBlock_unexecuted hhash fun cached hstate => hexecuted ⟨cached, hstate⟩).mp h
        exact ⟨batch, rfl⟩
  obtain ⟨batch, hbatch⟩ := hsome
  exact ⟨batch, hbatch, app', batch, h, hbatch, rfl⟩

/-- A block without a hash is not finalized. -/
theorem not_stages_of_hash_eq_none (hhash : request.hash = none) {snapshot : State} :
    ¬Stages (App.finalizeBlock handler storage request app) response snapshot := by
  rintro ⟨app', batch, hrun, -⟩
  simp [App.finalizeBlock, hhash] at hrun

/-- The hash of a block tells it from the other proposals of these requests. -/
def Identifies {parkedMaxTxCount : ℕ} (requests : List (Request parkedMaxTxCount))
    (block : FinalizeBlock) : Prop :=
  ∀ request completion, .processProposal request completion ∈ requests → request.hash = block.hash →
    request.txs = block.txs ∧ request.blockData = block.blockData

/-- A block is finalized as by a node that was just started, unless one is waiting to be committed. -/
theorem App.Sound.stages_iff {parkedMaxTxCount : ℕ}
    {requests : List (Request parkedMaxTxCount)} (hstorage : storage.Sound handler)
    (h : App.Sound handler requests storage app) (hidentifies : Identifies requests request)
    (hprices : ∀ expanded, storage.expand handler request.txs = .ok expanded → PricesApart expanded) :
    (∀ response snapshot, Stages (App.finalizeBlock handler storage request app) response snapshot ↔
        Stages (App.finalizeBlock handler storage request (App.new storage)) response snapshot) ∨
      app.writeBatch.isSome ∧ ∀ response snapshot,
        ¬Stages (App.finalizeBlock handler storage request app) response snapshot := by
  cases hhash : request.hash with
  | none =>
    exact Or.inl fun response snapshot => iff_of_false (not_stages_of_hash_eq_none hhash)
      (not_stages_of_hash_eq_none hhash)
  | some blockHash =>
    have hnew (response : FinalizeBlockResponse) (snapshot : State) :
        Stages (App.finalizeBlock handler storage request (App.new storage)) response snapshot ↔ _ :=
      stages_unexecuted rfl hhash fun cached h => by cases h
    by_cases hexecuted : ∃ cached, app.executionState = .executedBlock blockHash cached
    · obtain ⟨cached, hstate⟩ := hexecuted
      have hremembers := h.remembers
      rw [hstate] at hremembers
      rcases hremembers with ⟨proposal, completion, expanded, hmem, hhash', hheight, hexpand, hleads⟩ |
        ⟨htaken, hsome⟩
      · left
        intro response snapshot
        obtain ⟨htxs, hdata⟩ := hidentifies proposal completion hmem (hhash'.trans hhash.symm)
        rw [htxs] at hexpand
        rw [hdata] at hheight
        have hblock : proposal.block blockHash expanded =
            { hash := blockHash, data := request.blockData, expanded := expanded } := by
          rw [← hdata]
          rfl
        rw [hblock] at hleads
        have hsnapshot : App.expandBlockData handler.upgrades request.blockData.height request.txs
            (storage.latestSnapshot.base.voteExtensionsEnabled request.blockData.height) =
              .ok expanded := by
          rw [hheight]
          exact hexpand
        rw [hnew, stages_executed hhash hstate, h.expand_eq hstorage hheight]
        simp only [hexpand, hsnapshot, Except.ok.injEq, exists_eq_left']
        exact hleads.finishes_iff hstorage hexpand (hprices expanded hexpand) hheight
      · right
        refine ⟨hsome, fun response snapshot hstages => ?_⟩
        obtain ⟨expanded, -, events, t, happly, batch, hfinishes, -⟩ :=
          (stages_executed hhash hstate).mp hstages
        rw [htaken] at happly
        exact not_finishes hstorage.result happly hfinishes
    · left
      intro response snapshot
      rw [hnew, stages_unexecuted h.appHash hhash fun cached hstate => hexecuted ⟨cached, hstate⟩]

/-! ## Runs of a node -/

omit [UpgradeCodec] [TransactionCodec] [BlockCodec] ext in
/-- What is staged has the vote extensions of the state that it is made of. -/
theorem Finishes.enablesSince {events : List Event} {s batch : State}
    (h : Finishes storage events s response batch) (hs : s.base.EnablesSince handler.upgrades) :
    batch.base.EnablesSince handler.upgrades := by
  obtain ⟨result, height, -, -, rfl, -⟩ := h
  exact hs

/-- A block is finalized, and the application waits for the commit. -/
theorem App.Sound.finalizeBlock {parkedMaxTxCount : ℕ} {requests : List (Request parkedMaxTxCount)}
    (hlater : handler.EnablesLater) (hstorage : storage.Sound handler)
    (h : App.Sound handler requests storage app)
    (hrun : App.finalizeBlock handler storage request app = .ok response app') :
    App.Sound handler requests storage app' := by
  cases hhash : request.hash with
  | none => simp [App.finalizeBlock, hhash] at hrun
  | some blockHash =>
    have hprices {expanded : ExpandedBlockData} {events : List Event} {s t : State}
        (happly : App.applyPricesIfAny request expanded s = .ok events t)
        (hs : s.base.EnablesSince handler.upgrades) : t.base.EnablesSince handler.upgrades :=
      Base.SameResults.enablesSince ((applyPricesIfAny_sameResults request expanded).of_ok happly) hs
    have htaken {batch : State} {state : ExecutionState} {cached : Option CachedProposal}
        (hstate : state = .executedBlock blockHash cached)
        (hbatch : batch.base.EnablesSince handler.upgrades) :
        App.Sound handler requests storage
          { app with
            state := storage.latestSnapshot
            executionState := state
            writeBatch := some batch } := by
      refine ⟨h.appHash, refl_of (State.SameEnabled handler.upgrades storage.nextHeight) _, ?_, ?_⟩
      · intro batch' hmem
        obtain rfl := Option.some.inj hmem
        exact hbatch
      · rw [hstate]
        exact Or.inr ⟨rfl, rfl⟩
    by_cases hexecuted : ∃ cached, app.executionState = .executedBlock blockHash cached
    · obtain ⟨cached, hstate⟩ := hexecuted
      obtain ⟨expanded, events, s, batch, -, happly, hfinishes, rfl⟩ :=
        (finalizeBlock_executed hhash hstate).mp hrun
      exact htaken hstate (hfinishes.enablesSince (hprices happly (h.enables hstorage.enables).1))
    · obtain ⟨expanded, events, s, t, batch, -, happly, hexec, hfinishes, rfl⟩ :=
        (finalizeBlock_unexecuted hhash fun cached hstate => hexecuted ⟨cached, hstate⟩).mp hrun
      have ht := ((executeBlock_sameEnabled hlater _ _).of_ok hexec (hprices happly hstorage.enables)).1
      exact htaken rfl (hfinishes.enablesSince ht)

omit [UpgradeCodec] [TransactionCodec] [BlockCodec] ext in
/-- The commit makes what is staged the next snapshot, and starts over from it. -/
theorem commit_eq_ok {storage' : Storage} :
    App.commit storage app = .ok storage' app' ↔
      ∃ batch, app.writeBatch = some batch ∧
        storage' = { latestSnapshot := batch.commit, latestVersion := storage.newVersion } ∧
        app' = App.new storage' := by
  simp only [App.commit, App.updateStateForNewRound, App.new, bind_eq_ok, reads_eq_ok, require_eq_ok,
    writes_eq_ok, pure_eq_ok, and_assoc, exists_and_left, exists_eq_left, exists_const]
  refine exists_congr fun batch => and_congr_right fun _ => and_congr_right ?_
  rintro rfl
  rfl

theorem App.Sound.commit {parkedMaxTxCount : ℕ} {requests : List (Request parkedMaxTxCount)}
    (h : App.Sound handler requests storage app) {storage' : Storage}
    (hrun : App.commit storage app = .ok storage' app') :
    storage'.Sound handler ∧ App.Sound handler requests storage' app' := by
  obtain ⟨batch, hbatch, rfl, rfl⟩ := commit_eq_ok.mp hrun
  exact ⟨⟨rfl, h.staged batch hbatch⟩, App.Sound.new⟩

omit [UpgradeCodec] [TransactionCodec] [BlockCodec] in
/-- What the genesis writes, and how it is committed. -/
theorem Consensus.initChain_eq_ok {genesis : InitChain} {storage' : Storage}
    (h : Consensus.initChain storage genesis app = .ok storage' app') :
    ∃ b height, Sequencer.initChain genesis.genesisState genesis.validators genesis.chainId
        app.state.base = .ok () b ∧ b.chain.blockHeight = some height ∧
      storage' =
        { latestSnapshot :=
            (State.putStorageVersionByHeight height storage.newVersion
              { base := b, oracle := app.state.oracle }).commit
          latestVersion := storage.newVersion } ∧
      app' = App.new storage' := by
  obtain ⟨_, app₁, hensure, hrest⟩ := bind_eq_ok.mp h
  obtain ⟨-, rfl⟩ := ensure_eq_ok.mp hensure
  obtain ⟨appHash, app₂, hinit, hcommit⟩ := bind_eq_ok.mp hrest
  obtain ⟨_, app₃, hstate, hprepare⟩ := bind_eq_ok.mp (mapErr_eq_ok.mp hinit)
  obtain ⟨t, ht, rfl⟩ := zoom_eq_ok.mp hstate
  obtain ⟨b, hb, rfl⟩ := onBase_eq_ok.mp ht
  obtain ⟨height, hheight, rfl, rfl⟩ := prepareCommit_eq_ok.mp (mapErr_eq_ok.mp hprepare)
  obtain ⟨batch, hbatch, rfl, rfl⟩ := commit_eq_ok.mp (mapErr_eq_ok.mp hcommit)
  obtain rfl := Option.some.inj hbatch
  exact ⟨b, height, hb, hheight, rfl, rfl⟩

omit [UpgradeCodec] [TransactionCodec] [BlockCodec] in
/-- After the genesis vote extensions are not enabled. -/
theorem Consensus.initChain_sound (handler : UpgradesHandler) {genesis : InitChain} {storage' : Storage}
    (h : Consensus.initChain Storage.empty genesis (App.new Storage.empty) = .ok storage' app') :
    storage'.Sound handler ∧ app' = App.new storage' := by
  obtain ⟨b, height, hinit, -, rfl, rfl⟩ := Consensus.initChain_eq_ok h
  have hwrites : GenesisWrites Base.SameResults := by
    constructor <;> intros <;> exact ⟨rfl, rfl, rfl⟩
  have hsame := (initChain_keeps hwrites genesis.genesisState genesis.validators genesis.chainId).of_ok hinit
  have hempty : Storage.empty.latestSnapshot.base.EnablesSince handler.upgrades :=
    fun hne => absurd rfl hne
  exact ⟨⟨rfl, hsame.enablesSince hempty⟩, rfl⟩

section

variable [VoteCrypto] {parkedMaxTxCount : ℕ} {requests : List (Request parkedMaxTxCount)}
  {genesis : InitChain} {node : Node}

omit [VoteCrypto] in
/-- A node goes on after a request, or starts over. -/
theorem Node.orRestart_sound {α : Type} {result : EStateM.Result Report App α}
    (hstorage : node.storage.Sound handler)
    (hok : ∀ a app, result = .ok a app → App.Sound handler requests node.storage app) :
    (node.orRestart result).storage.Sound handler ∧
      App.Sound handler requests (node.orRestart result).storage (node.orRestart result).app := by
  cases result with
  | ok a app => exact ⟨hstorage, hok a app rfl⟩
  | error e app => exact ⟨hstorage, App.Sound.new⟩

/-- What a node remembers is what the execution on its snapshot leads to, after any requests in any
order. -/
theorem NodeRun.sound (hlaws : DataItem.Laws) (hlater : handler.EnablesLater)
    (h : NodeRun handler genesis requests node) :
    node.storage.Sound handler ∧ App.Sound handler requests node.storage node.app := by
  induction h with
  | genesis hinit =>
    obtain ⟨hstorage, rfl⟩ := Consensus.initChain_sound handler hinit
    exact ⟨hstorage, App.Sound.new⟩
  | @handle requests node request _ hlegal ih =>
    obtain ⟨hstorage, happ⟩ := ih
    have hmono : App.Sound handler (requests ++ [request]) node.storage node.app :=
      happ.mono (List.subset_append_left requests [request])
    have hmem : request ∈ requests ++ [request] := by simp
    cases request with
    | prepareProposal request mempool sort completion =>
      obtain ⟨hheight, hdecodes⟩ := hlegal
      exact Node.orRestart_sound hstorage fun proposal app' hrun =>
        hmono.prepareProposal hlaws hstorage hheight hdecodes hrun
    | processProposal request completion =>
      exact ⟨hstorage, hmono.processProposal hlater hstorage hmem hlegal⟩
    | finalizeBlock request =>
      exact Node.orRestart_sound hstorage fun response app' hrun =>
        hmono.finalizeBlock hlater hstorage hrun
    | commit =>
      unfold Node.handle
      cases hrun : App.commit node.storage node.app with
      | ok storage app' =>
        dsimp only
        exact hmono.commit hrun
      | error e app' => exact ⟨hstorage, App.Sound.new⟩
    | restart => exact ⟨hstorage, App.Sound.new⟩

/-- A node finalizes a block like a node that was just started on the same storage: whatever it was asked
before, it returns the same response, and stages the same snapshot. -/
theorem NodeRun.finalizeBlock_agrees (hlaws : DataItem.Laws) (hlater : handler.EnablesLater)
    (h : NodeRun handler genesis requests node) (hcommitted : node.app.writeBatch = none)
    {block : FinalizeBlock} (hidentifies : Identifies requests block)
    (hprices : ∀ expanded, node.storage.expand handler block.txs = .ok expanded → PricesApart expanded)
    (response : FinalizeBlockResponse) (snapshot : State) :
    Stages (App.finalizeBlock handler node.storage block node.app) response snapshot ↔
      Stages (App.finalizeBlock handler node.storage block (App.new node.storage)) response
        snapshot := by
  obtain ⟨hstorage, happ⟩ := h.sound hlaws hlater
  rcases happ.stages_iff hstorage hidentifies hprices with hiff | ⟨hsome, -⟩
  · exact hiff response snapshot
  · rw [hcommitted] at hsome
    cases hsome

end

end

end

/-! ## A node that has processed a proposal -/

namespace TestNode

open TestUtils TestProposal

/-! ### The items of a block -/

theorem readVarint_varint (fuel : ℕ) {x : ℕ} (hx : x < 128 ^ (fuel + 1)) (rest : Bytes) :
    readVarint (fuel + 1) (varint (fuel + 1) x ++ rest) = some (x, rest) := by
  induction fuel generalizing x with
  | zero =>
    have hlt : x < 128 := by omega
    have hbyte : (UInt8.ofNat x).toNat = x := by
      rw [UInt8.toNat_ofNat']
      omega
    rw [varint, if_pos hlt, List.singleton_append, readVarint, hbyte, if_pos hlt]
  | succ fuel ih =>
    rw [varint]
    split_ifs with hlt
    · have hbyte : (UInt8.ofNat x).toNat = x := by
        rw [UInt8.toNat_ofNat']
        omega
      rw [List.singleton_append, readVarint, hbyte, if_pos hlt]
    · have hbyte : (UInt8.ofNat (x % 128 + 128)).toNat = x % 128 + 128 := by
        rw [UInt8.toNat_ofNat']
        omega
      have hdiv : x / 128 < 128 ^ (fuel + 1) := by
        rw [Nat.div_lt_iff_lt_mul (by decide), ← pow_succ]
        exact hx
      rw [List.cons_append, readVarint, hbyte, if_neg (by omega), ih hdiv]
      change some (x / 128 * 128 + (x % 128 + 128 - 128), rest) = _
      rw [Nat.add_sub_cancel, Nat.div_add_mod']

/-- The first message of a sequence of fields is read. -/
theorem readFields_messageField (fuel : ℕ) {number : ℕ} (hnumber : number ≤ 15) {message : Bytes}
    (hmessage : message.length ≤ u64Max) (rest : Bytes) :
    readFields (fuel + 1) (messageField number message ++ rest) =
      (readFields fuel rest).map fun fields => (number, .bytes message) :: fields := by
  have hbytes : messageField number message ++ rest ≠ [] := by
    unfold messageField varint
    split_ifs <;> simp
  have htag : 8 * number + 2 < 128 ^ (9 + 1) := by omega
  have hlength : message.length < 128 ^ (9 + 1) := hmessage.trans_lt (by decide)
  have hsplit : messageField number message ++ rest =
      varint 10 (8 * number + 2) ++ (varint 10 message.length ++ (message ++ rest)) := by
    simp [messageField]
  have hmod : (8 * number + 2) % 8 = 2 := by omega
  have hdiv : (8 * number + 2) / 8 = number := by omega
  have hle : message.length ≤ (message ++ rest).length := by simp
  rw [readFields.eq_3 _ _ hbytes, hsplit, readVarint_varint 9 htag]
  dsimp only [Option.bind_eq_bind, Option.bind_some]
  rw [readVarint_varint 9 hlength]
  dsimp only [Option.bind_some]
  rw [hmod, hdiv, if_neg (by decide), if_pos ⟨rfl, hle⟩, List.drop_left, List.take_left]
  cases readFields fuel rest <;> rfl

theorem length_messageField_pos (number : ℕ) (message : Bytes) :
    0 < (messageField number message).length := by
  unfold messageField varint
  split_ifs <;> simp

theorem length_le_messageField (number : ℕ) (message : Bytes) :
    message.length ≤ (messageField number message).length := by
  unfold messageField
  rw [List.length_append]
  exact Nat.le_add_left _ _

theorem readFields_flatMap {messages : List Bytes} (fuel : ℕ)
    (hfuel : (messages.flatMap (messageField 1)).length ≤ fuel)
    (hsize : ∀ message ∈ messages, message.length ≤ u64Max) :
    readFields fuel (messages.flatMap (messageField 1)) =
      some (messages.map fun message => (1, .bytes message)) := by
  induction messages generalizing fuel with
  | nil => cases fuel <;> rfl
  | cons message rest ih =>
    obtain ⟨hmessage, hrest⟩ := List.forall_mem_cons.mp hsize
    have hpos := length_messageField_pos 1 message
    rw [List.flatMap_cons, List.length_append] at hfuel
    obtain ⟨fuel, rfl⟩ : ∃ k, fuel = k + 1 := ⟨fuel - 1, by omega⟩
    rw [List.flatMap_cons, readFields_messageField fuel (by decide) hmessage, ih fuel (by omega) hrest]
    rfl

theorem length_le_flatMap {messages : List Bytes} {message : Bytes} (h : message ∈ messages) :
    (messageField 1 message).length ≤ (messages.flatMap (messageField 1)).length := by
  rw [List.length_flatMap]
  exact List.le_sum_of_mem (List.mem_map_of_mem h)

theorem readHashes_flatMap {hashes : List Bytes}
    (hsize : (hashes.flatMap (messageField 1)).length ≤ u64Max) :
    TestItems.readHashes (hashes.flatMap (messageField 1)) = some hashes := by
  have hfold {f : List Bytes → ℕ × FieldValue → Option (List Bytes)}
      (hf : ∀ acc hash, f acc (1, .bytes hash) = some (acc ++ [hash])) :
      ∀ acc, (hashes.map fun hash => (1, FieldValue.bytes hash)).foldlM f acc = some (acc ++ hashes) := by
    clear hsize
    induction hashes with
    | nil => intro acc; simp
    | cons hash rest ih =>
      intro acc
      rw [List.map_cons, List.foldlM_cons, hf]
      exact (ih (acc ++ [hash])).trans (by simp)
  unfold TestItems.readHashes
  rw [readFields_flatMap _ (Nat.le_refl _) fun hash hmem =>
    ((length_le_messageField 1 hash).trans (length_le_flatMap hmem)).trans hsize]
  exact hfold (fun _ _ => rfl) []

/-- The messages of data items are read back. -/
theorem readDataItem_encodeDataItem (raw : RawDataItem) (hsize : (encodeDataItem raw).length ≤ u64Max) :
    TestItems.readDataItem (encodeDataItem raw) = some (some raw) := by
  have hfields {number : ℕ} (hnumber : number ≤ 15) (message : Bytes)
      (hlength : (messageField number message).length ≤ u64Max) :
      readFields (messageField number message).length (messageField number message) =
        some [(number, .bytes message)] := by
    have hpos := length_messageField_pos number message
    have hread := readFields_messageField ((messageField number message).length - 1) hnumber
      ((length_le_messageField number message).trans hlength) []
    rw [Nat.sub_add_cancel hpos, List.append_nil] at hread
    rw [hread]
    cases (messageField number message).length - 1 <;> rfl
  unfold TestItems.readDataItem
  cases raw with
  | rollupTransactionsRoot root =>
    rw [encodeDataItem, hfields (by decide) _ hsize]
    rfl
  | rollupIdsRoot root =>
    rw [encodeDataItem, hfields (by decide) _ hsize]
    rfl
  | upgradeChangeHashes hashes =>
    have hhashes := readHashes_flatMap ((length_le_messageField 3 _).trans hsize)
    rw [encodeDataItem, hfields (by decide) _ hsize]
    change ((TestItems.readHashes _).map _).bind _ = _
    rw [hhashes]
    rfl
  | extendedCommitInfo info =>
    rw [encodeDataItem, hfields (by decide) _ hsize]
    rfl

/-! ### A block that is proposed and decided -/

/-- The transaction of the block, with some rollup data of alice. -/
def transaction : Transaction := (pooled [1, 2, 3] 0).signedTx

/-- The message of an extended commit info, the mapping aside: it is empty here. -/
def readInfo (bytes : Bytes) : Option RawExtendedCommitInfoWithMapping := do
  let fields ← readFields bytes.length bytes
  fields.foldlM (fun (info : RawExtendedCommitInfoWithMapping) field =>
    match field with
    | (1, .bytes commitInfo) => some { info with extendedCommitInfo := some commitInfo }
    | _ => none) { extendedCommitInfo := none, idToCurrencyPair := [] }

/-- The messages of data items are read as protobuf has them, and of the transactions and the commit infos
those of the block. -/
scoped instance : BlockCodec :=
  { (inferInstance : BlockCodec) with
    decodeDataItem := TestItems.readDataItem
    encodeInfo := fun info => (info.extendedCommitInfo.map (messageField 1)).getD []
    decodeInfo := readInfo
    extendedCommitInfoFromRaw := fun bytes =>
      if bytes = [] then some { round := 0, votes := [] } else none
    decodeOracleVoteExtension := TestVotes.readPrices
    decodeTransaction := fun bytes =>
      if bytes = encodeTransaction transaction then some transaction else none }

/-- No root is compared here. -/
scoped instance : RootHash where
  rootHash _ := List.Vector.replicate 32 0

set_option maxRecDepth 10000 in
theorem laws : DataItem.Laws := by
  refine ⟨TestProposal.encodesRoots, readDataItem_encodeDataItem, fun tx hashes htx hitem => ?_⟩
  have hencoded : encodeTransaction tx = encodeTransaction transaction := by
    by_contra hne
    have hnone : BlockCodec.decodeTransaction (encodeTransaction tx) = none := if_neg hne
    cases hnone.symm.trans htx
  have hfails : (DataItem.decode 2 (encodeTransaction transaction)).isOk = false := by decide +kernel
  have hdecode : DataItem.decode 2 (encodeTransaction transaction) =
      .ok (.upgradeChangeHashes hashes) := hencoded ▸ hitem
  rw [hdecode] at hfails
  cases hfails

/-- The genesis with two validators. -/
def genesisRequest : InitChain where
  genesisState := testGenesisState
  validators := testValidators
  chainId := "test"

/-- The node after the genesis. -/
def started : Node :=
  match Consensus.initChain Storage.empty genesisRequest (App.new Storage.empty) with
  | .ok storage app => { storage := storage, app := app }
  | .error _ _ => Node.start Storage.empty

/-- A block with the transaction, as CometBFT sends it with a proposal. -/
def proposal : ProcessProposal where
  hash := some (List.Vector.replicate 32 1)
  txs := (generateRollupDatasCommitment [transaction] []).items false ++ [encodeTransaction transaction]
  proposedLastCommit := none
  blockData := TestProposal.request.blockData

/-- It is decided. -/
def decidedBlock : FinalizeBlock where
  hash := proposal.hash
  txs := proposal.txs
  blockData := proposal.blockData

def completion : Completion := { order := id, perm := List.Perm.refl }

/-- The request to process the proposal. -/
def processes : Request 10 := .processProposal proposal completion

/-- The node after the proposal. -/
def processed : Node := started.handle withoutUpgrades processes

set_option maxRecDepth 10000 in
theorem started_run [BlockCodec] : NodeRun withoutUpgrades genesisRequest ([] : List (Request 10)) started := by
  have hok : isOk (Consensus.initChain Storage.empty genesisRequest (App.new Storage.empty)) = true := by
    decide +kernel
  unfold started
  cases hrun : Consensus.initChain Storage.empty genesisRequest (App.new Storage.empty) with
  | ok storage app => exact .genesis hrun
  | error e app =>
    rw [hrun] at hok
    cases hok

set_option maxRecDepth 10000 in
theorem processed_run : NodeRun withoutUpgrades genesisRequest [processes] processed := by
  have hlegal : proposal.blockData.height = started.storage.nextHeight := by decide +kernel
  exact .handle processes started_run hlegal

theorem enablesLater : withoutUpgrades.EnablesLater := fun aspen _ h => by cases h

/-- Without the upgrade there are no prices. -/
theorem pricesApart {height : ℕ} {txs : List Bytes} {withExtendedCommitInfo : Bool}
    {expanded : ExpandedBlockData}
    (h : App.expandBlockData withoutUpgrades.upgrades height txs withExtendedCommitInfo =
      .ok expanded) : PricesApart expanded := by
  have hwithout : App.expandBlockData withoutUpgrades.upgrades height txs false = .ok expanded := h
  exact Or.inl (expandBlockData_withoutInfo hwithout)

set_option maxRecDepth 10000 in
/-- The node has executed the block as a proposal, and finalizes it like one that was just started. -/
theorem finalizeBlock_agrees_processed :
    processed.app.executionState = .executedBlock (List.Vector.replicate 32 1) none ∧
      ∃ response snapshot,
        Stages (App.finalizeBlock withoutUpgrades processed.storage decidedBlock processed.app) response
          snapshot ∧
        Stages (App.finalizeBlock withoutUpgrades processed.storage decidedBlock
          (App.new processed.storage)) response snapshot := by
  have hexecuted : processed.app.executionState = .executedBlock (List.Vector.replicate 32 1) none := by
    decide +kernel
  have hok : isOk (App.finalizeBlock withoutUpgrades processed.storage decidedBlock processed.app) =
      true := by decide +kernel
  have hcommitted : processed.app.writeBatch.isNone = true := by decide +kernel
  have hidentifies : Identifies [processes] decidedBlock := by
    intro request completion' hmem _
    cases List.mem_singleton.mp hmem
    exact ⟨rfl, rfl⟩
  refine ⟨hexecuted, ?_⟩
  cases hrun : App.finalizeBlock withoutUpgrades processed.storage decidedBlock processed.app with
  | error e app' =>
    rw [hrun] at hok
    cases hok
  | ok response app' =>
    obtain ⟨batch, -, hstages⟩ := finalizeBlock_stages hrun
    have hnew := (processed_run.finalizeBlock_agrees laws enablesLater
      (Option.isNone_iff_eq_none.mp hcommitted) hidentifies (fun _ => pricesApart) response
      batch.commit).mp hstages
    exact ⟨response, batch.commit, hrun ▸ hstages, hnew⟩

end TestNode

end Astria.Sequencer
