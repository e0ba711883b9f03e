import Astria.Sequencer.ProposedData
import Astria.Sequencer.Reordering

/-!
# What a node remembers

Between the requests of consensus a node keeps the state that the last proposal has led to, and the
execution state says what that was (`app/mod.rs`, lines 342–681, `app/execution_state.rs`): a proposal that
it has prepared, or a block that it has executed.

Results:
* `App.postExecuteTransactions_final`: where the end of a block stops;
* `App.Sound.prepareProposal`: a proposal that was prepared is remembered with the state of its transactions
  on the snapshot;
* `App.Sound.processProposal`: a proposal that was processed is remembered with the state of its execution on
  the snapshot, whether it was prepared before or not.
-/

namespace Astria.Sequencer

open Astria.Core Astria.Lib Exec

/-! ## Where vote extensions are enabled -/

/-- Vote extensions stay enabled where they are at a height, and are not enabled before the upgrade. -/
def State.SameEnabled (upgrades : Upgrades) (height : ℕ) (s s' : State) : Prop :=
  s.base.EnablesSince upgrades →
    s'.base.EnablesSince upgrades ∧
      s'.base.voteExtensionsEnabled height = s.base.voteExtensionsEnabled height

instance (upgrades : Upgrades) (height : ℕ) : IsPreorder State (State.SameEnabled upgrades height) where
  refl _ h := ⟨h, rfl⟩
  trans _ _ _ h h' hs := by
    obtain ⟨ht, heq⟩ := h hs
    obtain ⟨hu, heq'⟩ := h' ht
    exact ⟨hu, heq'.trans heq⟩

theorem State.SameResults.sameEnabled {s s' : State} (h : s.SameResults s') (upgrades : Upgrades)
    (height : ℕ) : s.SameEnabled upgrades height s' :=
  fun hs => ⟨Base.SameResults.enablesSince h hs, Base.SameResults.enabled h height⟩

/-- A height with vote extensions is later than the upgrade. -/
theorem Base.EnablesSince.later {upgrades : Upgrades} {b : Base} (h : b.EnablesSince upgrades)
    {height : ℕ} (henabled : b.voteExtensionsEnabled height = true) :
    ∃ aspen, upgrades.aspen = some aspen ∧ aspen.activationHeight < height := by
  unfold Base.voteExtensionsEnabled at henabled
  obtain ⟨hne, hlt⟩ := Bool.and_eq_true_iff.mp henabled
  obtain ⟨aspen, haspen, hle⟩ := h (of_decide_eq_true hne)
  exact ⟨aspen, haspen, hle.trans_lt (of_decide_eq_true hlt)⟩

/-- So its data is typed. -/
theorem Base.EnablesSince.usesDataItemEnum {upgrades : Upgrades} {b : Base} (h : b.EnablesSince upgrades)
    {height : ℕ} (henabled : b.voteExtensionsEnabled height = true) :
    upgrades.usesDataItemEnum height = true := by
  obtain ⟨aspen, haspen, hlt⟩ := h.later henabled
  unfold Upgrades.usesDataItemEnum
  rw [haspen]
  exact decide_eq_true hlt.le

/-- So it is not the height of the upgrade. -/
theorem Base.EnablesSince.upgradeActivatingAtHeight {upgrades : Upgrades} {b : Base}
    (h : b.EnablesSince upgrades) {height : ℕ} (henabled : b.voteExtensionsEnabled height = true) :
    upgrades.upgradeActivatingAtHeight height = none := by
  obtain ⟨aspen, haspen, hlt⟩ := h.later henabled
  by_contra hsome
  obtain ⟨aspen', hactivates⟩ := Option.ne_none_iff_exists'.mp hsome
  obtain ⟨haspen', hactivation⟩ := Upgrades.upgradeActivatingAtHeight_eq_some.mp hactivates
  obtain rfl := Option.some.inj (haspen.symm.trans haspen')
  omega

section

variable [ext : External]

/-- A block carries an extended commit info only where vote extensions are enabled. -/
theorem expandBlockData_withoutInfo [TransactionCodec] [BlockCodec] {upgrades : Upgrades} {height : ℕ}
    {txs : List Bytes} {expanded : ExpandedBlockData}
    (h : App.expandBlockData upgrades height txs false = .ok expanded) :
    expanded.extendedCommitInfo = none := by
  unfold App.expandBlockData at h
  split_ifs at h
  · unfold ExpandedBlockData.newFromTypedData at h
    match txs with
    | [] => cases h
    | [first] =>
      obtain ⟨item, -, h⟩ := Codec.bind_eq_ok.mp h
      obtain ⟨root, -, h⟩ := Codec.bind_eq_ok.mp h
      cases h
    | first :: second :: rest =>
      obtain ⟨firstItem, -, h⟩ := Codec.bind_eq_ok.mp h
      obtain ⟨txsRoot, -, h⟩ := Codec.bind_eq_ok.mp h
      obtain ⟨secondItem, -, h⟩ := Codec.bind_eq_ok.mp h
      obtain ⟨idsRoot, -, h⟩ := Codec.bind_eq_ok.mp h
      obtain ⟨⟨hashes, info, txBytes⟩, hinjected, h⟩ := Codec.bind_eq_ok.mp h
      obtain ⟨parsed, -, h⟩ := Codec.bind_eq_ok.mp h
      obtain rfl := Except.ok.inj h
      have hnone := congrArg (Except.map fun r => r.2.1) hinjected
      exact (Except.ok.inj hnone).symm
  · unfold ExpandedBlockData.newFromUntypedData at h
    split at h
    case h_1 => cases h
    split at h
    case h_1 => cases h
    split at h
    case h_1 => cases h
    split at h
    case h_1 => cases h
    obtain ⟨parsed, -, h⟩ := Codec.bind_eq_ok.mp h
    obtain rfl := Except.ok.inj h
    rfl

variable [UpgradeCodec] [TransactionCodec] [BlockCodec] {handler : UpgradesHandler}

omit [UpgradeCodec] [TransactionCodec] in
/-- The end of a block leaves where vote extensions are enabled, up to the height of the block. -/
theorem postExecuteTransactions_sameEnabled (hlater : handler.EnablesLater) (post : PostExecution) :
    Keeps (State.SameEnabled handler.upgrades post.height) (postExecuteTransactions handler post) := by
  intro s
  cases h : postExecuteTransactions handler post s with
  | ok u s' => exact postExecuteTransactions_enables hlater h
  | error e s' => exact (postExecuteTransactions_error h).sameEnabled _ _

theorem executeBlock_sameEnabled (hlater : handler.EnablesLater) (appHash : Bytes32) (block : Block) :
    Keeps (State.SameEnabled handler.upgrades block.data.height) (executeBlock handler appHash block) := by
  have hpre := preExecuteTransactions_sameResults handler.upgrades appHash block.data
  have hrun : Keeps State.SameResults (runTransactions block.expanded.userSubmittedTransactions) :=
    fun s => finalizeTransactions_sameResults _ s
  have hresults {α : Type} {x : AppM α} (hx : Keeps State.SameResults x) :
      Keeps (State.SameEnabled handler.upgrades block.data.height) x :=
    fun s => (hx s).sameEnabled _ _
  refine Keeps.bind (hresults (hpre.mapErr _)) fun _ => Keeps.bind (keeps_ensure _ _) fun _ => ?_
  exact Keeps.bind (hresults hrun) fun _ => (postExecuteTransactions_sameEnabled hlater _).mapErr _

omit [UpgradeCodec] [TransactionCodec] ext in
/-- The prices of a block do not touch what the block leads to. -/
theorem applyPricesIfAny_sameResults (request : FinalizeBlock) (expanded : ExpandedBlockData) :
    Keeps State.SameResults (App.applyPricesIfAny request expanded) := by
  intro s
  have hbase : (final (App.applyPricesIfAny request expanded s)).base = s.base :=
    (usesOracle_applyPricesIfAny request expanded).left_eq s
  change s.base.SameResults _
  rw [hbase]
  exact refl_of Base.SameResults s.base

/-! ## What a node remembers -/

section

variable [hash : RootHash]

/-- The data of the next block of a storage. -/
def Storage.expand (handler : UpgradesHandler) (storage : Storage) (txs : List Bytes) :
    Except Report ExpandedBlockData :=
  App.expandBlockData handler.upgrades storage.nextHeight txs
    (storage.latestSnapshot.base.voteExtensionsEnabled storage.nextHeight)

/-- The state that the execution of a block on the snapshot leads to. -/
def Storage.executed (handler : UpgradesHandler) (storage : Storage) (block : Block) : State :=
  final (executeBlock handler storage.latestSnapshot.rootHash block storage.latestSnapshot)

/-- The execution of a block on the snapshot leads to a state, in which results may be cached as well. -/
def Storage.LeadsTo (handler : UpgradesHandler) (storage : Storage) (block : Block) (s : State) : Prop :=
  s = storage.executed handler block ∨
    ∃ results, s = (storage.executed handler block).putExecutionResults results

/-- A snapshot holds no result of a block, and vote extensions are not enabled before the upgrade. -/
structure Storage.Sound (handler : UpgradesHandler) (storage : Storage) : Prop where
  result : storage.latestSnapshot.base.ephemeral.postTransactionExecutionResult = none
  enables : storage.latestSnapshot.base.EnablesSince handler.upgrades

/-- The state is that of a proposal which was prepared: its transactions were run on the snapshot, and
their results are cached. -/
def HoldsProposal (handler : UpgradesHandler) (storage : Storage) (cached : CachedProposal)
    (s : State) : Prop :=
  cached.blockData.height = storage.nextHeight ∧
    ∃ results t, s = t.putExecutionResults results ∧
      ∀ expanded, storage.expand handler cached.txs = .ok expanded →
        RunsTransactions handler storage.latestSnapshot.rootHash cached.blockData expanded
          storage.latestSnapshot results t

/-- The block of a proposal, with its hash and its data. -/
def ProcessProposal.block (request : ProcessProposal) (blockHash : BlockHash)
    (expanded : ExpandedBlockData) : Block :=
  { hash := blockHash, data := request.blockData, expanded := expanded }

/-- The state is that of a block which was processed as a proposal: it was executed on the snapshot. -/
def HoldsBlock {parkedMaxTxCount : ℕ} (handler : UpgradesHandler)
    (requests : List (Request parkedMaxTxCount)) (storage : Storage) (blockHash : BlockHash)
    (s : State) : Prop :=
  ∃ request completion expanded, .processProposal request completion ∈ requests ∧
    request.hash = some blockHash ∧ request.blockData.height = storage.nextHeight ∧
    storage.expand handler request.txs = .ok expanded ∧
    storage.LeadsTo handler (request.block blockHash expanded) s

/-- What the execution state says about the state of an application. -/
def App.Remembers {parkedMaxTxCount : ℕ} (handler : UpgradesHandler)
    (requests : List (Request parkedMaxTxCount)) (storage : Storage) (app : App) :
    ExecutionState → Prop
  | .prepared cached | .preparedValid cached => HoldsProposal handler storage cached app.state
  | .executedBlock blockHash _ =>
    HoldsBlock handler requests storage blockHash app.state ∨
      app.state = storage.latestSnapshot ∧ app.writeBatch.isSome
  | _ => True

/-- An application that works on a storage, after these requests. -/
structure App.Sound {parkedMaxTxCount : ℕ} (handler : UpgradesHandler)
    (requests : List (Request parkedMaxTxCount)) (storage : Storage) (app : App) : Prop where
  appHash : app.appHash = storage.latestSnapshot.rootHash
  enables : storage.latestSnapshot.SameEnabled handler.upgrades storage.nextHeight app.state
  staged : ∀ batch ∈ app.writeBatch, batch.base.EnablesSince handler.upgrades
  remembers : app.Remembers handler requests storage app.executionState

namespace App.Sound

variable {parkedMaxTxCount : ℕ} {requests requests' : List (Request parkedMaxTxCount)}
  {storage : Storage} {app : App}

/-- An application that starts over from the snapshot. -/
theorem of_snapshot (hhash : app.appHash = storage.latestSnapshot.rootHash)
    (hstaged : ∀ batch ∈ app.writeBatch, batch.base.EnablesSince handler.upgrades)
    (hstate : app.state = storage.latestSnapshot) (hunset : app.executionState = .unset) :
    App.Sound handler requests storage app := by
  refine ⟨hhash, ?_, hstaged, ?_⟩
  · rw [hstate]
    exact refl_of (State.SameEnabled handler.upgrades storage.nextHeight) storage.latestSnapshot
  · rw [hunset]
    trivial

theorem new : App.Sound handler requests storage (App.new storage) :=
  of_snapshot rfl (fun _ h => by cases h) rfl rfl

/-- Later requests do not matter. -/
theorem mono (h : App.Sound handler requests storage app) (hsub : requests ⊆ requests') :
    App.Sound handler requests' storage app := by
  refine ⟨h.appHash, h.enables, h.staged, ?_⟩
  have hremembers := h.remembers
  cases hstate : app.executionState with
  | executedBlock blockHash cached =>
    rw [hstate] at hremembers
    refine hremembers.imp ?_ id
    rintro ⟨request, completion, expanded, hmem, hblock⟩
    exact ⟨request, completion, expanded, hsub hmem, hblock⟩
  | _ =>
    rw [hstate] at hremembers
    exact hremembers

/-- Another state with nothing to remember. -/
theorem with_unset (h : App.Sound handler requests storage app) {s : State}
    (hs : storage.latestSnapshot.SameEnabled handler.upgrades storage.nextHeight s) :
    App.Sound handler requests storage { app with state := s, executionState := .unset } :=
  ⟨h.appHash, hs, h.staged, trivial⟩

/-- The data of the next block is parsed with the vote extensions of the snapshot. -/
theorem expand_eq (h : App.Sound handler requests storage app) (hstorage : storage.Sound handler)
    {height : ℕ} (hheight : height = storage.nextHeight) (txs : List Bytes) :
    App.expandBlockData handler.upgrades height txs
        (app.state.base.voteExtensionsEnabled height) = storage.expand handler txs := by
  unfold Storage.expand
  rw [hheight, (h.enables hstorage.enables).2]

end App.Sound

/-! ## Processing a proposal -/

omit [UpgradeCodec] [TransactionCodec] hash in
/-- Once the hash of the block is set, the end of the block runs on the state. -/
theorem App.postExecuteTransactions_eq {blockHash : BlockHash} {data : BlockData}
    {expanded : ExpandedBlockData} {results : List ExecTxResult} {app : App} {state : ExecutionState}
    (hset : app.executionState.setExecutedBlock blockHash = .ok state) :
    App.postExecuteTransactions handler (some blockHash) data expanded results app =
      onState (Sequencer.postExecuteTransactions handler (Block.postExecution
        { hash := blockHash, data := data, expanded := expanded } results))
          { app with executionState := state } := by
  have hhash : (require (some blockHash) ["block hash is empty; this should not occur"] :
      NodeM BlockHash) app = .ok blockHash app := rfl
  have htransition : transition (ExecutionState.setExecutedBlock blockHash) app =
      .ok () { app with executionState := state } := by
    simp [transition, hset]
  rw [App.postExecuteTransactions, bind_of_ok hhash, bind_of_ok (mapErr_eq_ok.mpr htransition)]

omit [UpgradeCodec] [TransactionCodec] hash in
/-- Where `post_execute_transactions` stops: before it, or behind it with the hash of the block. -/
theorem App.postExecuteTransactions_final (blockHash : Hash) (data : BlockData)
    (expanded : ExpandedBlockData) (results : List ExecTxResult) (app : App) :
    final (App.postExecuteTransactions handler blockHash data expanded results app) = app ∨
      ∃ executed cached, blockHash = some executed ∧
        final (App.postExecuteTransactions handler blockHash data expanded results app) =
          { app with
            state := final (Sequencer.postExecuteTransactions handler (Block.postExecution
              { hash := executed, data := data, expanded := expanded } results) app.state)
            executionState := .executedBlock executed cached } := by
  cases blockHash with
  | none => exact Or.inl rfl
  | some executed =>
    cases hset : app.executionState.setExecutedBlock executed with
    | error e =>
      have hfails : transition (ExecutionState.setExecutedBlock executed) app = .error e app := by
        simp [transition, hset]
      exact Or.inl (congrArg final (bind_eq_error.mpr (Or.inl (mapErr_eq_error.mpr ⟨e, hfails, rfl⟩))))
    | ok state =>
      obtain ⟨cached, rfl⟩ := ExecutionState.setExecutedBlock_eq_ok hset
      refine Or.inr ⟨executed, cached, rfl, ?_⟩
      rw [App.postExecuteTransactions_eq hset, onState, final_zoom]

namespace App.Sound

variable {parkedMaxTxCount : ℕ} {requests : List (Request parkedMaxTxCount)} {storage : Storage}
  {app : App} {request : ProcessProposal} {completion : Completion} {expanded : ExpandedBlockData}

/-- What is checked in the execution state does not change what is remembered, unless it is dropped. -/
theorem checkIfPreparedProposal (h : App.Sound handler requests storage app)
    (request : ProcessProposal) :
    App.Sound handler requests storage
      { app with executionState := (app.executionState.checkIfPreparedProposal request).2 } := by
  refine ⟨h.appHash, h.enables, h.staged, ?_⟩
  have hremembers := h.remembers
  cases hstate : app.executionState <;> rw [hstate] at hremembers <;>
    simp only [ExecutionState.checkIfPreparedProposal]
  case prepared cached =>
    split_ifs
    · exact hremembers
    · trivial
  case preparedValid cached =>
    split_ifs
    · exact hremembers
    · trivial
  all_goals exact hremembers

/-- The end of a block whose transactions were run on the snapshot. -/
theorem postExecuteTransactions (hlater : handler.EnablesLater)
    (h : App.Sound handler requests storage app) (hmem : .processProposal request completion ∈ requests)
    (hheight : request.blockData.height = storage.nextHeight)
    (hexpand : storage.expand handler request.txs = .ok expanded) {results : List ExecTxResult} {t : State}
    (hruns : RunsTransactions handler storage.latestSnapshot.rootHash request.blockData expanded
      storage.latestSnapshot results t)
    (hstate : app.state = t ∨ ∃ cached, app.state = t.putExecutionResults cached) :
    App.Sound handler requests storage (final (App.postExecuteTransactions handler request.hash
      request.blockData expanded results app)) := by
  rcases App.postExecuteTransactions_final request.hash request.blockData expanded results app with
    hsame | ⟨blockHash, cached, hhash, hstops⟩
  · rw [hsame]
    exact h
  rw [hstops]
  have hpost := postExecuteTransactions_sameEnabled hlater
    ((request.block blockHash expanded).postExecution results) app.state
  have hsame : ((request.block blockHash expanded).postExecution results).height =
    storage.nextHeight := hheight
  rw [hsame] at hpost
  have hexecuted : storage.executed handler (request.block blockHash expanded) =
      final (Sequencer.postExecuteTransactions handler
        ((request.block blockHash expanded).postExecution results) t) := by
    unfold Storage.executed ProcessProposal.block
    rw [hruns.executeBlock blockHash, final_mapErr]
  refine ⟨h.appHash, trans_of _ h.enables hpost, h.staged,
    Or.inl ⟨request, completion, expanded, hmem, hhash, hheight, hexpand, ?_⟩⟩
  unfold Storage.LeadsTo
  rw [hexecuted]
  rcases hstate with hstate | ⟨cached, hstate⟩
  · rw [hstate]
    exact Or.inl rfl
  · rw [hstate]
    exact Or.inr ⟨cached, (postExecuteTransactions_oblivious cached handler _).final_eq t⟩

section

variable [VoteCrypto]

omit hash in
/-- A proposal that was not prepared is executed on the snapshot. -/
theorem proposalResults_execute :
    App.proposalResults handler completion storage request expanded false app =
      onState (App.executeProposal handler app.appHash completion request expanded)
        { app with state := storage.latestSnapshot, executionState := .unset } := by
  have hstart : App.updateStateForNewRound storage app =
      .ok () { app with state := storage.latestSnapshot, executionState := .unset } := rfl
  have hhash : reads App.appHash { app with state := storage.latestSnapshot, executionState := .unset } =
      (.ok app.appHash _ : EStateM.Result Report App Bytes32) := rfl
  rw [App.proposalResults, if_neg Bool.false_ne_true, bind_of_ok hstart, bind_of_ok hhash]

/-- A node that has prepared a proposal has the results of its transactions. -/
theorem proposalResults_skip (h : App.Sound handler requests storage app) (completion : Completion)
    (hskip : app.executionState = .preparedValid request.newProposal)
    (hexpand : storage.expand handler request.txs = .ok expanded) :
    ∃ results t, App.proposalResults handler completion storage request expanded true app =
        .ok results app ∧
      RunsTransactions handler storage.latestSnapshot.rootHash request.blockData expanded
        storage.latestSnapshot results t ∧ app.state = t.putExecutionResults results := by
  have hremembers := h.remembers
  rw [hskip] at hremembers
  obtain ⟨-, results, t, hstate, hruns⟩ := hremembers
  have hcached : app.state.base.ephemeral.executionResults = some results := by
    rw [hstate]
    rfl
  refine ⟨results, t, ?_, hruns expanded hexpand, hstate⟩
  rw [App.proposalResults, if_pos rfl]
  simp [hcached]

/-- Whichever way a node comes to the results of a proposal, it has run its transactions. -/
theorem proposalResults (h : App.Sound handler requests storage app) (completion : Completion)
    {skipExecution : Bool}
    (hskip : skipExecution = true → app.executionState = .preparedValid request.newProposal)
    (hexpand : storage.expand handler request.txs = .ok expanded) :
    App.Sound handler requests storage
        (final (App.proposalResults handler completion storage request expanded skipExecution app)) ∧
      ∀ results app', App.proposalResults handler completion storage request expanded skipExecution app =
          .ok results app' →
        ∃ t, RunsTransactions handler storage.latestSnapshot.rootHash request.blockData expanded
            storage.latestSnapshot results t ∧
          (app'.state = t ∨ ∃ cached, app'.state = t.putExecutionResults cached) := by
  cases skipExecution with
  | true =>
    obtain ⟨results, t, hrun, hruns, hstate⟩ :=
      h.proposalResults_skip completion (hskip rfl) hexpand
    rw [hrun]
    refine ⟨h, fun results' app' heq => ?_⟩
    obtain ⟨rfl, rfl⟩ := EStateM.Result.ok.inj heq
    exact ⟨t, hruns, Or.inr ⟨results, hstate⟩⟩
  | false =>
    have hsame : Keeps State.SameResults
        (App.executeProposal handler app.appHash completion request expanded) :=
      executeProposal_sameResults completion request
    rw [proposalResults_execute, onState]
    refine ⟨?_, fun results app' hrun => ?_⟩
    · rw [final_zoom]
      exact h.with_unset ((hsame storage.latestSnapshot).sameEnabled _ _)
    · obtain ⟨t, hexec, rfl⟩ := zoom_eq_ok.mp hrun
      rw [h.appHash] at hexec
      exact ⟨t, executeProposal_runs hexec, Or.inl rfl⟩

/-- A proposal is processed with the data of the storage, on an application that remembers whether it has
prepared it. -/
theorem processProposal_eq (hstorage : storage.Sound handler)
    (h : App.Sound handler requests storage app) (request : ProcessProposal) (completion : Completion)
    (hheight : request.blockData.height = storage.nextHeight) :
    ∃ checked skip, App.Sound handler requests storage checked ∧
      (skip = true → checked.executionState = .preparedValid request.newProposal) ∧
      App.processProposal handler completion storage request app = (do
        let expanded ← wrapErr "failed to parse data items"
          (lift (storage.expand handler request.txs))
        let txResults ← App.proposalResults handler completion storage request expanded skip
        wrapErr "failed to run post execute transactions handler"
          (App.postExecuteTransactions handler request.hash request.blockData expanded txResults))
        checked := by
  have hchecked := h.checkIfPreparedProposal request
  generalize happ : { app with
    executionState := (app.executionState.checkIfPreparedProposal request).2 } = checked at hchecked
  have hstate : checked.executionState = (app.executionState.checkIfPreparedProposal request).2 := by
    rw [← happ]
  refine ⟨checked, (app.executionState.checkIfPreparedProposal request).1, hchecked, fun hskip => ?_, ?_⟩
  · rw [hstate]
    exact (ExecutionState.checkIfPreparedProposal_eq_true (Prod.ext hskip rfl)).2
  have hcheck : checks (ExecutionState.checkIfPreparedProposal request) app =
      .ok (app.executionState.checkIfPreparedProposal request).1 checked := by
    rw [← happ]
    rfl
  have hread : reads App.executionState checked =
      (.ok checked.executionState checked : EStateM.Result Report App ExecutionState) := rfl
  have hvalidated : App.ensureValidated checked.executionState checked = .ok () checked := by
    cases hprepared : checked.executionState with
    | prepared cached =>
      exact absurd (hstate.symm.trans hprepared)
        (ExecutionState.checkIfPreparedProposal_ne_prepared request _ cached)
    | _ => rfl
  have henabled : reads (fun app : App => app.state.base.voteExtensionsEnabled request.blockData.height)
      checked = (.ok (checked.state.base.voteExtensionsEnabled request.blockData.height) checked :
        EStateM.Result Report App Bool) := rfl
  rw [App.processProposal, bind_of_ok hcheck, bind_of_ok hread, bind_of_ok hvalidated,
    bind_of_ok henabled, hchecked.expand_eq hstorage hheight]

/-- A proposal is processed: one that was prepared is not executed again. -/
theorem processProposal (hlater : handler.EnablesLater) (hstorage : storage.Sound handler)
    (h : App.Sound handler requests storage app)
    (hmem : .processProposal request completion ∈ requests)
    (hheight : request.blockData.height = storage.nextHeight) :
    App.Sound handler requests storage
      (final (App.processProposal handler completion storage request app)) := by
  obtain ⟨checked, skip, hchecked, hskip, heq⟩ := h.processProposal_eq hstorage request completion hheight
  rw [heq]
  refine final_bind (fun e t herror => ?_) fun expanded checked' hparsed => ?_
  · obtain ⟨e', hparse, -⟩ := mapErr_eq_error.mp herror
    obtain ⟨-, rfl⟩ := lift_eq_error.mp hparse
    exact hchecked
  obtain ⟨hexpand, rfl⟩ := lift_eq_ok.mp (mapErr_eq_ok.mp hparsed)
  obtain ⟨hresults, hruns⟩ := hchecked.proposalResults completion hskip hexpand
  refine final_bind (fun e t herror => ?_) fun results app' hok => ?_
  · rw [herror] at hresults
    exact hresults
  · rw [hok] at hresults
    obtain ⟨t, hrun, hafter⟩ := hruns results app' hok
    rw [final_mapErr]
    exact hresults.postExecuteTransactions hlater hmem hheight hexpand hrun hafter

end

omit hash in
/-- A proposal is prepared on the snapshot. -/
theorem prepareProposal_eq_ok [VoteCrypto] {sort : SortUnstable} {mempool : Mempool parkedMaxTxCount}
    {prepare : PrepareProposal} {proposal : PreparedProposal parkedMaxTxCount} {app' : App}
    (hrun : App.prepareProposal handler completion sort storage mempool prepare app =
      .ok proposal app') :
    ∃ s, Sequencer.prepareProposal handler app.appHash completion sort mempool prepare
        storage.latestSnapshot = .ok proposal s ∧
      app' = { app with
        state := s
        executionState := .prepared (prepare.preparedProposal proposal.txs) } := by
  obtain ⟨_, app₁, hstart, hrun⟩ := bind_eq_ok.mp hrun
  obtain ⟨-, rfl⟩ := EStateM.Result.ok.inj hstart
  simp only [bind_eq_ok, reads_eq_ok, pure_eq_ok, and_assoc, exists_and_left, exists_eq_left] at hrun
  obtain ⟨_, app₂, hprepares, _, app₃, hsets, rfl, rfl⟩ := hrun
  obtain ⟨s, hprepare, rfl⟩ := zoom_eq_ok.mp hprepares
  have htransition := mapErr_eq_ok.mp hsets
  simp only [transition, bind_eq_ok, tryReads_eq_ok, writes_eq_ok, and_assoc, exists_and_left,
    exists_eq_left] at htransition
  obtain ⟨state, hset, rfl⟩ := htransition
  obtain rfl := Except.ok.inj hset
  exact ⟨s, hprepare, rfl⟩

/-- Its transactions are run there. -/
theorem prepareProposal [VoteCrypto] (hlaws : DataItem.Laws) (hstorage : storage.Sound handler)
    (h : App.Sound handler requests storage app) {sort : SortUnstable}
    {mempool : Mempool parkedMaxTxCount} {prepare : PrepareProposal}
    (hheight : prepare.blockData.height = storage.nextHeight)
    (hdecodes : ∀ entry ∈ PendingTransactions.builderQueue sort mempool.pending, Decodes entry.2)
    {proposal : PreparedProposal parkedMaxTxCount} {app' : App}
    (hrun : App.prepareProposal handler completion sort storage mempool prepare app =
      .ok proposal app') : App.Sound handler requests storage app' := by
  obtain ⟨s, hprepare, rfl⟩ := prepareProposal_eq_ok hrun
  obtain ⟨hsame, results, t, rfl, hruns⟩ := prepareProposal_runs hlaws
    hstorage.enables.usesDataItemEnum hdecodes hprepare
  refine ⟨h.appHash, hsame.sameEnabled _ _, h.staged, hheight, results, t, rfl, fun expanded hexpand => ?_⟩
  rw [← h.appHash]
  refine hruns expanded ?_
  rw [hheight]
  exact hexpand

end App.Sound

end

end

end Astria.Sequencer
