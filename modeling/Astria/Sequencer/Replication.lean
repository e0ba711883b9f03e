import Astria.Sequencer.BlockFrame
import Astria.Sequencer.Deposits
import Astria.Sequencer.SkipExecution

/-!
# Nodes that follow the same chain

CometBFT decides one block for every height, and all nodes finalize it.  What they are asked besides, and
in which order, is up to the rounds that they take part in: proposals of their own or of others, decided
or not, and restarts.

Specification: `PlainRun`, a node that does nothing but finalize and commit the decided blocks.

Results:
* `NodeRun.plain`: the storages of a node are those of the plain run;
* `NodeRun.storages_agree`: two nodes that have committed the same number of blocks have the same storage;
* `NodeRun.chainRun`, `NodeRun.snapshot_run`: the snapshots of a node are those of a chain of blocks, and
  states of `Run`, so that they have the invariants of all runs.
-/

namespace Astria.Sequencer

open Astria.Core Astria.Lib Exec

/-! ## The height of a block -/

/-- The height of the block is as it was. -/
def Base.SameHeight (s s' : Base) : Prop := s'.chain.blockHeight = s.chain.blockHeight

instance : IsPreorder Base Base.SameHeight where
  refl _ := rfl
  trans _ _ _ h h' := h'.trans h

section

variable [ext : External] [UpgradeCodec] [TransactionCodec] [BlockCodec] {handler : UpgradesHandler}

/-- A block that was executed is the last one. -/
theorem executeBlock_blockHeight {appHash : Bytes32} {block : Block} {s s' : State} {u : Unit}
    (h : executeBlock handler appHash block s = .ok u s') :
    s'.base.chain.blockHeight = some block.data.height := by
  obtain ⟨hashes, t, -, hheight⟩ := executeBlock_keeps (R := Base.SameHeight)
    (by constructor <;> intros <;> rfl) (by constructor <;> intros <;> rfl)
    (by constructor <;> intros <;> rfl) (by constructor <;> intros <;> rfl)
    (by constructor <;> intros <;> rfl) h
  exact hheight

/-! ## Decided blocks -/

/-- The decided blocks: every one is about its height, and its prices may be applied in either order. -/
structure Decided (handler : UpgradesHandler) (decided : ℕ → FinalizeBlock) : Prop where
  height : ∀ n, (decided n).blockData.height = n
  prices : ∀ n withExtendedCommitInfo expanded,
    App.expandBlockData handler.upgrades n (decided n).txs withExtendedCommitInfo = .ok expanded →
      PricesApart expanded

/-- A node is asked to finalize decided blocks only, and their hashes tell them from other proposals. -/
structure Follows {parkedMaxTxCount : ℕ} (decided : ℕ → FinalizeBlock)
    (requests : List (Request parkedMaxTxCount)) : Prop where
  finalized : ∀ block, .finalizeBlock block ∈ requests → block = decided block.blockData.height
  identified : ∀ n, Identifies requests (decided n)

omit ext [UpgradeCodec] [TransactionCodec] [BlockCodec] in
/-- Requests that were made before follow the same blocks. -/
theorem Follows.mono {parkedMaxTxCount : ℕ} {decided : ℕ → FinalizeBlock}
    {requests requests' : List (Request parkedMaxTxCount)} (h : Follows decided requests')
    (hsub : requests ⊆ requests') : Follows decided requests :=
  ⟨fun block hmem => h.finalized block (hsub hmem),
    fun n request completion hmem => h.identified n request completion (hsub hmem)⟩

variable [hash : RootHash]

/-- The storages of a node that finalizes and commits the decided blocks, and does nothing else. -/
inductive PlainRun (handler : UpgradesHandler) (genesis : InitChain) (decided : ℕ → FinalizeBlock) :
    Storage → Prop
  | genesis {storage : Storage} {app : App} :
      Consensus.initChain Storage.empty genesis (App.new Storage.empty) = .ok storage app →
      PlainRun handler genesis decided storage
  | block {storage : Storage} {response : FinalizeBlockResponse} {snapshot : State} :
      PlainRun handler genesis decided storage →
      Stages (App.finalizeBlock handler storage (decided storage.nextHeight) (App.new storage)) response
        snapshot →
      PlainRun handler genesis decided
        { latestSnapshot := snapshot, latestVersion := storage.newVersion }

section

variable {storage storage' : Storage} {genesis : InitChain} {decided : ℕ → FinalizeBlock}
  {block : FinalizeBlock} {response response' : FinalizeBlockResponse} {snapshot snapshot' : State}
  {finalized : EStateM.Result Report App FinalizeBlockResponse}

omit [UpgradeCodec] [TransactionCodec] [BlockCodec] ext hash in
theorem Stages.unique (h : Stages finalized response snapshot)
    (h' : Stages finalized response' snapshot') : response = response' ∧ snapshot = snapshot' := by
  obtain ⟨app, batch, hrun, hbatch, rfl⟩ := h
  obtain ⟨app', batch', hrun', hbatch', rfl⟩ := h'
  obtain ⟨rfl, rfl⟩ := EStateM.Result.ok.inj (hrun.symm.trans hrun')
  obtain rfl := Option.some.inj (hbatch.symm.trans hbatch')
  exact ⟨rfl, rfl⟩

/-- A plain node goes on by one block. -/
theorem Stages.nextHeight
    (h : Stages (App.finalizeBlock handler storage block (App.new storage)) response snapshot)
    (version : ℕ) :
    Storage.nextHeight { latestSnapshot := snapshot, latestVersion := version } =
      block.blockData.height + 1 := by
  cases hhash : block.hash with
  | none => exact absurd h (not_stages_of_hash_eq_none hhash)
  | some blockHash =>
    obtain ⟨expanded, -, events, t, u, -, hexec, batch, ⟨result, height, -, -, rfl, -⟩, rfl⟩ :=
      (stages_unexecuted rfl hhash fun cached hstate => by cases hstate).mp h
    have hheight := executeBlock_blockHeight hexec
    change (u.base.chain.blockHeight.getD 0) + 1 = _
    rw [hheight]
    rfl

omit [UpgradeCodec] [TransactionCodec] [BlockCodec] in
/-- The first block has the height 1. -/
theorem Consensus.initChain_nextHeight {app app' : App}
    (h : Consensus.initChain storage genesis app = .ok storage' app') : storage'.nextHeight = 1 := by
  obtain ⟨b, height, hinit, hheight, rfl, -⟩ := Consensus.initChain_eq_ok h
  change b.chain.blockHeight.getD 0 + 1 = 1
  rw [initChain_blockHeight hinit]
  rfl

omit [UpgradeCodec] [TransactionCodec] [BlockCodec] ext hash in
theorem Storage.nextHeight_pos (storage : Storage) : 1 ≤ storage.nextHeight := Nat.le_add_left 1 _

/-- There is one storage for every height. -/
theorem PlainRun.unique (hdecided : Decided handler decided) (h : PlainRun handler genesis decided storage)
    (h' : PlainRun handler genesis decided storage') (hheight : storage.nextHeight = storage'.nextHeight) :
    storage = storage' := by
  induction h generalizing storage' with
  | genesis hinit =>
    have hfirst := Consensus.initChain_nextHeight hinit
    cases h' with
    | genesis hinit' => exact (EStateM.Result.ok.inj (hinit.symm.trans hinit')).1
    | @block storage₁ response snapshot hrun hstages =>
      have hnext := hstages.nextHeight storage₁.newVersion
      rw [hdecided.height] at hnext
      have hpos := storage₁.nextHeight_pos
      omega
  | @block storage₁ response snapshot hrun hstages ih =>
    have hnext := hstages.nextHeight storage₁.newVersion
    rw [hdecided.height] at hnext
    have hpos := storage₁.nextHeight_pos
    cases h' with
    | genesis hinit' =>
      have hfirst := Consensus.initChain_nextHeight hinit'
      omega
    | @block storage₂ response' snapshot' hrun' hstages' =>
      have hnext' := hstages'.nextHeight storage₂.newVersion
      rw [hdecided.height] at hnext'
      obtain rfl := ih hrun' (by omega)
      obtain ⟨-, rfl⟩ := hstages.unique hstages'
      rfl

/-! ## Runs of nodes -/

/-- Nothing was staged, and nothing dropped. -/
def App.SameBatch (app app' : App) : Prop := app'.writeBatch = app.writeBatch

instance : IsPreorder App App.SameBatch where
  refl _ := rfl
  trans _ _ _ h h' := h'.trans h

omit [UpgradeCodec] [TransactionCodec] [BlockCodec] ext hash in
theorem sameBatch_onState {α : Type} (x : AppM α) : Keeps App.SameBatch (onState x) :=
  Keeps.zoom (Q := fun _ _ => True) (fun _ => trivial) fun _ _ _ => rfl

omit [UpgradeCodec] [TransactionCodec] [BlockCodec] ext hash in
theorem sameBatch_transition (next : ExecutionState → Except Report ExecutionState) :
    Keeps App.SameBatch (transition next) :=
  Keeps.bind (keeps_tryReads _) fun _ => keeps_writes fun _ => rfl

section

variable [VoteCrypto]

omit hash in
/-- A proposal stages nothing. -/
theorem prepareProposal_sameBatch {parkedMaxTxCount : ℕ} (completion : Completion) (sort : SortUnstable)
    (mempool : Mempool parkedMaxTxCount) (request : PrepareProposal) :
    Keeps App.SameBatch (App.prepareProposal handler completion sort storage mempool request) := by
  refine Keeps.bind (keeps_writes fun _ => rfl) fun _ => Keeps.bind (keeps_reads _) fun _ => ?_
  refine Keeps.bind (sameBatch_onState _) fun _ => ?_
  exact Keeps.bind ((sameBatch_transition _).mapErr _) fun _ => keeps_pure _

omit hash in
theorem processProposal_sameBatch (handler : UpgradesHandler) (storage : Storage) (completion : Completion)
    (request : ProcessProposal) :
    Keeps App.SameBatch (App.processProposal handler completion storage request) := by
  have hvalidated (state : ExecutionState) : Keeps App.SameBatch (App.ensureValidated state) := by
    cases state with
    | prepared cached => exact keeps_fail _
    | _ => exact keeps_pure _
  have hresults (expanded : ExpandedBlockData) (skip : Bool) : Keeps App.SameBatch
      (App.proposalResults handler completion storage request expanded skip) := by
    refine Keeps.ite (Keeps.bind (keeps_reads _) fun _ => keeps_require _ _) ?_
    refine Keeps.bind (keeps_writes fun _ => rfl) fun _ => Keeps.bind (keeps_reads _) fun _ => ?_
    exact sameBatch_onState _
  have hpost (expanded : ExpandedBlockData) (results : List ExecTxResult) : Keeps App.SameBatch
      (App.postExecuteTransactions handler request.hash request.blockData expanded results) := by
    refine Keeps.bind (keeps_require _ _) fun _ => ?_
    exact Keeps.bind ((sameBatch_transition _).mapErr _) fun _ => sameBatch_onState _
  refine Keeps.bind (fun _ => rfl) fun _ => Keeps.bind (keeps_reads _) fun state => ?_
  refine Keeps.bind (hvalidated state) fun _ => Keeps.bind (keeps_reads _) fun _ => ?_
  refine Keeps.bind ((keeps_lift _).mapErr _) fun expanded => ?_
  exact Keeps.bind (hresults expanded _) fun results => (hpost expanded results).mapErr _

variable {parkedMaxTxCount : ℕ} {requests requests' : List (Request parkedMaxTxCount)} {node node' : Node}

omit [VoteCrypto] [UpgradeCodec] [TransactionCodec] [BlockCodec] ext in
/-- A node goes on after a request with what it has staged, or starts over with nothing. -/
theorem Node.orRestart_staged {α : Type} {result : EStateM.Result Report App α}
    {P : Storage → Prop} {Q : Storage → State → Prop} (h : P node.storage)
    (hok : ∀ a app, result = .ok a app → ∀ batch ∈ app.writeBatch, Q node.storage batch.commit) :
    P (node.orRestart result).storage ∧
      ∀ batch ∈ (node.orRestart result).app.writeBatch, Q (node.orRestart result).storage batch.commit := by
  cases result with
  | ok a app => exact ⟨h, hok a app rfl⟩
  | error e app => exact ⟨h, fun _ hmem => by cases hmem⟩

/-- An invariant of the storages of a node is shown for the genesis, for what is staged when a block is
finalized, and for the commit; nothing else touches what is committed. -/
theorem NodeRun.invariant {P : Storage → Prop} {Q : Storage → State → Prop}
    (hgenesis : ∀ storage app, Consensus.initChain Storage.empty genesis (App.new Storage.empty) =
      .ok storage app → P storage)
    (hcommit : ∀ storage snapshot, P storage → Q storage snapshot →
      P { latestSnapshot := snapshot, latestVersion := storage.newVersion })
    (h : NodeRun handler genesis requests node)
    (hfinalize : ∀ {before node block response snapshot}, NodeRun handler genesis before node →
      before ⊆ requests → .finalizeBlock block ∈ requests →
      block.blockData.height = node.storage.nextHeight → P node.storage →
      Stages (App.finalizeBlock handler node.storage block node.app) response snapshot →
      Q node.storage snapshot) :
    P node.storage ∧ ∀ batch ∈ node.app.writeBatch, Q node.storage batch.commit := by
  induction h with
  | genesis hinit =>
    have happ := (Consensus.initChain_sound handler hinit).2
    rw [happ]
    exact ⟨hgenesis _ _ hinit, fun _ hmem => by cases hmem⟩
  | @handle requests node request hrun hlegal ih =>
    have hsub := List.subset_append_left requests [request]
    have hmem : request ∈ requests ++ [request] := by simp
    obtain ⟨hstorage, hstaged⟩ := ih fun hbefore hin hblock =>
      hfinalize hbefore (List.Subset.trans hin hsub) (hsub hblock)
    cases request with
    | prepareProposal request mempool sort completion =>
      refine Node.orRestart_staged hstorage fun proposal app' hprepare batch hbatch => ?_
      have hsame := (prepareProposal_sameBatch completion sort mempool request).of_ok hprepare
      exact hstaged batch (hsame ▸ hbatch)
    | processProposal request completion =>
      have hsame := processProposal_sameBatch handler node.storage completion request node.app
      exact ⟨hstorage, fun batch hbatch => hstaged batch (hsame ▸ hbatch)⟩
    | finalizeBlock block =>
      refine Node.orRestart_staged hstorage fun response app' hrun' batch hbatch => ?_
      obtain ⟨batch', hbatch', hstages⟩ := finalizeBlock_stages hrun'
      obtain rfl := Option.some.inj (hbatch'.symm.trans hbatch)
      exact hfinalize hrun hsub hmem hlegal hstorage hstages
    | commit =>
      unfold Node.handle
      cases hok : App.commit node.storage node.app with
      | error e app' => exact ⟨hstorage, fun _ hmem => by cases hmem⟩
      | ok storage app' =>
        obtain ⟨batch, hbatch, rfl, rfl⟩ := commit_eq_ok.mp hok
        exact ⟨hcommit _ _ hstorage (hstaged batch hbatch), fun _ hmem => by cases hmem⟩
    | restart => exact ⟨hstorage, fun _ hmem => by cases hmem⟩

/-- Whatever a node is asked besides the decided blocks, its storages are those of the plain run. -/
theorem NodeRun.plain (hlaws : DataItem.Laws) (hlater : handler.EnablesLater)
    (hdecided : Decided handler decided) (h : NodeRun handler genesis requests node)
    (hfollows : Follows decided requests) : PlainRun handler genesis decided node.storage := by
  refine (h.invariant (P := PlainRun handler genesis decided) (Q := fun storage snapshot =>
      ∃ response, Stages (App.finalizeBlock handler storage (decided storage.nextHeight)
        (App.new storage)) response snapshot)
    (fun _ _ hinit => .genesis hinit) (fun _ _ hplain hstaged => ?_) ?_).1
  · obtain ⟨response, hstages⟩ := hstaged
    exact .block hplain hstages
  · intro before node block response snapshot hrun hsub hmem hheight _ hstages
    obtain ⟨hstorage, hsound⟩ := hrun.sound hlaws hlater
    have hblock := hfollows.finalized block hmem
    rw [hheight] at hblock
    have hidentifies : Identifies before block := hblock ▸ (hfollows.mono hsub).identified _
    have hprices : ∀ expanded, node.storage.expand handler block.txs = .ok expanded →
        PricesApart expanded := hblock ▸ hdecided.prices _ _
    refine ⟨response, ?_⟩
    rw [← hblock]
    rcases hsound.stages_iff hstorage hidentifies hprices with hiff | ⟨-, hnever⟩
    · exact (hiff response snapshot).mp hstages
    · exact absurd hstages (hnever response snapshot)

/-- Two nodes that follow the same blocks have the same storage at the same height, whatever else they
were asked. -/
theorem NodeRun.storages_agree (hlaws : DataItem.Laws) (hlater : handler.EnablesLater)
    (hdecided : Decided handler decided) (h : NodeRun handler genesis requests node)
    (hfollows : Follows decided requests) (h' : NodeRun handler genesis requests' node')
    (hfollows' : Follows decided requests') (hheight : node.storage.nextHeight = node'.storage.nextHeight) :
    node.storage = node'.storage :=
  (h.plain hlaws hlater hdecided hfollows).unique hdecided
    (h'.plain hlaws hlater hdecided hfollows') hheight

/-! ## Invariants of runs -/

omit [UpgradeCodec] [TransactionCodec] [VoteCrypto] hash ext in
theorem appliesPrices_of_applyPricesIfAny {expanded : ExpandedBlockData} {events : List Event}
    {s s' : State} (blockHash : BlockHash)
    (h : App.applyPricesIfAny block expanded s = .ok events s') :
    AppliesPrices { hash := blockHash, data := block.blockData, expanded := expanded } s s' := by
  unfold App.applyPricesIfAny at h
  unfold AppliesPrices
  cases hinfo : expanded.extendedCommitInfo with
  | none =>
    rw [hinfo] at h
    exact (pure_eq_ok.mp h).2
  | some info =>
    rw [hinfo] at h
    simp only [bind_eq_ok, mapErr_eq_ok, pure_eq_ok] at h
    obtain ⟨r, t, happly, -, rfl⟩ := h
    exact ⟨r, happly⟩

omit [UpgradeCodec] [TransactionCodec] [VoteCrypto] hash ext in
/-- The prices of a block are kept apart from everything else. -/
theorem AppliesPrices.base_eq {priced : Block} {s s' : State} (h : AppliesPrices priced s s') :
    s'.base = s.base := by
  let request : FinalizeBlock := { hash := none, txs := [], blockData := priced.data }
  have happly : ∃ events, App.applyPricesIfAny request priced.expanded s = .ok events s' := by
    unfold AppliesPrices at h
    unfold App.applyPricesIfAny
    cases hinfo : priced.expanded.extendedCommitInfo with
    | none =>
      rw [hinfo] at h
      exact ⟨[], pure_eq_ok.mpr ⟨rfl, h⟩⟩
    | some info =>
      rw [hinfo] at h
      obtain ⟨r, hr⟩ := h
      refine ⟨r.2, bind_eq_ok.mpr ⟨r, s', mapErr_eq_ok.mpr hr, pure_eq_ok.mpr ⟨rfl, rfl⟩⟩⟩
  obtain ⟨events, hevents⟩ := happly
  have hbase := (usesOracle_applyPricesIfAny request priced.expanded).left_eq s
  rw [hevents] at hbase
  exact hbase

/-- A block is executed; then the results of its transactions may be cached. -/
def Executes (handler : UpgradesHandler) (appHash : Bytes32) (block : Block) (s s' : State) : Prop :=
  ∃ t, executeBlock handler appHash block s = .ok () t ∧
    (s' = t ∨ ∃ results, s' = t.putExecutionResults results)

omit [VoteCrypto] in
/-- A block that was executed as a proposal was executed to its end, if it has a result. -/
theorem Storage.LeadsTo.executes (hstorage : storage.Sound handler) {executed : Block} {s : State}
    (hs : storage.LeadsTo handler executed s)
    (hresult : s.base.ephemeral.postTransactionExecutionResult ≠ none) :
    Executes handler storage.latestSnapshot.rootHash executed storage.latestSnapshot s := by
  have hexecuted : (storage.executed handler executed).base.ephemeral.postTransactionExecutionResult ≠
      none := by
    rcases hs with rfl | ⟨results, rfl⟩ <;> exact hresult
  unfold Storage.LeadsTo Storage.executed at hs
  unfold Storage.executed at hexecuted
  cases hexec : executeBlock handler storage.latestSnapshot.rootHash executed
      storage.latestSnapshot with
  | ok _ t =>
    rw [hexec] at hs
    exact ⟨t, hexec, hs⟩
  | error e t =>
    rw [hexec] at hexecuted
    exact absurd ((executeBlock_error hexec).result.trans hstorage.result) hexecuted

/-- A block leads from a snapshot to a state: its execution goes before its prices, or behind them.  The
prices may be those of another proposal with its hash. -/
def LeadsThrough (handler : UpgradesHandler) (appHash : Bytes32) (executed priced : Block)
    (s s' : State) : Prop :=
  (∃ t, AppliesPrices priced s t ∧ Executes handler appHash executed t s') ∨
    ∃ t, Executes handler appHash executed s t ∧ AppliesPrices priced t s'

/-- The block was parsed from the data of a request for it: to finalize it, or to process it as a
proposal. -/
def ParsedFrom (handler : UpgradesHandler) (requests : List (Request parkedMaxTxCount)) (storage : Storage)
    (block : FinalizeBlock) (executed : Block) : Prop :=
  ∃ txs, storage.expand handler txs = .ok executed.expanded ∧
    (txs = block.txs ∨
      ∃ request completion, .processProposal request completion ∈ requests ∧ txs = request.txs)

omit [VoteCrypto] in
/-- What a node stages is what a block leads to from its snapshot. -/
theorem App.Sound.leadsThrough {app : App} (hstorage : storage.Sound handler)
    (hsound : App.Sound handler requests storage app) (hheight : block.blockData.height = storage.nextHeight)
    (hstages : Stages (App.finalizeBlock handler storage block app) response snapshot) :
    ∃ executed priced events s batch, executed.data.height = storage.nextHeight ∧
      ParsedFrom handler requests storage block executed ∧
      LeadsThrough handler storage.latestSnapshot.rootHash executed priced storage.latestSnapshot s ∧
        Finishes storage events s response batch ∧ batch.commit = snapshot := by
  cases hhash : block.hash with
  | none => exact absurd hstages (not_stages_of_hash_eq_none hhash)
  | some blockHash =>
    by_cases hexecuted : ∃ cached, app.executionState = .executedBlock blockHash cached
    · obtain ⟨cached, hstate⟩ := hexecuted
      obtain ⟨expanded, -, events, t, happly, batch, hfinishes, hcommit⟩ :=
        (stages_executed hhash hstate).mp hstages
      have hresult : app.state.base.ephemeral.postTransactionExecutionResult ≠ none :=
        fun hnone => not_finishes hnone happly hfinishes
      have hremembers := hsound.remembers
      rw [hstate] at hremembers
      rcases hremembers with ⟨proposal, completion, _, hmem, -, hsame, hparsed, hleads⟩ | ⟨htaken, -⟩
      · exact ⟨_, _, events, t, batch, hsame,
          ⟨proposal.txs, hparsed, Or.inr ⟨proposal, completion, hmem, rfl⟩⟩,
          Or.inr ⟨_, hleads.executes hstorage hresult,
            appliesPrices_of_applyPricesIfAny blockHash happly⟩, hfinishes, hcommit⟩
      · rw [htaken] at hresult
        exact absurd hstorage.result hresult
    · obtain ⟨expanded, hexpand, events, t, u, happly, hexec, batch, hfinishes, hcommit⟩ :=
        (stages_unexecuted hsound.appHash hhash fun cached hstate => hexecuted ⟨cached, hstate⟩).mp hstages
      rw [hheight] at hexpand
      exact ⟨{ hash := blockHash, data := block.blockData, expanded := expanded }, _, events, u, batch,
        hheight, ⟨block.txs, hexpand, Or.inl rfl⟩,
        Or.inl ⟨t, appliesPrices_of_applyPricesIfAny blockHash happly, u, hexec, Or.inl rfl⟩, hfinishes,
        hcommit⟩

omit [VoteCrypto] hash in
theorem Run.appliesPrices {l : List Withdrawal} {priced : Block} {s s' : State} (h : Run handler l s)
    (hprices : AppliesPrices priced s s') : Run handler l s' := by
  unfold AppliesPrices at hprices
  cases hinfo : priced.expanded.extendedCommitInfo with
  | none =>
    rw [hinfo] at hprices
    exact hprices ▸ h
  | some info =>
    rw [hinfo] at hprices
    obtain ⟨r, hr⟩ := hprices
    exact h.prices hr

omit [VoteCrypto] hash in
theorem Run.executes {l : List Withdrawal} {appHash : Bytes32} {executed : Block} {s s' : State}
    (h : Run handler l s) (hexec : Executes handler appHash executed s s') :
    ∃ l', Run handler l' s' := by
  obtain ⟨t, hok, rfl | ⟨results, rfl⟩⟩ := hexec
  · obtain ⟨l', hl'⟩ := h.executeBlock hok
    exact ⟨_, hl'⟩
  · obtain ⟨l', hl'⟩ := h.executeBlock hok
    exact ⟨_, hl'.executionResults results⟩

/-- The height of the next block. -/
def State.nextHeight (s : State) : ℕ := s.base.chain.blockHeight.getD 0 + 1

/-- The states after the blocks of a chain, which are executed and committed height by height, with the
steps of their transactions.  The prices of a block go before its execution, or behind it. -/
inductive ChainRun (handler : UpgradesHandler) (genesis : Base) : List ActionStep → State → Prop
  | genesis (height version : ℕ) :
      ChainRun handler genesis []
        (State.putStorageVersionByHeight height version { base := genesis, oracle := Oracle.empty }).commit
  | executed {steps : List ActionStep} {s t u : State} {appHash : Bytes32} {executed priced : Block}
      (height version : ℕ) : ChainRun handler genesis steps s → executed.data.height = s.nextHeight →
      AppliesPrices priced s t → Executes handler appHash executed t u →
      ChainRun handler genesis (steps ++ executed.steps handler appHash t)
        (u.putStorageVersionByHeight height version).commit
  | proposed {steps : List ActionStep} {s t u : State} {appHash : Bytes32} {executed priced : Block}
      (height version : ℕ) : ChainRun handler genesis steps s → executed.data.height = s.nextHeight →
      Executes handler appHash executed s t → AppliesPrices priced t u →
      ChainRun handler genesis (steps ++ executed.steps handler appHash s)
        (u.putStorageVersionByHeight height version).commit

omit [VoteCrypto] hash in
theorem ChainRun.leadsThrough {b : Base} {steps : List ActionStep} {appHash : Bytes32}
    {executed priced : Block} {s s' : State} (h : ChainRun handler b steps s)
    (hheight : executed.data.height = s.nextHeight)
    (hleads : LeadsThrough handler appHash executed priced s s') (height version : ℕ) :
    ∃ steps', ChainRun handler b steps' (s'.putStorageVersionByHeight height version).commit := by
  rcases hleads with ⟨t, hprices, hexec⟩ | ⟨t, hexec, hprices⟩
  · exact ⟨_, h.executed height version hheight hprices hexec⟩
  · exact ⟨_, h.proposed height version hheight hexec hprices⟩

omit [VoteCrypto] hash in
/-- A chain is a run. -/
theorem ChainRun.run {genesis : GenesisAppState} {validators : List ValidatorUpdate} {chainId : String}
    {b : Base} (hgenesis : Sequencer.initChain genesis validators chainId Base.empty = .ok () b)
    {steps : List ActionStep} {s : State} (h : ChainRun handler b steps s) : ∃ l, Run handler l s := by
  induction h with
  | genesis height version => exact ⟨_, ((Run.genesis hgenesis).storageVersion height version).commit⟩
  | executed height version _ _ hprices hexec ih =>
    obtain ⟨l, hl⟩ := ih
    obtain ⟨l', hl'⟩ := (hl.appliesPrices hprices).executes hexec
    exact ⟨l', (hl'.storageVersion height version).commit⟩
  | proposed height version _ _ hexec hprices ih =>
    obtain ⟨l, hl⟩ := ih
    obtain ⟨l', hl'⟩ := hl.executes hexec
    exact ⟨l', ((hl'.appliesPrices hprices).storageVersion height version).commit⟩

/-- The snapshots of a node are those of a chain, whatever it was asked. -/
theorem NodeRun.chainRun (hlaws : DataItem.Laws) (hlater : handler.EnablesLater)
    (h : NodeRun handler genesis requests node) :
    ∃ b, Sequencer.initChain genesis.genesisState genesis.validators genesis.chainId Base.empty =
        .ok () b ∧
      ∃ steps, ChainRun handler b steps node.storage.latestSnapshot := by
  let Chained (s : State) : Prop :=
    ∃ b, Sequencer.initChain genesis.genesisState genesis.validators genesis.chainId Base.empty =
        .ok () b ∧
      ∃ steps, ChainRun handler b steps s
  refine (h.invariant (P := fun storage => Chained storage.latestSnapshot)
    (Q := fun _ snapshot => Chained snapshot) (fun storage app hinit => ?_)
    (fun _ _ _ hchained => hchained) ?_).1
  · obtain ⟨b, height, hb, -, rfl, -⟩ := Consensus.initChain_eq_ok hinit
    exact ⟨b, hb, [], .genesis height Storage.empty.newVersion⟩
  · intro before node block response snapshot hrun _ _ hnext hsnapshot hstages
    obtain ⟨hstorage, hsound⟩ := hrun.sound hlaws hlater
    obtain ⟨b, hb, steps, hchain⟩ := hsnapshot
    obtain ⟨executed, priced, events, s, batch, hheight, -, hleads, ⟨_, height, -, -, rfl, -⟩, rfl⟩ :=
      hsound.leadsThrough hstorage hnext hstages
    exact ⟨b, hb, hchain.leadsThrough hheight hleads height node.storage.newVersion⟩

/-- So they are states of `Run`. -/
theorem NodeRun.snapshot_run (hlaws : DataItem.Laws) (hlater : handler.EnablesLater)
    (h : NodeRun handler genesis requests node) :
    ∃ l, Run handler l node.storage.latestSnapshot := by
  obtain ⟨b, hb, steps, hchain⟩ := h.chainRun hlaws hlater
  exact hchain.run hb

end

end

end

/-! ## Two nodes -/

section

open TestUtils TestProposal

namespace TestNode

/-- The node finalizes the block and commits it. -/
def commits (node : Node) : Node :=
  (node.handle withoutUpgrades (.finalizeBlock decidedBlock : Request 10)).handle withoutUpgrades
    (.commit : Request 10)

/-- The decided blocks: there is one at the first height. -/
def decided (n : ℕ) : FinalizeBlock :=
  if n = 1 then decidedBlock
  else { hash := none, txs := [], blockData := { proposal.blockData with height := n } }

theorem decided_decided : Decided withoutUpgrades decided := by
  refine ⟨fun n => ?_, fun n withExtendedCommitInfo expanded => pricesApart⟩
  unfold decided
  split_ifs with hone
  · rw [hone]
    rfl
  · rfl

/-- What a node is asked besides the decided block is at most its proposal. -/
theorem follows_decided {requests : List (Request 10)} (h : requests ⊆ [processes]) :
    Follows decided (requests ++ [.finalizeBlock decidedBlock, .commit]) := by
  have hmem : ∀ request ∈ requests ++ [.finalizeBlock decidedBlock, .commit],
      request = processes ∨ request = .finalizeBlock decidedBlock ∨ request = .commit := by
    intro request hin
    rcases List.mem_append.mp hin with hin | hin
    · exact Or.inl (List.mem_singleton.mp (h hin))
    · simpa using Or.inr hin
  constructor
  · intro block hin
    rcases hmem _ hin with hblock | hblock | hblock <;> cases hblock
    rfl
  · intro n request completion' hin hhash
    rcases hmem _ hin with hblock | hblock | hblock <;> cases hblock
    unfold decided at hhash ⊢
    split_ifs at hhash ⊢ with hone
    · exact ⟨rfl, rfl⟩
    · cases hhash

/-- The runs that end with the decided block. -/
theorem commits_run {requests : List (Request 10)} {node : Node}
    (h : NodeRun withoutUpgrades genesisRequest requests node) (hheight : node.storage.nextHeight = 1) :
    NodeRun withoutUpgrades genesisRequest (requests ++ [.finalizeBlock decidedBlock, .commit])
      (commits node) := by
  have hfinalized := NodeRun.handle (.finalizeBlock decidedBlock) h hheight.symm
  have hcommitted := NodeRun.handle .commit hfinalized trivial
  rw [List.append_assoc] at hcommitted
  exact hcommitted

set_option maxRecDepth 10000 in
/-- One node has processed the block as a proposal, and the other one has not. -/
theorem storages_agree_committed :
    (commits processed).storage.nextHeight = 2 ∧
      (commits processed).storage = (commits started).storage := by
  have hprocessed : (commits processed).storage.nextHeight = 2 := by decide +kernel
  have hstarted : (commits started).storage.nextHeight = 2 := by decide +kernel
  refine ⟨hprocessed, ?_⟩
  exact NodeRun.storages_agree laws enablesLater decided_decided
    (commits_run processed_run (by decide +kernel)) (follows_decided (List.Subset.refl _))
    (commits_run started_run (by decide +kernel)) (follows_decided (List.nil_subset _))
    (hprocessed.trans hstarted.symm)

set_option maxRecDepth 10000 in
theorem snapshot_run_committed :
    ∃ l, Run withoutUpgrades l (commits processed).storage.latestSnapshot :=
  (commits_run processed_run (by decide +kernel)).snapshot_run laws enablesLater

end TestNode

end

end Astria.Sequencer
