import Astria.Sequencer.ExecutionState
import Astria.Sequencer.Run

/-!
# The application

The ABCI requests of consensus (`app/mod.rs`, lines 342–681 and 1104–1560, `service/consensus.rs`): a
proposal is prepared or processed, a block is finalized and committed.  Each request works on the state
that earlier ones have left, or starts over from the latest snapshot of the storage.

Definitions:
* `App.prepareProposal`, `App.processProposal`, `App.finalizeBlock`, `App.commit`: the requests;
* `Node.handle`: a node that handles a request, and is started again where the code panics;
* `NodeRun`: a node after any requests in any order.
-/

namespace Astria.Sequencer

open Astria.Core Astria.Lib Exec

/-! ## Storage -/

/-- The root hash of the verifiable part of a snapshot, as cnidarium computes it. -/
class RootHash where
  rootHash : State → Bytes32

/-- `root_hash`. -/
def State.rootHash [hash : RootHash] (s : State) : Bytes32 := hash.rootHash s.verifiable

/-- The storage: its latest snapshot and the version of it. -/
structure Storage where
  latestSnapshot : State
  latestVersion : ℕ

/-- The storage before the genesis: its version is that of cnidarium for a store that is not
initialized. -/
def Storage.empty : Storage := { latestSnapshot := State.empty, latestVersion := u64Max }

/-- The height of the block after the latest snapshot. -/
def Storage.nextHeight (storage : Storage) : ℕ :=
  storage.latestSnapshot.base.chain.blockHeight.getD 0 + 1

/-- The version of the next snapshot, `latest_version().wrapping_add(1)`. -/
def Storage.newVersion (storage : Storage) : ℕ := (storage.latestVersion + 1) % (u64Max + 1)

/-! ## The application -/

/-- `App`, without what serves the mempool and other tasks. -/
structure App where
  state : State
  executionState : ExecutionState
  writeBatch : Option State
  appHash : Bytes32

/-- A computation of the application. -/
abbrev NodeM := Exec Report App

/-- A computation on the state of the application. -/
def onState {α : Type} (x : AppM α) : NodeM α :=
  zoom App.state (fun s app => { app with state := s }) x

/-- A check of the execution state. -/
def checks (check : ExecutionState → Bool × ExecutionState) : NodeM Bool := fun app =>
  .ok (check app.executionState).1 { app with executionState := (check app.executionState).2 }

/-- A transition of the execution state. -/
def transition (next : ExecutionState → Except Report ExecutionState) : NodeM Unit := do
  let executionState ← tryReads fun app : App => next app.executionState
  writes fun app => { app with executionState := executionState }

/-- `abci::response::FinalizeBlock`. -/
structure FinalizeBlockResponse where
  events : List Event
  txResults : List ExecTxResult
  validatorUpdates : List CometbftValidatorUpdate
  consensusParamUpdates : Option ConsensusParams
  appHash : Bytes32
  deriving DecidableEq

namespace App

/-- `App::new`, on the latest snapshot of a storage. -/
def new [RootHash] (storage : Storage) : App :=
  { state := storage.latestSnapshot
    executionState := .unset
    writeBatch := none
    appHash := storage.latestSnapshot.rootHash }

/-- `update_state_for_new_round`: also the ephemeral objects are gone. -/
def updateStateForNewRound (storage : Storage) : NodeM Unit :=
  writes fun app => { app with state := storage.latestSnapshot, executionState := .unset }

section

variable [ext : External]

/-- The data of a block by its height: the data items are typed since the Aspen upgrade. -/
def expandBlockData [TransactionCodec] [BlockCodec] (upgrades : Upgrades) (height : ℕ) (txs : List Bytes)
    (withExtendedCommitInfo : Bool) : Except Report ExpandedBlockData :=
  if upgrades.usesDataItemEnum height then
    ExpandedBlockData.newFromTypedData txs withExtendedCommitInfo
  else ExpandedBlockData.newFromUntypedData txs

variable [UpgradeCodec] [TransactionCodec] [BlockCodec] [VoteCrypto] [RootHash]

/-- `post_execute_transactions`, with the check of the block hash and the execution state. -/
def postExecuteTransactions (handler : UpgradesHandler) (hash : Hash) (data : BlockData)
    (expanded : ExpandedBlockData) (results : List ExecTxResult) : NodeM Unit := do
  let blockHash ← require hash ["block hash is empty; this should not occur"]
  wrapErr "failed to set executed proposal fingerprint, this should not happen"
    (transition (ExecutionState.setExecutedBlock blockHash))
  let block : Block := { hash := blockHash, data := data, expanded := expanded }
  onState (Sequencer.postExecuteTransactions handler (block.postExecution results))

/-- `prepare_proposal`. -/
def prepareProposal {parkedMaxTxCount : ℕ} (handler : UpgradesHandler) (completion : Completion)
    (sort : SortUnstable) (storage : Storage) (mempool : Mempool parkedMaxTxCount)
    (request : PrepareProposal) : NodeM (PreparedProposal parkedMaxTxCount) := do
  updateStateForNewRound storage
  let appHash ← reads App.appHash
  let proposal ← onState
    (Sequencer.prepareProposal handler appHash completion sort mempool request)
  wrapErr "failed to set executed proposal fingerprint, this should not happen"
    (transition (ExecutionState.setPreparedProposal request proposal.txs))
  pure proposal

/-- The validation of the extended commit info of a proposal, if it has one. -/
def validateProposal (completion : Completion) (request : ProcessProposal)
    (expanded : ExpandedBlockData) : AppM Unit :=
  match expanded.extendedCommitInfo with
  | none => pure ()
  | some info => do
    let lastCommit ← require request.proposedLastCommit
      ["proposed last commit is empty; this should not occur"]
    wrapErr "failed to validate extended commit info"
      (validateExtendedCommitInfo completion request.blockData.height lastCommit info.1)

/-- The part of `process_proposal` for a proposal of another node: it is validated and executed. -/
def executeProposal (handler : UpgradesHandler) (appHash : Bytes32) (completion : Completion)
    (request : ProcessProposal) (expanded : ExpandedBlockData) : AppM (List ExecTxResult) := do
  validateProposal completion request expanded
  let hashes ← wrapErr "failed to prepare for executing block"
    (preExecuteTransactions handler.upgrades appHash request.blockData)
  ensureUpgradeChangeHashes expanded hashes
  let txResults ← wrapErr "failed to execute transactions"
    (processProposalTxExecution expanded.userSubmittedTransactions .newUnlimitedCometbft)
  let deposits ← reads fun s => s.base.ephemeral.deposits
  let expected := generateRollupDatasCommitment expanded.userSubmittedTransactions deposits
  ensure (expanded.rollupTransactionsRoot = expected.rollupDatasRoot)
    ["rollup transactions commitment does not match expected"]
  ensure (expanded.rollupIdsRoot = expected.rollupIdsRoot)
    ["rollup IDs commitment does not match expected"]
  pure txResults

/-- A proposal that was prepared has been checked. -/
def ensureValidated : ExecutionState → NodeM Unit
  | .prepared _ => fail ["prepared proposal fingerprint was not validated, this should not happen"]
  | _ => pure ()

/-- The results of the transactions of a proposal: those of `prepare_proposal`, if this node has prepared
it. -/
def proposalResults (handler : UpgradesHandler) (completion : Completion) (storage : Storage)
    (request : ProcessProposal) (expanded : ExpandedBlockData) (skipExecution : Bool) :
    NodeM (List ExecTxResult) :=
  if skipExecution then do
    let cached ← reads fun app : App => app.state.base.ephemeral.executionResults
    require cached ["execution results must be present after executing transactions"]
  else do
    updateStateForNewRound storage
    let appHash ← reads App.appHash
    onState (executeProposal handler appHash completion request expanded)

/-- `process_proposal`: a proposal that this node has prepared is not executed again. -/
def processProposal (handler : UpgradesHandler) (completion : Completion) (storage : Storage)
    (request : ProcessProposal) : NodeM Unit := do
  let skipExecution ← checks (ExecutionState.checkIfPreparedProposal request)
  let executionState ← reads App.executionState
  ensureValidated executionState
  let withExtendedCommitInfo ← reads fun app : App =>
    app.state.base.voteExtensionsEnabled request.blockData.height
  let expanded ← wrapErr "failed to parse data items"
    (lift (expandBlockData handler.upgrades request.blockData.height request.txs
      withExtendedCommitInfo))
  let txResults ← proposalResults handler completion storage request expanded skipExecution
  wrapErr "failed to run post execute transactions handler"
    (postExecuteTransactions handler request.hash request.blockData expanded txResults)

/-- The part of `finalize_block` for a block that was not executed yet. -/
def executeBlock (handler : UpgradesHandler) (request : FinalizeBlock)
    (expanded : ExpandedBlockData) : NodeM Unit := do
  let appHash ← reads App.appHash
  let hashes ← wrapErr "failed to execute block"
    (onState (preExecuteTransactions handler.upgrades appHash request.blockData))
  onState (ensureUpgradeChangeHashes expanded hashes)
  let txResults ← onState (runTransactions expanded.userSubmittedTransactions)
  wrapErr "failed to run post execute transactions handler"
    (postExecuteTransactions handler request.hash request.blockData expanded txResults)

/-- A part of `finalize_block` that a block does not need if it was executed as a proposal. -/
def unlessSkipped (skipExecution : Bool) (x : NodeM Unit) : NodeM Unit :=
  if skipExecution then pure () else x

/-- The prices of a block, if it has any: their events. -/
def applyPricesIfAny (request : FinalizeBlock) (expanded : ExpandedBlockData) :
    AppM (List Event) :=
  match expanded.extendedCommitInfo with
  | none => pure []
  | some info => do
    let (_, events) ← wrapErr "failed to apply prices from vote extensions"
      (applyDelta (applyPrices info.1 request.blockData.time request.blockData.height))
    pure events

/-- `prepare_commit`: the state is taken, and its writes are staged. -/
def prepareCommit (storage : Storage) : NodeM Bytes32 := do
  let state ← reads App.state
  writes fun app => { app with state := storage.latestSnapshot }
  let height ← require state.base.chain.blockHeight
    ["block height must be set, as `put_block_height` was already called"]
  let writeBatch := state.putStorageVersionByHeight height storage.newVersion
  writes fun app => { app with writeBatch := some writeBatch }
  pure writeBatch.rootHash

/-- `init_chain`, behind the parsing of the genesis. -/
def initChain (storage : Storage) (genesis : GenesisAppState) (validators : List ValidatorUpdate)
    (chainId : String) : NodeM Bytes32 := do
  onState (onBase (Sequencer.initChain genesis validators chainId))
  wrapErr "failed to prepare commit" (prepareCommit storage)

/-- `finalize_block`: a block that was executed as a proposal is not executed again.  A missing result is
a panic. -/
def finalizeBlock (handler : UpgradesHandler) (storage : Storage) (request : FinalizeBlock) :
    NodeM FinalizeBlockResponse := do
  let blockHash ← require request.hash ["block hash is empty; this should not occur"]
  let skipExecution ← checks (ExecutionState.checkIfExecutedBlock blockHash)
  unlessSkipped skipExecution (updateStateForNewRound storage)
  let withExtendedCommitInfo ← reads fun app : App =>
    app.state.base.voteExtensionsEnabled request.blockData.height
  let expanded ← wrapErr "failed to parse data items"
    (lift (expandBlockData handler.upgrades request.blockData.height request.txs
      withExtendedCommitInfo))
  let priceEvents ← onState (applyPricesIfAny request expanded)
  unlessSkipped skipExecution (executeBlock handler request expanded)
  let cached ← reads fun app : App => app.state.base.ephemeral.postTransactionExecutionResult
  let result ← require cached
    ["post_transaction_execution_result must be present, as txs were already executed just now or " ++
      "during the proposal phase"]
  let appHash ← wrapErr "failed to prepare commit" (prepareCommit storage)
  pure
    { events := priceEvents ++ result.events
      txResults := result.txResults
      validatorUpdates := result.validatorUpdates
      consensusParamUpdates := result.consensusParamUpdates
      appHash := appHash }

/-- `commit`: the storage afterwards.  A missing batch is a panic. -/
def commit (storage : Storage) : NodeM Storage := do
  let staged ← reads App.writeBatch
  let writeBatch ← require staged
    ["write batch must be set, as `finalize_block` is always called before `commit`"]
  let committed : Storage :=
    { latestSnapshot := writeBatch.commit
      latestVersion := storage.newVersion }
  writes fun app => { app with writeBatch := none, appHash := committed.latestSnapshot.rootHash }
  updateStateForNewRound committed
  pure committed

end

end App

/-! ## A node -/

/-- A node: its storage and its application. -/
structure Node where
  storage : Storage
  app : App

/-- `abci::request::InitChain`, parsed. -/
structure InitChain where
  genesisState : GenesisAppState
  validators : List ValidatorUpdate
  chainId : String

/-- A request of consensus, with what the node finds when it handles it. -/
inductive Request (parkedMaxTxCount : ℕ) where
  | prepareProposal (request : PrepareProposal) (mempool : Mempool parkedMaxTxCount)
      (sort : SortUnstable) (completion : Completion)
  | processProposal (request : ProcessProposal) (completion : Completion)
  | finalizeBlock (request : FinalizeBlock)
  | commit
  /-- The process ends and is started again. -/
  | restart

variable {parkedMaxTxCount : ℕ}

namespace Node

/-- The node as it starts. -/
def start [RootHash] (storage : Storage) : Node := { storage := storage, app := App.new storage }

/-- The node after a request that may not fail: `Consensus::run` panics on its error, and the process
is started again. -/
def orRestart {α : Type} [RootHash] (node : Node) : EStateM.Result Report App α → Node
  | .ok _ app => { node with app := app }
  | .error _ _ => start node.storage

end Node

section

variable [ext : External] [RootHash]

/-- `Consensus::init_chain`: the storage after the genesis. -/
def Consensus.initChain (storage : Storage) (request : InitChain) : NodeM Storage := do
  ensure (storage.latestVersion = u64Max) ["database already initialized"]
  let _ ← wrapErr "failed to call init_chain"
    (App.initChain storage request.genesisState request.validators request.chainId)
  wrapErr "failed to commit" (App.commit storage)

variable [UpgradeCodec] [transactions : TransactionCodec] [blocks : BlockCodec] [VoteCrypto]

/-- The node after a request (`handle_request`): a proposal that fails is rejected. -/
def Node.handle (handler : UpgradesHandler) (node : Node) : Request parkedMaxTxCount → Node
  | .prepareProposal request mempool sort completion =>
    node.orRestart (App.prepareProposal handler completion sort node.storage mempool request node.app)
  | .processProposal request completion =>
    { node with app := final (App.processProposal handler completion node.storage request node.app) }
  | .finalizeBlock request =>
    node.orRestart (App.finalizeBlock handler node.storage request node.app)
  | .commit =>
    match App.commit node.storage node.app with
    | .ok storage app => { storage := storage, app := app }
    | .error _ _ => start node.storage
  | .restart => start node.storage

/-- The transaction is read back from its encoding. -/
def Decodes (tx : Transaction) : Prop :=
  blocks.decodeTransaction (transactions.encodeTransaction tx) = some tx

/-- What CometBFT and the mempool see to: the requests are about the height after the last commit, and the
mempool holds transactions that were decoded. -/
def Request.Legal (storage : Storage) : Request parkedMaxTxCount → Prop
  | .prepareProposal request mempool sort _ =>
    request.blockData.height = storage.nextHeight ∧
      ∀ entry ∈ PendingTransactions.builderQueue sort mempool.pending, Decodes entry.2
  | .processProposal request _ => request.blockData.height = storage.nextHeight
  | .finalizeBlock request => request.blockData.height = storage.nextHeight
  | _ => True

/-- A node after the genesis and any requests in any order. -/
inductive NodeRun (handler : UpgradesHandler) (genesis : InitChain) :
    List (Request parkedMaxTxCount) → Node → Prop
  | genesis {storage : Storage} {app : App} :
      Consensus.initChain Storage.empty genesis (App.new Storage.empty) = .ok storage app →
      NodeRun handler genesis [] { storage := storage, app := app }
  | handle {requests : List (Request parkedMaxTxCount)} {node : Node}
      (request : Request parkedMaxTxCount) :
      NodeRun handler genesis requests node → request.Legal node.storage →
      NodeRun handler genesis (requests ++ [request]) (node.handle handler request)

end

end Astria.Sequencer
