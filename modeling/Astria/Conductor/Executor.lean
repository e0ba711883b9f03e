import Astria.Core.SequencerBlock
import Astria.Conductor.State

/-!
# The executor

Executing soft and firm blocks on a rollup and moving its commitment state
(`crates/astria-conductor/src/executor/mod.rs`, `executor/client.rs`).

The rollup is a parameter: its calls run on a state of its own.  A call that is retried until it
returns is one call here.  The world of an executor also lists the blocks that the rollup executed,
which the executor itself does not keep.

Results:
* `updateCommitmentState_eq_ok`, `executeBlock_eq_ok`: what the two calls of the executor do;
* `executeSoft_cases`, `executeFirm_cases`: all that a successful soft or firm block does.
-/

namespace Astria.Conductor

open Astria.Core Astria.Lib Exec
open Astria.Sequencer (BlockHash BlockCodec ExtendedCommitInfoWithMapping wrapErr)

/-! ## The rollup -/

/-- `raw::CommitmentState`. -/
structure RawCommitmentState where
  soft : Option ExecutedBlockMetadata
  firm : Option ExecutedBlockMetadata
  lowestCelestiaSearchHeight : ℕ
  deriving DecidableEq

/-- `CommitmentState::into_raw`. -/
def CommitmentState.intoRaw (c : CommitmentState) : RawCommitmentState :=
  { soft := some c.soft
    firm := some c.firm
    lowestCelestiaSearchHeight := c.lowestCelestiaSearchHeight }

/-- `CommitmentState::try_from_raw`. -/
def CommitmentState.tryFromRaw (raw : RawCommitmentState) : Except Report CommitmentState :=
  match raw.soft with
  | none => .error ["field `..soft` not set"]
  | some soft =>
    match raw.firm with
    | none => .error ["field `..firm` not set"]
    | some firm =>
      match CommitmentState.build firm soft raw.lowestCelestiaSearchHeight with
      | .ok c => .ok c
      | .error e => .error ("firm commitment height exceeded soft commitment height" :: e)

@[simp] theorem CommitmentState.tryFromRaw_intoRaw (c : CommitmentState) :
    CommitmentState.tryFromRaw c.intoRaw = .ok c := by
  show (match CommitmentState.build c.firm c.soft c.lowestCelestiaSearchHeight with
    | .ok c => _ | .error e => _) = _
  rw [CommitmentState.build_eq_ok.mpr ⟨rfl, rfl, rfl⟩]

/-- `raw::ExecuteBlockRequest`; a transaction is a decoded `RollupData`, as its encoding. -/
structure ExecuteBlockRequest where
  sessionId : String
  parentHash : String
  transactions : List Bytes
  timestamp : Timestamp
  sequencerBlockHash : String
  deriving DecidableEq

/-- The execution API of a rollup whose state is a `ρ`. -/
class Rollup (ρ : Type) where
  executeBlock : ExecuteBlockRequest → Exec Report ρ ExecutedBlockMetadata
  getExecutedBlockMetadata : ℕ → Exec Report ρ ExecutedBlockMetadata
  updateCommitmentState : String → CommitmentState → Exec Report ρ RawCommitmentState

/-- The codec of the messages of the rollup data. -/
class RollupDataCodec where
  /-- The encoding of a `RollupData::PriceFeedData`. -/
  encodePriceFeedData : List Price → Bytes
  /-- `RollupData::decode`. -/
  decodeRollupData : Bytes → Option Bytes

/-! ## Blocks -/

/-- `ReconstructedBlock` (`celestia/mod.rs`). -/
structure ReconstructedBlock where
  celestiaHeight : ℕ
  blockHash : BlockHash
  header : SequencerBlockHeader
  transactions : List Bytes
  extendedCommitInfo : Option ExtendedCommitInfoWithMapping

def ReconstructedBlock.sequencerHeight (block : ReconstructedBlock) : ℕ := block.header.height

/-- `ExecutableBlock`. -/
structure ExecutableBlock where
  hash : BlockHash
  height : ℕ
  timestamp : Timestamp
  transactions : List Bytes
  deriving DecidableEq

/-- `convert_tendermint_time_to_protobuf_timestamp`. -/
def convertTendermintTimeToProtobufTimestamp (time : ℕ) : Timestamp :=
  { seconds := time / 10 ^ 9, nanos := time % 10 ^ 9 }

/-- The `Display` form of a block hash. -/
def displayHash (hash : BlockHash) : String := String.ofList (hash.toList.flatMap Denom.hexByte)

section

variable [codec : BlockCodec] [dataCodec : RollupDataCodec]

/-- `prepend_transactions_by_price_feed_if_exists`. -/
def prependTransactionsByPriceFeedIfExists (transactions : List Bytes)
    (extendedCommitInfo : Option ExtendedCommitInfoWithMapping) : List Bytes :=
  match extendedCommitInfo with
  | none => transactions
  | some info =>
    match calculatePrices info with
    | .error _ => transactions
    | .ok prices => dataCodec.encodePriceFeedData prices :: transactions

/-- `ExecutableBlock::from_reconstructed`. -/
def ExecutableBlock.fromReconstructed (block : ReconstructedBlock) : ExecutableBlock :=
  { hash := block.blockHash
    height := block.header.height
    timestamp := convertTendermintTimeToProtobufTimestamp block.header.time
    transactions :=
      prependTransactionsByPriceFeedIfExists block.transactions block.extendedCommitInfo }

/-- `ExecutableBlock::from_sequencer`. -/
def ExecutableBlock.fromSequencer (block : FilteredSequencerBlock) (id : RollupId) :
    ExecutableBlock :=
  { hash := block.blockHash
    height := block.header.height
    timestamp := convertTendermintTimeToProtobufTimestamp block.header.time
    transactions :=
      prependTransactionsByPriceFeedIfExists (block.transactionsOf id) block.extendedCommitInfo }

end

/-! ## The world of an executor -/

/-- The fields of `Initialized` that its blocks work on. -/
structure Initialized where
  executionCommitLevel : CommitLevel
  state : State
  blocksPendingFinalization : ℕ → Option ExecutedBlockMetadata

/-- A block that the rollup executed on a parent, and what it returned. -/
structure Execution where
  parentHash : String
  block : ExecutableBlock
  result : ExecutedBlockMetadata

/-- An executor, its rollup and what the rollup executed for it, the oldest first. -/
structure World (ρ : Type) where
  executor : Initialized
  rollup : ρ
  executions : List Execution

namespace World

variable {ρ : Type}

def state (w : World ρ) : State := w.executor.state

def commitLevel (w : World ρ) : CommitLevel := w.executor.executionCommitLevel

def pending (w : World ρ) : ℕ → Option ExecutedBlockMetadata := w.executor.blocksPendingFinalization

def setCommitmentState (c : CommitmentState) (w : World ρ) : World ρ :=
  { w with executor := { w.executor with state := { w.executor.state with commitmentState := c } } }

def setRollup (r : ρ) (w : World ρ) : World ρ := { w with rollup := r }

def addExecution (x : Execution) (w : World ρ) : World ρ :=
  { w with executions := w.executions ++ [x] }

/-- `blocks_pending_finalization.insert`. -/
def insertPending (number : ℕ) (block : ExecutedBlockMetadata) (w : World ρ) : World ρ :=
  { w with executor :=
    { w.executor with blocksPendingFinalization := Function.update w.pending number (some block) } }

/-- `blocks_pending_finalization.remove`. -/
def removePending (number : ℕ) (w : World ρ) : World ρ :=
  { w with executor :=
    { w.executor with blocksPendingFinalization := Function.update w.pending number none } }

section

variable (c : CommitmentState) (r : ρ) (x : Execution) (n : ℕ) (b : ExecutedBlockMetadata) (w : World ρ)

@[simp] theorem setCommitmentState_state :
    (w.setCommitmentState c).state = { w.state with commitmentState := c } := rfl
@[simp] theorem setCommitmentState_commitLevel :
    (w.setCommitmentState c).commitLevel = w.commitLevel := rfl
@[simp] theorem setCommitmentState_pending : (w.setCommitmentState c).pending = w.pending := rfl
@[simp] theorem setCommitmentState_executions :
    (w.setCommitmentState c).executions = w.executions := rfl
@[simp] theorem setCommitmentState_rollup : (w.setCommitmentState c).rollup = w.rollup := rfl
@[simp] theorem setRollup_state : (w.setRollup r).state = w.state := rfl
@[simp] theorem setRollup_commitLevel : (w.setRollup r).commitLevel = w.commitLevel := rfl
@[simp] theorem setRollup_pending : (w.setRollup r).pending = w.pending := rfl
@[simp] theorem setRollup_executions : (w.setRollup r).executions = w.executions := rfl
@[simp] theorem setRollup_rollup : (w.setRollup r).rollup = r := rfl
@[simp] theorem addExecution_state : (w.addExecution x).state = w.state := rfl
@[simp] theorem addExecution_commitLevel : (w.addExecution x).commitLevel = w.commitLevel := rfl
@[simp] theorem addExecution_pending : (w.addExecution x).pending = w.pending := rfl
@[simp] theorem addExecution_executions : (w.addExecution x).executions = w.executions ++ [x] := rfl
@[simp] theorem addExecution_rollup : (w.addExecution x).rollup = w.rollup := rfl
@[simp] theorem insertPending_state : (w.insertPending n b).state = w.state := rfl
@[simp] theorem insertPending_commitLevel : (w.insertPending n b).commitLevel = w.commitLevel := rfl
@[simp] theorem insertPending_pending :
    (w.insertPending n b).pending = Function.update w.pending n (some b) := rfl
@[simp] theorem insertPending_executions : (w.insertPending n b).executions = w.executions := rfl
@[simp] theorem insertPending_rollup : (w.insertPending n b).rollup = w.rollup := rfl
@[simp] theorem removePending_state : (w.removePending n).state = w.state := rfl
@[simp] theorem removePending_commitLevel : (w.removePending n).commitLevel = w.commitLevel := rfl
@[simp] theorem removePending_pending :
    (w.removePending n).pending = Function.update w.pending n none := rfl
@[simp] theorem removePending_executions : (w.removePending n).executions = w.executions := rfl
@[simp] theorem removePending_rollup : (w.removePending n).rollup = w.rollup := rfl

end

end World

/-- Computations of an executor. -/
abbrev ExecutorM (ρ : Type) := Exec Report (World ρ)

/-! ## The client -/

section

variable [codec : BlockCodec] [dataCodec : RollupDataCodec] {ρ : Type} [rollup : Rollup ρ]

/-- A call of the rollup. -/
def callRollup {α : Type} (x : Exec Report ρ α) : ExecutorM ρ α :=
  zoom World.rollup World.setRollup x

/-- The transactions of a request: every one has to decode. -/
def decodeTransactions (transactions : List Bytes) : Option (List Bytes) :=
  transactions.mapM dataCodec.decodeRollupData

/-- `Client::execute_block_with_retry`, on the parts of a block. -/
def executeBlockWithRetry (sessionId parentHash : String) (block : ExecutableBlock) :
    ExecutorM ρ ExecutedBlockMetadata := do
  let transactions ← require (decodeTransactions block.transactions)
    ["failed to decode tx bytes as RollupData"]
  wrapErr ("failed to execute astria.execution.v2.ExecuteBlock RPC because of gRPC status code " ++
      "or because number of retries were exhausted")
    (callRollup (rollup.executeBlock
      { sessionId := sessionId
        parentHash := parentHash
        transactions := transactions
        timestamp := block.timestamp
        sequencerBlockHash := displayHash block.hash }))

/-- `Client::get_executed_block_metadata_with_retry`. -/
def getExecutedBlockMetadataWithRetry (blockNumber : ℕ) : ExecutorM ρ ExecutedBlockMetadata := do
  let metadata ←
    wrapErr ("failed to execute astria.execution.v1.GetBlocks RPC because of gRPC status code or " ++
        "because number of retries were exhausted")
      (callRollup (rollup.getExecutedBlockMetadata blockNumber))
  ensure (blockNumber = metadata.number)
    [s!"requested block at number `{blockNumber}`, but received block contained `{metadata.number}`"]
  pure metadata

/-- `Client::update_commitment_state_with_retry`. -/
def updateCommitmentStateWithRetry (sessionId : String) (c : CommitmentState) :
    ExecutorM ρ CommitmentState := do
  let raw ←
    wrapErr ("failed to execute astria.execution.v2.UpdateCommitmentState RPC because of gRPC " ++
        "status code or because number of retries were exhausted")
      (callRollup (rollup.updateCommitmentState sessionId c))
  wrapErr "failed converting raw response to validated commitment state"
    (lift (CommitmentState.tryFromRaw raw))

/-! ## The executor -/

/-- `execute_block`. -/
def executeBlock (sessionId parentHash : String) (block : ExecutableBlock) :
    ExecutorM ρ ExecutedBlockMetadata := do
  let metadata ← wrapErr "failed to run execute_block RPC"
    (executeBlockWithRetry sessionId parentHash block)
  writes (World.addExecution { parentHash := parentHash, block := block, result := metadata })
  pure metadata

/-- `ExecutionKind`. -/
inductive ExecutionKind where
  | firm
  | soft
  deriving DecidableEq

/-- The `Display` form. -/
def ExecutionKind.display : ExecutionKind → String
  | firm => "firm"
  | soft => "soft"

/-- The block that a block of a kind is executed on. -/
def ExecutionKind.head (s : State) : ExecutionKind → ExecutedBlockMetadata
  | firm => s.firm
  | soft => s.soft

/-- `does_block_response_fulfill_contract`. -/
def doesBlockResponseFulfillContract (kind : ExecutionKind) (block : ExecutedBlockMetadata)
    (s : State) : Except Report Unit :=
  let current := (kind.head s).number
  match checkedAdd u64Max current 1 with
  | none => .error ["contract violated: current height cannot be incremented"]
  | some expected =>
    if block.number = expected then .ok ()
    else
      .error [s!"contract violated: execution kind: {kind.display}, current block number {
        current}, expected {expected}, received {block.number}"]

/-- `Update`. -/
inductive Update where
  | onlyFirm (block : ExecutedBlockMetadata) (celestiaHeight : ℕ)
  | onlySoft (block : ExecutedBlockMetadata)
  | toSame (block : ExecutedBlockMetadata) (celestiaHeight : ℕ)

namespace Update

/-- The firm block after an update. -/
def firm (s : State) : Update → ExecutedBlockMetadata
  | onlyFirm block _ => block
  | onlySoft _ => s.firm
  | toSame block _ => block

/-- The soft block after an update. -/
def soft (s : State) : Update → ExecutedBlockMetadata
  | onlyFirm _ _ => s.soft
  | onlySoft block => block
  | toSame block _ => block

/-- The Celestia height after an update. -/
def celestiaHeight (s : State) : Update → ℕ
  | onlyFirm _ height => height
  | onlySoft _ => s.commitmentState.lowestCelestiaSearchHeight
  | toSame _ height => height

/-- The heights that an update has to have. -/
def commitLevel : Update → CommitLevel
  | onlyFirm _ _ => .firmOnly
  | onlySoft _ => .softOnly
  | toSame _ _ => .softAndFirm

end Update

/-- `try_update_commitment_state` on the state of the executor. -/
def trackCommitmentState (c : CommitmentState) (commitLevel : CommitLevel) : ExecutorM ρ Unit := do
  let s ← tryReads fun w =>
    match w.state.tryUpdateCommitmentState c commitLevel with
    | .ok s => .ok s
    | .error e => .error [e.display]
  writes (World.setCommitmentState s.commitmentState)

/-- `update_commitment_state`. -/
def updateCommitmentState (update : Update) : ExecutorM ρ Unit := do
  let s ← reads World.state
  let c ← wrapErr "failed constructing commitment state"
    (lift (CommitmentState.build (update.firm s) (update.soft s) (update.celestiaHeight s)))
  let new ← wrapErr "failed updating remote commitment state"
    (updateCommitmentStateWithRetry s.executionSessionId c)
  wrapErr "failed updating internal state tracking rollup state; invalid?"
    (trackCommitmentState new update.commitLevel)

/-- `StateSender::next_expected_firm_sequencer_height`, with its panic. -/
def expectFirmHeight : ExecutorM ρ ℕ := do
  let height ← reads fun w => w.state.nextExpectedFirmSequencerHeight
  require height
    ["the tracked state must never be set to a genesis/commitment state that cannot be mapped to " ++
      "a cometbft Sequencer height"]

/-- `StateSender::next_expected_soft_sequencer_height`, with its panic. -/
def expectSoftHeight : ExecutorM ρ ℕ := do
  let height ← reads fun w => w.state.nextExpectedSoftSequencerHeight
  require height
    ["the tracked state must never be set to a genesis/commitment state that cannot be mapped to " ++
      "a cometbft Sequencer height"]

/-- The rollup number of a sequencer height under the parameters of the session. -/
def rollupNumber (height : ℕ) : ExecutorM ρ ℕ :=
  wrapErr "failed to map current block height to rollup number"
    (tryReads fun w =>
      tryMapSequencerHeightToRollupHeight w.state.executionSessionParameters.sequencerStartBlockHeight
        w.state.executionSessionParameters.rollupStartBlockNumber height)

/-- The checked execution of a block, `execute_block` and the contract of its response. -/
def executeChecked (kind : ExecutionKind) (block : ExecutableBlock) :
    ExecutorM ρ ExecutedBlockMetadata := do
  let s ← reads World.state
  let executed ← wrapErr "failed to execute block"
    (executeBlock s.executionSessionId (kind.head s).hash block)
  wrapErr "execution API server violated contract"
    (tryReads fun w => doesBlockResponseFulfillContract kind executed w.state)
  pure executed

/-- `execute_soft`. -/
def executeSoft (block : FilteredSequencerBlock) : ExecutorM ρ Unit := do
  let s ← reads World.state
  let executableBlock := ExecutableBlock.fromSequencer block s.executionSessionParameters.rollupId
  let expectedHeight ← expectSoftHeight
  if executableBlock.height < expectedHeight then pure ()
  else if expectedHeight < executableBlock.height then
    fail [s!"block received was out-of-order; was a block skipped? expected: {
      expectedHeight}, actual: {executableBlock.height}"]
  else do
    let blockNumber ← rollupNumber executableBlock.height
    let executed ← executeChecked .soft executableBlock
    wrapErr "failed to update soft commitment state" (updateCommitmentState (.onlySoft executed))
    writes (World.insertPending blockNumber executed)

/-- `should_execute_firm_block`. -/
def shouldExecuteFirmBlock (firmSequencerHeight softSequencerHeight : ℕ) :
    CommitLevel → Bool
  | .softAndFirm => firmSequencerHeight = softSequencerHeight
  | .softOnly => false
  | .firmOnly => true

/-- The update for a firm block that is not executed: the pending block of its number, or else the
one that the rollup has. -/
def confirmPending (blockNumber celestiaHeight : ℕ) : ExecutorM ρ Update := do
  let pending ← reads fun w => w.pending blockNumber
  match pending with
  | some block => do
    writes (World.removePending blockNumber)
    pure (.onlyFirm block celestiaHeight)
  | none => do
    let block ← wrapErr s!"failed to get block at number `{blockNumber}` from rollup"
      (getExecutedBlockMetadataWithRetry blockNumber)
    pure (.onlyFirm block celestiaHeight)

/-- The update for a firm block: it is executed, or confirms a block that the rollup has. -/
def firmUpdate (block : ExecutableBlock) (blockNumber celestiaHeight : ℕ) : ExecutorM ρ Update := do
  let firmHeight ← expectFirmHeight
  let softHeight ← expectSoftHeight
  let level ← reads World.commitLevel
  if shouldExecuteFirmBlock firmHeight softHeight level then do
    let executed ← executeChecked .firm block
    pure (.toSame executed celestiaHeight)
  else confirmPending blockNumber celestiaHeight

/-- `execute_firm`. -/
def executeFirm (block : ReconstructedBlock) : ExecutorM ρ Unit := do
  let executableBlock := ExecutableBlock.fromReconstructed block
  let expectedHeight ← expectFirmHeight
  ensure (executableBlock.height = expectedHeight)
    [s!"expected block at sequencer height {expectedHeight}, but got {executableBlock.height}"]
  let blockNumber ← rollupNumber executableBlock.height
  let update ← firmUpdate executableBlock blockNumber block.celestiaHeight
  wrapErr "failed to setting both commitment states to executed block" (updateCommitmentState update)

end

/-! ## What the calls do -/

/-- The rollup returns every commitment state that it accepts. -/
def Echoes (ρ : Type) [rollup : Rollup ρ] : Prop :=
  ∀ (sessionId : String) (c : CommitmentState) (r r' : ρ) (raw : RawCommitmentState),
    rollup.updateCommitmentState sessionId c r = .ok raw r' → raw = c.intoRaw

theorem doesBlockResponseFulfillContract_eq_ok {kind : ExecutionKind} {block : ExecutedBlockMetadata}
    {s : State} :
    doesBlockResponseFulfillContract kind block s = .ok () ↔
      block.number = (kind.head s).number + 1 ∧ block.number ≤ u64Max := by
  unfold doesBlockResponseFulfillContract
  by_cases h : (kind.head s).number + 1 ≤ u64Max
  · simp only [checkedAdd_eq_some.mpr ⟨rfl, h⟩]
    by_cases hnumber : block.number = (kind.head s).number + 1
    · rw [if_pos hnumber, hnumber]
      exact iff_of_true rfl ⟨rfl, h⟩
    · rw [if_neg hnumber]
      exact iff_of_false (by simp) fun h => hnumber h.1
  · simp only [checkedAdd_eq_none.mpr (not_le.mp h)]
    exact iff_of_false (by simp) (by omega)

section

variable {ρ : Type} {w w' : World ρ}

theorem callRollup_eq_ok {α : Type} {x : Exec Report ρ α} {a : α} :
    callRollup x w = .ok a w' ↔ ∃ r, x w.rollup = .ok a r ∧ w' = w.setRollup r :=
  zoom_eq_ok

theorem callRollup_eq_error {α : Type} {x : Exec Report ρ α} {e : Report} :
    callRollup x w = .error e w' ↔ ∃ r, x w.rollup = .error e r ∧ w' = w.setRollup r :=
  zoom_eq_error

theorem trackCommitmentState_eq_ok {c : CommitmentState} {commitLevel : CommitLevel} :
    trackCommitmentState c commitLevel w = .ok () w' ↔
      checkHeights w.state.executionSessionParameters c commitLevel = .ok () ∧
        w' = w.setCommitmentState c := by
  simp only [trackCommitmentState, bind_eq_ok, tryReads_eq_ok, writes_eq_ok]
  constructor
  · rintro ⟨s, _, ⟨hs, rfl⟩, rfl⟩
    split at hs
    next s' hs' =>
      rw [Except.ok.injEq] at hs
      obtain ⟨hcheck, rfl⟩ := State.tryUpdateCommitmentState_eq_ok.mp hs'
      exact ⟨hcheck, by rw [← hs]⟩
    · cases hs
  · rintro ⟨hcheck, rfl⟩
    refine ⟨{ w.state with commitmentState := c }, w, ⟨?_, rfl⟩, rfl⟩
    rw [State.tryUpdateCommitmentState_eq_ok.mpr ⟨hcheck, rfl⟩]

variable [rollup : Rollup ρ]

/-- The commitment state that an update moves a tracked state to. -/
structure Tracks (update : Update) (s : State) (c : CommitmentState) : Prop where
  firm_eq : c.firm = update.firm s
  soft_eq : c.soft = update.soft s
  celestiaHeight_eq : c.lowestCelestiaSearchHeight = update.celestiaHeight s
  heights : checkHeights s.executionSessionParameters c update.commitLevel = .ok ()

theorem updateCommitmentState_eq_ok (he : Echoes ρ) {update : Update} :
    updateCommitmentState update w = .ok () w' ↔
      ∃ c r, Tracks update w.state c ∧
        rollup.updateCommitmentState w.state.executionSessionId c w.rollup = .ok c.intoRaw r ∧
        w' = (w.setRollup r).setCommitmentState c := by
  simp only [updateCommitmentState, updateCommitmentStateWithRetry, bind_eq_ok, mapErr_eq_ok,
    reads_eq_ok, lift_eq_ok, callRollup_eq_ok, CommitmentState.build_eq_ok]
  constructor
  · rintro ⟨_, _, ⟨rfl, rfl⟩, c, _, ⟨⟨hfirm, hsoft, hheight⟩, rfl⟩, new, _,
      ⟨raw, _, ⟨r, hr, rfl⟩, hraw, rfl⟩, htrack⟩
    obtain rfl := he _ _ _ _ _ hr
    rw [CommitmentState.tryFromRaw_intoRaw, Except.ok.injEq] at hraw
    obtain ⟨hcheck, rfl⟩ := trackCommitmentState_eq_ok.mp htrack
    exact ⟨c, r, ⟨hfirm, hsoft, hheight, hraw ▸ hcheck⟩, hr, by rw [hraw]⟩
  · rintro ⟨c, r, ⟨hfirm, hsoft, hheight, hcheck⟩, hr, rfl⟩
    exact ⟨_, _, ⟨rfl, rfl⟩, c, _, ⟨⟨hfirm, hsoft, hheight⟩, rfl⟩, c, _,
      ⟨_, _, ⟨r, hr, rfl⟩, CommitmentState.tryFromRaw_intoRaw c, rfl⟩,
      trackCommitmentState_eq_ok.mpr ⟨hcheck, rfl⟩⟩

variable [dataCodec : RollupDataCodec]

theorem executeBlock_eq_ok {sessionId parentHash : String} {block : ExecutableBlock}
    {m : ExecutedBlockMetadata} :
    executeBlock sessionId parentHash block w = .ok m w' ↔
      ∃ transactions r, decodeTransactions block.transactions = some transactions ∧
        rollup.executeBlock
          { sessionId := sessionId
            parentHash := parentHash
            transactions := transactions
            timestamp := block.timestamp
            sequencerBlockHash := displayHash block.hash } w.rollup = .ok m r ∧
        w' = (w.setRollup r).addExecution { parentHash := parentHash, block := block, result := m } := by
  simp only [executeBlock, executeBlockWithRetry, bind_eq_ok, mapErr_eq_ok, require_eq_ok,
    callRollup_eq_ok, writes_eq_ok, pure_eq_ok]
  constructor
  · rintro ⟨_, t, ⟨txs, _, ⟨htxs, rfl⟩, r, hr, rfl⟩, _, _, rfl, rfl, rfl⟩
    exact ⟨txs, r, htxs, hr, rfl⟩
  · rintro ⟨txs, r, htxs, hr, rfl⟩
    exact ⟨m, _, ⟨txs, _, ⟨htxs, rfl⟩, r, hr, rfl⟩, (), _, rfl, rfl, rfl⟩

theorem executeChecked_eq_ok {kind : ExecutionKind} {block : ExecutableBlock}
    {m : ExecutedBlockMetadata} :
    executeChecked kind block w = .ok m w' ↔
      executeBlock w.state.executionSessionId (kind.head w.state).hash block w = .ok m w' ∧
        m.number = (kind.head w.state).number + 1 ∧ m.number ≤ u64Max := by
  simp only [executeChecked, bind_eq_ok, mapErr_eq_ok, reads_eq_ok, tryReads_eq_ok, pure_eq_ok]
  constructor
  · rintro ⟨_, _, ⟨rfl, rfl⟩, m', t, hexecute, _, _, ⟨hcontract, rfl⟩, rfl, rfl⟩
    refine ⟨hexecute, ?_⟩
    obtain ⟨-, r, -, -, rfl⟩ := executeBlock_eq_ok.mp hexecute
    exact doesBlockResponseFulfillContract_eq_ok.mp hcontract
  · rintro ⟨hexecute, hcontract⟩
    refine ⟨_, _, ⟨rfl, rfl⟩, m, w', hexecute, (), w', ⟨?_, rfl⟩, rfl, rfl⟩
    obtain ⟨-, r, -, -, rfl⟩ := executeBlock_eq_ok.mp hexecute
    exact doesBlockResponseFulfillContract_eq_ok.mpr hcontract

end

/-! ## What a block does -/

section

variable {ρ : Type} {w w' : World ρ}

theorem expectFirmHeight_eq_ok {height : ℕ} :
    expectFirmHeight w = .ok height w' ↔
      w.state.nextExpectedFirmSequencerHeight = some height ∧ w' = w := by
  simp only [expectFirmHeight, bind_eq_ok, reads_eq_ok, require_eq_ok]
  constructor
  · rintro ⟨_, _, ⟨rfl, rfl⟩, h, rfl⟩
    exact ⟨h, rfl⟩
  · rintro ⟨h, rfl⟩
    exact ⟨_, _, ⟨rfl, rfl⟩, h, rfl⟩

theorem expectSoftHeight_eq_ok {height : ℕ} :
    expectSoftHeight w = .ok height w' ↔
      w.state.nextExpectedSoftSequencerHeight = some height ∧ w' = w := by
  simp only [expectSoftHeight, bind_eq_ok, reads_eq_ok, require_eq_ok]
  constructor
  · rintro ⟨_, _, ⟨rfl, rfl⟩, h, rfl⟩
    exact ⟨h, rfl⟩
  · rintro ⟨h, rfl⟩
    exact ⟨_, _, ⟨rfl, rfl⟩, h, rfl⟩

/-- The rollup number of the height expected after a number is the next one. -/
theorem rollupNumber_eq_ok {number height n : ℕ} (h : w.state.nextExpectedHeight number = some height) :
    rollupNumber height w = .ok n w' ↔ n = number + 1 ∧ w' = w := by
  simp only [rollupNumber, mapErr_eq_ok, tryReads_eq_ok,
    State.tryMapSequencerHeightToRollupHeight_next h, Except.ok.injEq, eq_comm (a := n)]

variable [rollup : Rollup ρ]

/-- The block that a firm block is confirmed with: the pending one of its number, or the one that
the rollup has. -/
theorem confirmPending_cases {number celestiaHeight : ℕ} {update : Update}
    (h : confirmPending number celestiaHeight w = .ok update w') :
    (∃ m, w.pending number = some m ∧ update = .onlyFirm m celestiaHeight ∧
        w' = w.removePending number) ∨
      ∃ m r, w.pending number = none ∧ m.number = number ∧ update = .onlyFirm m celestiaHeight ∧
        w' = w.setRollup r := by
  simp only [confirmPending, bind_eq_ok, reads_eq_ok] at h
  obtain ⟨_, w, ⟨rfl, rfl⟩, h⟩ := h
  cases hm : w.pending number with
  | some m =>
    simp only [hm, bind_eq_ok, writes_eq_ok, pure_eq_ok] at h
    obtain ⟨_, _, rfl, rfl, rfl⟩ := h
    exact Or.inl ⟨m, rfl, rfl, rfl⟩
  | none =>
    simp only [hm, getExecutedBlockMetadataWithRetry, bind_eq_ok, mapErr_eq_ok, callRollup_eq_ok,
      ensure_eq_ok, pure_eq_ok] at h
    obtain ⟨m, _, ⟨_, _, ⟨r, -, rfl⟩, _, _, ⟨hnumber, rfl⟩, rfl, rfl⟩, rfl, rfl⟩ := h
    exact Or.inr ⟨m, r, rfl, hnumber.symm, rfl, rfl⟩

variable [codec : BlockCodec] [dataCodec : RollupDataCodec]

/-- The soft block that a world executes. -/
def softExecutable (w : World ρ) (block : FilteredSequencerBlock) : ExecutableBlock :=
  ExecutableBlock.fromSequencer block w.state.executionSessionParameters.rollupId

/-- A soft block is dropped, or executed on the soft block and kept until it is finalized. -/
theorem executeSoft_cases (he : Echoes ρ) {block : FilteredSequencerBlock}
    (h : executeSoft block w = .ok () w') :
    ∃ expected, w.state.nextExpectedSoftSequencerHeight = some expected ∧
      (block.height < expected ∧ w' = w ∨
        block.height = expected ∧ ∃ m c r,
          m.number = w.state.softNumber + 1 ∧ Tracks (.onlySoft m) w.state c ∧
          w' = (((w.addExecution
              { parentHash := w.state.soft.hash, block := softExecutable w block, result := m }
            ).setCommitmentState c).insertPending (w.state.softNumber + 1) m).setRollup r) := by
  simp only [executeSoft, bind_eq_ok, reads_eq_ok] at h
  obtain ⟨_, _, ⟨rfl, rfl⟩, expected, _, hexpected, h⟩ := h
  obtain ⟨hexpected, rfl⟩ := expectSoftHeight_eq_ok.mp hexpected
  refine ⟨expected, hexpected, ?_⟩
  split_ifs at h with hlt hgt
  · exact Or.inl ⟨hlt, (pure_eq_ok.mp h).2⟩
  · exact absurd h (by simp)
  · have hheight : block.height = expected := by
      have h1 : ¬block.height < expected := hlt
      have h2 : ¬expected < block.height := hgt
      omega
    refine Or.inr ⟨hheight, ?_⟩
    simp only [bind_eq_ok, mapErr_eq_ok, writes_eq_ok] at h
    obtain ⟨n, _, hn, m, _, hexecute, _, _, hupdate, rfl⟩ := h
    have hn : rollupNumber block.height _ = .ok n _ := hn
    rw [hheight] at hn
    obtain ⟨rfl, rfl⟩ := (rollupNumber_eq_ok hexpected).mp hn
    obtain ⟨hblock, hnumber, -⟩ := executeChecked_eq_ok.mp hexecute
    obtain ⟨-, r, -, -, rfl⟩ := executeBlock_eq_ok.mp hblock
    obtain ⟨c, r', htracks, -, rfl⟩ := (updateCommitmentState_eq_ok he).mp hupdate
    exact ⟨m, c, r', hnumber, htracks, rfl⟩

/-- A firm block is executed on the firm block, or confirms a pending block, or one of the rollup. -/
theorem executeFirm_cases (he : Echoes ρ) {block : ReconstructedBlock}
    (h : executeFirm block w = .ok () w') :
    ∃ soft, w.state.nextExpectedFirmSequencerHeight = some block.sequencerHeight ∧
      w.state.nextExpectedSoftSequencerHeight = some soft ∧
      (shouldExecuteFirmBlock block.sequencerHeight soft w.commitLevel = true ∧ (∃ m c r,
          m.number = w.state.firmNumber + 1 ∧ Tracks (.toSame m block.celestiaHeight) w.state c ∧
          w' = ((w.addExecution
              { parentHash := w.state.firm.hash
                block := ExecutableBlock.fromReconstructed block
                result := m }).setCommitmentState c).setRollup r) ∨
        shouldExecuteFirmBlock block.sequencerHeight soft w.commitLevel = false ∧
          ((∃ m c r, w.pending (w.state.firmNumber + 1) = some m ∧
              Tracks (.onlyFirm m block.celestiaHeight) w.state c ∧
              w' = ((w.removePending (w.state.firmNumber + 1)).setCommitmentState c).setRollup r) ∨
            ∃ m c r, w.pending (w.state.firmNumber + 1) = none ∧
              m.number = w.state.firmNumber + 1 ∧
              Tracks (.onlyFirm m block.celestiaHeight) w.state c ∧
              w' = (w.setCommitmentState c).setRollup r)) := by
  simp only [executeFirm, firmUpdate, bind_eq_ok, ensure_eq_ok, reads_eq_ok, mapErr_eq_ok] at h
  obtain ⟨expected, _, hexpected, _, _, ⟨hheight, rfl⟩, n, _, hn, update, _, ⟨firm, _, hfirm, soft, _,
    hsoft, level, _, ⟨rfl, rfl⟩, hbranch⟩, hupdate⟩ := h
  obtain ⟨hexpected, rfl⟩ := expectFirmHeight_eq_ok.mp hexpected
  have hblock : block.sequencerHeight = expected := hheight
  have hn : rollupNumber block.sequencerHeight _ = .ok n _ := hn
  rw [hblock] at hn
  obtain ⟨rfl, rfl⟩ := (rollupNumber_eq_ok hexpected).mp hn
  obtain ⟨hfirm, rfl⟩ := expectFirmHeight_eq_ok.mp hfirm
  obtain ⟨hsoft, rfl⟩ := expectSoftHeight_eq_ok.mp hsoft
  have hsame : expected = firm := Option.some.inj (hexpected.symm.trans hfirm)
  rw [← hsame, ← hblock] at hbranch
  refine ⟨soft, hblock ▸ hexpected, hsoft, ?_⟩
  split_ifs at hbranch with hshould
  · refine Or.inl ⟨hshould, ?_⟩
    simp only [bind_eq_ok, pure_eq_ok] at hbranch
    obtain ⟨m, _, hexecute, rfl, rfl⟩ := hbranch
    obtain ⟨hexecuted, hnumber, -⟩ := executeChecked_eq_ok.mp hexecute
    obtain ⟨-, r, -, -, rfl⟩ := executeBlock_eq_ok.mp hexecuted
    obtain ⟨c, r', htracks, -, rfl⟩ := (updateCommitmentState_eq_ok he).mp hupdate
    exact ⟨m, c, r', hnumber, htracks, rfl⟩
  · refine Or.inr ⟨by simpa using hshould, ?_⟩
    obtain ⟨m, hm, rfl, rfl⟩ | ⟨m, r, hm, hnumber, rfl, rfl⟩ := confirmPending_cases hbranch
    · obtain ⟨c, r', htracks, -, rfl⟩ := (updateCommitmentState_eq_ok he).mp hupdate
      exact Or.inl ⟨m, c, r', hm, htracks, rfl⟩
    · obtain ⟨c, r', htracks, -, rfl⟩ := (updateCommitmentState_eq_ok he).mp hupdate
      exact Or.inr ⟨m, c, r', hm, hnumber, htracks, rfl⟩

/-! ### Successes -/

omit codec in
theorem executeChecked_of_execute {kind : ExecutionKind} {block : ExecutableBlock}
    {transactions : List Bytes} {m : ExecutedBlockMetadata} {r : ρ}
    (hdecode : decodeTransactions block.transactions = some transactions)
    (hexecute : rollup.executeBlock
      { sessionId := w.state.executionSessionId
        parentHash := (kind.head w.state).hash
        transactions := transactions
        timestamp := block.timestamp
        sequencerBlockHash := displayHash block.hash } w.rollup = .ok m r)
    (hnumber : m.number = (kind.head w.state).number + 1) (hmax : m.number ≤ u64Max) :
    executeChecked kind block w = .ok m ((w.setRollup r).addExecution
      { parentHash := (kind.head w.state).hash, block := block, result := m }) :=
  executeChecked_eq_ok.mpr
    ⟨executeBlock_eq_ok.mpr ⟨transactions, r, hdecode, hexecute, rfl⟩, hnumber, hmax⟩

/-- A firm block that has to be executed succeeds if the calls of the rollup do. -/
theorem executeFirm_of_execute (he : Echoes ρ) {block : ReconstructedBlock} {soft : ℕ}
    {m : ExecutedBlockMetadata} {c : CommitmentState} {w₁ : World ρ} {r : ρ}
    (hfirm : w.state.nextExpectedFirmSequencerHeight = some block.sequencerHeight)
    (hsoft : w.state.nextExpectedSoftSequencerHeight = some soft)
    (hshould : shouldExecuteFirmBlock block.sequencerHeight soft w.commitLevel = true)
    (hexecute : executeChecked .firm (ExecutableBlock.fromReconstructed block) w = .ok m w₁)
    (htracks : Tracks (.toSame m block.celestiaHeight) w.state c)
    (hupdate : rollup.updateCommitmentState w.state.executionSessionId c w₁.rollup =
      .ok c.intoRaw r) :
    executeFirm block w = .ok () ((w₁.setRollup r).setCommitmentState c) := by
  obtain ⟨hblock, -, -⟩ := executeChecked_eq_ok.mp hexecute
  have hstate : w₁.state = w.state := by
    obtain ⟨-, r₁, -, -, rfl⟩ := executeBlock_eq_ok.mp hblock
    rfl
  have hbranch : firmUpdate (ExecutableBlock.fromReconstructed block) (w.state.firmNumber + 1)
      block.celestiaHeight w = .ok (.toSame m block.celestiaHeight) w₁ := by
    simp only [firmUpdate, bind_eq_ok, reads_eq_ok]
    refine ⟨_, w, expectFirmHeight_eq_ok.mpr ⟨hfirm, rfl⟩, _, w,
      expectSoftHeight_eq_ok.mpr ⟨hsoft, rfl⟩, _, w, ⟨rfl, rfl⟩, ?_⟩
    rw [if_pos hshould]
    exact bind_eq_ok.mpr ⟨m, _, hexecute, pure_eq_ok.mpr ⟨rfl, rfl⟩⟩
  simp only [executeFirm, bind_eq_ok, ensure_eq_ok, mapErr_eq_ok]
  exact ⟨_, w, expectFirmHeight_eq_ok.mpr ⟨hfirm, rfl⟩, (), w, ⟨rfl, rfl⟩, _, w,
    (rollupNumber_eq_ok hfirm).mpr ⟨rfl, rfl⟩, _, w₁, hbranch,
    (updateCommitmentState_eq_ok he).mpr ⟨c, r, hstate ▸ htracks, hstate ▸ hupdate, rfl⟩⟩

/-! ### Failures -/

omit codec dataCodec in
theorem updateCommitmentState_error {update : Update} {e : Report}
    (h : updateCommitmentState update w = .error e w') : ∃ r, w' = w.setRollup r := by
  simp only [updateCommitmentState, updateCommitmentStateWithRetry, bind_eq_error, mapErr_eq_error,
    reads_eq_error, false_or, reads_eq_ok, lift_eq_error, bind_eq_ok, mapErr_eq_ok, lift_eq_ok,
    callRollup_eq_ok, callRollup_eq_error] at h
  obtain ⟨_, w, ⟨rfl, rfl⟩, ⟨_, ⟨_, rfl⟩, _⟩ | ⟨c, _, ⟨_, rfl⟩, hcall | htrack⟩⟩ := h
  · exact ⟨w'.rollup, rfl⟩
  · obtain ⟨_, ⟨_, ⟨r, _, rfl⟩, _⟩ | ⟨raw, _, ⟨r, _, rfl⟩, _, ⟨_, rfl⟩, _⟩, _⟩ := hcall
    · exact ⟨r, rfl⟩
    · exact ⟨r, rfl⟩
  · obtain ⟨new, _, ⟨raw, _, ⟨r, _, rfl⟩, _, rfl⟩, _, htrack, _⟩ := htrack
    simp only [trackCommitmentState, bind_eq_error, tryReads_eq_error, writes_eq_error, and_false,
      exists_false, or_false] at htrack
    exact ⟨r, htrack.2⟩

omit codec in
/-- A checked execution that fails may have executed its block. -/
theorem executeChecked_error {kind : ExecutionKind} {block : ExecutableBlock} {e : Report}
    (h : executeChecked kind block w = .error e w') :
    ∃ r, w' = w.setRollup r ∨ ∃ m, w' = (w.addExecution
      { parentHash := (kind.head w.state).hash, block := block, result := m }).setRollup r := by
  simp only [executeChecked, bind_eq_error, reads_eq_error, false_or, reads_eq_ok, mapErr_eq_error,
    mapErr_eq_ok, tryReads_eq_error, pure_eq_error, and_false, exists_false, or_false] at h
  obtain ⟨_, w, ⟨rfl, rfl⟩, ⟨_, hblock, _⟩ | ⟨m, t, hblock, _, ⟨_, rfl⟩, _⟩⟩ := h
  · simp only [executeBlock, executeBlockWithRetry, bind_eq_error, mapErr_eq_error, require_eq_error,
      require_eq_ok, callRollup_eq_error, writes_eq_error, pure_eq_error, and_false, exists_false,
      or_false] at hblock
    obtain ⟨_, ⟨_, _, rfl⟩ | ⟨_, _, ⟨_, rfl⟩, _, ⟨r, _, rfl⟩, _⟩, _⟩ := hblock
    · exact ⟨w'.rollup, Or.inl rfl⟩
    · exact ⟨r, Or.inl rfl⟩
  · obtain ⟨_, r, _, _, rfl⟩ := executeBlock_eq_ok.mp hblock
    exact ⟨r, Or.inr ⟨m, rfl⟩⟩

/-- A failed block leaves the tracked state as it was, and adds at most its own execution. -/
structure Failed (x : ExecutableBlock) (w w' : World ρ) : Prop where
  state_eq : w'.state = w.state
  commitLevel_eq : w'.commitLevel = w.commitLevel
  executions_eq : w'.executions = w.executions ∨
    ∃ parentHash m, w'.executions =
      w.executions ++ [{ parentHash := parentHash, block := x, result := m }]

omit codec dataCodec rollup in
theorem Failed.refl {x : ExecutableBlock} (w : World ρ) : Failed x w w := ⟨rfl, rfl, Or.inl rfl⟩

/-- A soft block that fails is executed only at the expected height. -/
theorem executeSoft_error {block : FilteredSequencerBlock} {e : Report}
    (h : executeSoft block w = .error e w') :
    Failed (softExecutable w block) w w' ∧
      (w'.executions = w.executions ∨
        w.state.nextExpectedSoftSequencerHeight = some block.height) := by
  simp only [executeSoft, bind_eq_error, reads_eq_error, false_or, reads_eq_ok] at h
  obtain ⟨_, w, ⟨rfl, rfl⟩, hpanic | ⟨expected, _, hexpected, h⟩⟩ := h
  · simp only [expectSoftHeight, bind_eq_error, reads_eq_error, false_or, reads_eq_ok,
      require_eq_error] at hpanic
    obtain ⟨_, w, ⟨rfl, rfl⟩, _, _, rfl⟩ := hpanic
    exact ⟨Failed.refl _, Or.inl rfl⟩
  obtain ⟨hexpected, rfl⟩ := expectSoftHeight_eq_ok.mp hexpected
  split_ifs at h with hlt hgt
  · exact absurd h (by simp)
  · obtain ⟨-, rfl⟩ := fail_eq_error.mp h
    exact ⟨Failed.refl _, Or.inl rfl⟩
  have hheight : block.height = expected := by
    have h1 : ¬block.height < expected := hlt
    have h2 : ¬expected < block.height := hgt
    omega
  simp only [bind_eq_error, mapErr_eq_error, mapErr_eq_ok, writes_eq_error, and_false, exists_false,
    or_false] at h
  obtain hnumber | ⟨n, _, hn, hexecute | ⟨m, _, hexecute, _, hupdate, _⟩⟩ := h
  · simp only [rollupNumber, mapErr_eq_error, tryReads_eq_error] at hnumber
    obtain ⟨_, ⟨_, rfl⟩, _⟩ := hnumber
    exact ⟨Failed.refl _, Or.inl rfl⟩
  all_goals
    have hn : rollupNumber block.height _ = .ok n _ := hn
    rw [hheight] at hn
    obtain ⟨rfl, rfl⟩ := (rollupNumber_eq_ok hexpected).mp hn
  · obtain ⟨r, rfl | ⟨m, rfl⟩⟩ := executeChecked_error hexecute
    · exact ⟨⟨rfl, rfl, Or.inl rfl⟩, Or.inl rfl⟩
    · exact ⟨⟨rfl, rfl, Or.inr ⟨_, m, rfl⟩⟩, Or.inr (hheight ▸ hexpected)⟩
  · obtain ⟨hblock, -, -⟩ := executeChecked_eq_ok.mp hexecute
    obtain ⟨-, r, -, -, rfl⟩ := executeBlock_eq_ok.mp hblock
    obtain ⟨r', rfl⟩ := updateCommitmentState_error hupdate
    exact ⟨⟨rfl, rfl, Or.inr ⟨_, m, rfl⟩⟩, Or.inr (hheight ▸ hexpected)⟩

omit codec in
/-- A failed update for a firm block: the block was executed only if it had to be. -/
theorem firmUpdate_error {x : ExecutableBlock} {number celestiaHeight : ℕ} {e : Report}
    (h : firmUpdate x number celestiaHeight w = .error e w') :
    Failed x w w' ∧
      (w'.executions = w.executions ∨ ∃ firm soft,
        w.state.nextExpectedFirmSequencerHeight = some firm ∧
        w.state.nextExpectedSoftSequencerHeight = some soft ∧
        shouldExecuteFirmBlock firm soft w.commitLevel = true) := by
  simp only [firmUpdate, bind_eq_error, reads_eq_error, false_or, reads_eq_ok] at h
  obtain hpanic | ⟨firm, _, hfirm, hpanic | ⟨soft, _, hsoft, _, w, ⟨rfl, rfl⟩, h⟩⟩ := h
  · simp only [expectFirmHeight, bind_eq_error, reads_eq_error, false_or, reads_eq_ok,
      require_eq_error] at hpanic
    obtain ⟨_, w, ⟨rfl, rfl⟩, _, _, rfl⟩ := hpanic
    exact ⟨Failed.refl _, Or.inl rfl⟩
  · obtain ⟨-, rfl⟩ := expectFirmHeight_eq_ok.mp hfirm
    simp only [expectSoftHeight, bind_eq_error, reads_eq_error, false_or, reads_eq_ok,
      require_eq_error] at hpanic
    obtain ⟨_, w, ⟨rfl, rfl⟩, _, _, rfl⟩ := hpanic
    exact ⟨Failed.refl _, Or.inl rfl⟩
  obtain ⟨hsoft, rfl⟩ := expectSoftHeight_eq_ok.mp hsoft
  obtain ⟨hfirm, rfl⟩ := expectFirmHeight_eq_ok.mp hfirm
  split_ifs at h with hshould
  · simp only [bind_eq_error, pure_eq_error, and_false, exists_false, or_false] at h
    obtain ⟨r, rfl | ⟨m, rfl⟩⟩ := executeChecked_error h
    · exact ⟨⟨rfl, rfl, Or.inl rfl⟩, Or.inl rfl⟩
    · exact ⟨⟨rfl, rfl, Or.inr ⟨_, m, rfl⟩⟩, Or.inr ⟨firm, soft, hfirm, hsoft, hshould⟩⟩
  · simp only [confirmPending, bind_eq_error, reads_eq_error, false_or, reads_eq_ok] at h
    obtain ⟨_, w, ⟨rfl, rfl⟩, h⟩ := h
    cases hm : w.pending number with
    | some m => simp only [hm, bind_eq_error, writes_eq_error, pure_eq_error, and_false,
        exists_false, or_false] at h
    | none =>
      simp only [hm, getExecutedBlockMetadataWithRetry, bind_eq_error, mapErr_eq_error,
        mapErr_eq_ok, callRollup_eq_error, callRollup_eq_ok, ensure_eq_error, pure_eq_error,
        and_false, exists_false, or_false] at h
      obtain ⟨_, ⟨_, ⟨r, _, rfl⟩, _⟩ | ⟨_, _, ⟨r, _, rfl⟩, _, _, rfl⟩, _⟩ := h
      · exact ⟨⟨rfl, rfl, Or.inl rfl⟩, Or.inl rfl⟩
      · exact ⟨⟨rfl, rfl, Or.inl rfl⟩, Or.inl rfl⟩

/-- A firm block that fails is executed only at the expected height, and only if it had to be. -/
theorem executeFirm_error {block : ReconstructedBlock} {e : Report}
    (h : executeFirm block w = .error e w') :
    Failed (ExecutableBlock.fromReconstructed block) w w' ∧
      (w'.executions = w.executions ∨ ∃ soft,
        w.state.nextExpectedFirmSequencerHeight = some block.sequencerHeight ∧
        w.state.nextExpectedSoftSequencerHeight = some soft ∧
        shouldExecuteFirmBlock block.sequencerHeight soft w.commitLevel = true) := by
  simp only [executeFirm, bind_eq_error, ensure_eq_error, ensure_eq_ok, mapErr_eq_error] at h
  obtain hpanic | ⟨expected, _, hexpected, ⟨_, _, rfl⟩ | ⟨_, _, ⟨hheight, rfl⟩, h⟩⟩ := h
  · simp only [expectFirmHeight, bind_eq_error, reads_eq_error, false_or, reads_eq_ok,
      require_eq_error] at hpanic
    obtain ⟨_, w, ⟨rfl, rfl⟩, _, _, rfl⟩ := hpanic
    exact ⟨Failed.refl _, Or.inl rfl⟩
  · obtain ⟨-, rfl⟩ := expectFirmHeight_eq_ok.mp hexpected
    exact ⟨Failed.refl _, Or.inl rfl⟩
  obtain ⟨hexpected, rfl⟩ := expectFirmHeight_eq_ok.mp hexpected
  have hblock : block.sequencerHeight = expected := hheight
  obtain hnumber | ⟨n, _, hn, hfail | ⟨update, _, hbranch, _, hupdate, _⟩⟩ := h
  · simp only [rollupNumber, mapErr_eq_error, tryReads_eq_error] at hnumber
    obtain ⟨_, ⟨_, rfl⟩, _⟩ := hnumber
    exact ⟨Failed.refl _, Or.inl rfl⟩
  all_goals
    have hn : rollupNumber block.sequencerHeight _ = .ok n _ := hn
    rw [hblock] at hn
    obtain ⟨rfl, rfl⟩ := (rollupNumber_eq_ok hexpected).mp hn
  · obtain ⟨hfailed, hsame | ⟨firm, soft, hfirm, hsoft, hshould⟩⟩ := firmUpdate_error hfail
    · exact ⟨hfailed, Or.inl hsame⟩
    · obtain rfl : expected = firm := Option.some.inj (hexpected.symm.trans hfirm)
      exact ⟨hfailed, Or.inr ⟨soft, hblock ▸ hfirm, hsoft, hblock ▸ hshould⟩⟩
  · obtain ⟨r', rfl⟩ := updateCommitmentState_error hupdate
    simp only [firmUpdate, bind_eq_ok, reads_eq_ok] at hbranch
    obtain ⟨firm, _, hfirm, soft, _, hsoft, _, _, ⟨rfl, rfl⟩, hbranch⟩ := hbranch
    obtain ⟨hfirm, rfl⟩ := expectFirmHeight_eq_ok.mp hfirm
    obtain ⟨hsoft, rfl⟩ := expectSoftHeight_eq_ok.mp hsoft
    obtain rfl : expected = firm := Option.some.inj (hexpected.symm.trans hfirm)
    split_ifs at hbranch with hshould
    · simp only [bind_eq_ok, pure_eq_ok] at hbranch
      obtain ⟨m, _, hexecute, rfl, rfl⟩ := hbranch
      obtain ⟨hexecuted, -, -⟩ := executeChecked_eq_ok.mp hexecute
      obtain ⟨-, r, -, -, rfl⟩ := executeBlock_eq_ok.mp hexecuted
      exact ⟨⟨rfl, rfl, Or.inr ⟨_, m, rfl⟩⟩,
        Or.inr ⟨soft, hblock ▸ hfirm, hsoft, hblock ▸ hshould⟩⟩
    · obtain ⟨m, -, rfl, rfl⟩ | ⟨m, r, -, -, rfl, rfl⟩ := confirmPending_cases hbranch
      · exact ⟨⟨rfl, rfl, Or.inl rfl⟩, Or.inl rfl⟩
      · exact ⟨⟨rfl, rfl, Or.inl rfl⟩, Or.inl rfl⟩

end

end Astria.Conductor
