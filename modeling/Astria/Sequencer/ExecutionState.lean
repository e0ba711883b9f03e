import Astria.Sequencer.PrepareProposal

/-!
# The execution state

What the application has executed since the last commit (`app/execution_state.rs`): a proposal that it
prepared, a block that it executed, or neither.  The state decides whether a later request can use what
was executed before, or has to start over.

Results:
* `checkIfPreparedProposal_eq_true`: a proposal is skipped only if it is the one that was prepared;
* `checkIfExecutedBlock_eq_true`: a block is skipped only if it is the one that was executed.
-/

namespace Astria.Sequencer

open Astria.Core Astria.Lib Exec

/-! ## Requests -/

/-- `abci::request::ProcessProposal`. -/
structure ProcessProposal where
  hash : Hash
  txs : List Bytes
  proposedLastCommit : Option CommitInfo
  blockData : BlockData
  deriving DecidableEq

/-- `abci::request::FinalizeBlock`, without the last commit, which is not read. -/
structure FinalizeBlock where
  hash : Hash
  txs : List Bytes
  blockData : BlockData
  deriving DecidableEq

/-! ## Execution state -/

/-- `CachedProposal`. -/
structure CachedProposal where
  blockData : BlockData
  txs : List Bytes
  proposedLastCommit : Option CommitInfo
  deriving DecidableEq

/-- `ExecutionState`. -/
inductive ExecutionState where
  | unset
  | prepared (cachedProposal : CachedProposal)
  | preparedValid (cachedProposal : CachedProposal)
  | checkedPreparedMismatch (cachedProposal : CachedProposal)
  | executedBlock (cachedBlockHash : BlockHash) (cachedProposal : Option CachedProposal)
  | checkedExecutedBlockMismatch (cachedBlockHash : BlockHash) (cachedProposal : Option CachedProposal)
  deriving DecidableEq

/-- What a proposal is compared by. -/
def ProcessProposal.newProposal (request : ProcessProposal) : CachedProposal :=
  { blockData := request.blockData
    txs := request.txs
    proposedLastCommit := request.proposedLastCommit }

/-- What is cached of a proposal that was prepared: the extended commit becomes the commit that
CometBFT sends along with the proposal. -/
def PrepareProposal.preparedProposal (request : PrepareProposal) (txs : List Bytes) :
    CachedProposal :=
  { blockData := request.blockData
    txs := txs
    proposedLastCommit := request.localLastCommit.map ExtendedCommitInfo.commitInfo }

namespace ExecutionState

/-- `ExecutionStateMachine::set_prepared_proposal`. -/
def setPreparedProposal (request : PrepareProposal) (txs : List Bytes) :
    ExecutionState → Except Report ExecutionState
  | unset => .ok (prepared (request.preparedProposal txs))
  | _ => .error ["execution state already set"]

/-- `ExecutionStateMachine::check_if_prepared_proposal`. -/
def checkIfPreparedProposal (request : ProcessProposal) : ExecutionState → Bool × ExecutionState
  | prepared cachedProposal | preparedValid cachedProposal =>
    if cachedProposal = request.newProposal then (true, preparedValid cachedProposal)
    else (false, checkedPreparedMismatch cachedProposal)
  | state => (false, state)

/-- `ExecutionStateMachine::set_executed_block`. -/
def setExecutedBlock (blockHash : BlockHash) : ExecutionState → Except Report ExecutionState
  | unset => .ok (executedBlock blockHash none)
  | preparedValid cachedProposal => .ok (executedBlock blockHash (some cachedProposal))
  | prepared _ =>
    .error
      ["executed block state attempted to be set before prepared proposal state validated"]
  | executedBlock _ _ => .error ["executed block state attempted to be set again"]
  | checkedPreparedMismatch _ | checkedExecutedBlockMismatch _ _ =>
    .error ["executed block state shouldn't be set after invalid check"]

/-- `ExecutionStateMachine::check_if_executed_block`. -/
def checkIfExecutedBlock (blockHash : BlockHash) : ExecutionState → Bool × ExecutionState
  | prepared cachedProposal | preparedValid cachedProposal =>
    (false, checkedPreparedMismatch cachedProposal)
  | executedBlock cachedBlockHash cachedProposal =>
    if blockHash = cachedBlockHash then (true, executedBlock cachedBlockHash cachedProposal)
    else (false, checkedExecutedBlockMismatch cachedBlockHash cachedProposal)
  | state => (false, state)

theorem checkIfPreparedProposal_eq_true {request : ProcessProposal} {state state' : ExecutionState}
    (h : state.checkIfPreparedProposal request = (true, state')) :
    (state = prepared request.newProposal ∨ state = preparedValid request.newProposal) ∧
      state' = preparedValid request.newProposal := by
  cases state <;> simp only [checkIfPreparedProposal] at h <;> try cases h
  all_goals
    split_ifs at h with hsame
    · obtain rfl := hsame
      exact ⟨by simp, (Prod.mk.inj h).2.symm⟩
    · cases h

/-- A check leaves no proposal in the state in which it was prepared. -/
theorem checkIfPreparedProposal_ne_prepared (request : ProcessProposal) (state : ExecutionState)
    (cachedProposal : CachedProposal) :
    (state.checkIfPreparedProposal request).2 ≠ prepared cachedProposal := by
  cases state <;> simp only [checkIfPreparedProposal] <;> try split_ifs
  all_goals simp

theorem setExecutedBlock_eq_ok {blockHash : BlockHash} {state state' : ExecutionState}
    (h : state.setExecutedBlock blockHash = .ok state') :
    ∃ cachedProposal, state' = executedBlock blockHash cachedProposal := by
  cases state <;> cases h
  · exact ⟨none, rfl⟩
  case preparedValid cachedProposal => exact ⟨some cachedProposal, rfl⟩

theorem checkIfExecutedBlock_eq_true {blockHash : BlockHash} {state state' : ExecutionState}
    (h : state.checkIfExecutedBlock blockHash = (true, state')) :
    ∃ cachedProposal, state = executedBlock blockHash cachedProposal ∧ state' = state := by
  cases state <;> simp only [checkIfExecutedBlock] at h <;> try cases h
  case executedBlock cachedBlockHash cachedProposal =>
    split_ifs at h with hsame
    · obtain rfl := hsame
      exact ⟨cachedProposal, rfl, (Prod.mk.inj h).2.symm⟩
    · cases h

end ExecutionState

end Astria.Sequencer
