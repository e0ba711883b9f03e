import Astria.Sequencer.TestUtils
import Astria.Conductor.Executor

/-!
# Blocks and sessions for examples

The messages of the rollup data, and the sessions and blocks that the concrete runs of the conductor
start from (after `crates/astria-conductor/src/test_utils.rs`).
-/

namespace Astria.Conductor.TestUtils

open Astria.Core
open Astria.Sequencer.TestUtils (bytesField messageField)

/-- `RollupData::decode` on a single short field of sequenced data. -/
def decodeRollupData : Bytes → Option Bytes
  | [] => some []
  | tag :: length :: data =>
    if tag = 0x0a ∧ length.toNat = data.length ∧ data.length < 128 then some (tag :: length :: data)
    else none
  | _ => none

/-- The prices, which no run here has, are not encoded. -/
scoped instance : RollupDataCodec where
  encodePriceFeedData _ := messageField 3 []
  decodeRollupData := decodeRollupData

/-- `RollupData::SequencedData` of one byte. -/
def sequencedData (b : UInt8) : Bytes := bytesField 1 [b]

example : decodeRollupData (sequencedData 7) = some (sequencedData 7) := by decide

/-- `make_execution_session_parameters`, with a start at height 2. -/
def parameters (end? : Option ℕ) (lookAhead : ℕ) : ExecutionSessionParameters :=
  { rollupId := { inner := List.Vector.replicate 32 24 }
    rollupStartBlockNumber := 1
    rollupEndBlockNumber := end?
    sequencerStartBlockHeight := 2
    celestiaSearchHeightMaxLookAhead := lookAhead }

/-- A rollup block whose hash is its number. -/
def rollupBlock (number : ℕ) : ExecutedBlockMetadata :=
  { number := number
    hash := toString number
    parentHash := toString (number - 1)
    timestamp := { seconds := 1, nanos := 1 }
    sequencerBlockHash := "" }

/-- A session with given firm and soft numbers. -/
def session (firm soft : ℕ) (h : firm ≤ soft) (end? : Option ℕ) (lookAhead : ℕ) : ExecutionSession :=
  { sessionId := "test_execution_session"
    executionSessionParameters := parameters end? lookAhead
    commitmentState :=
      { soft := rollupBlock soft
        firm := rollupBlock firm
        lowestCelestiaSearchHeight := 1
        firm_le_soft := h } }

/-- The state of a session. -/
def state (session : ExecutionSession) : State :=
  { executionSessionId := session.sessionId
    executionSessionParameters := session.executionSessionParameters
    commitmentState := session.commitmentState }

/-- A header of a given height. -/
def header (height : ℕ) : SequencerBlockHeader :=
  { chainId := "test_sequencer-1000"
    height := height
    time := height * 10 ^ 9
    rollupTransactionsRoot := List.Vector.replicate 32 0
    dataHash := List.Vector.replicate 32 0
    proposerAddress := List.Vector.replicate 20 0 }

/-- A block from the sequencer with the transactions of the test rollup. -/
def softBlock (height : ℕ) (hash : UInt8) (transactions : List Bytes) : FilteredSequencerBlock :=
  let id : RollupId := { inner := List.Vector.replicate 32 24 }
  let proof : Merkle.Proof Bytes32 := { auditPath := [], leafIndex := 0, treeSize := 1 }
  { blockHash := List.Vector.replicate 32 hash
    header := header height
    rollupTransactions :=
      [(id, { rollupId := id, transactions := transactions, proof := proof })]
    rollupTransactionsProof := proof
    allRollupIds := [id]
    rollupIdsProof := proof
    upgradeChangeHashes := []
    extendedCommitInfoWithProof := none }

/-- A block reconstructed from Celestia. -/
def firmBlock (height : ℕ) (hash : UInt8) (transactions : List Bytes) : ReconstructedBlock :=
  { celestiaHeight := height
    blockHash := List.Vector.replicate 32 hash
    header := header height
    transactions := transactions
    extendedCommitInfo := none }

end Astria.Conductor.TestUtils
