import Astria.Lib.Exec
import Astria.Lib.Sha256
import Astria.Lib.Tally
import Astria.Lib.Ledger
import Astria.Core.Primitive
import Astria.Core.Action
import Astria.Sequencer.State
import Astria.Lib.Base64
import Astria.Sequencer.External
import Astria.Sequencer.StateExt
import Astria.Sequencer.Fees
import Astria.Sequencer.Funds
import Astria.Sequencer.ActionHandler.Bridge
import Astria.Sequencer.ActionHandler.Admin
import Astria.Sequencer.ActionHandler.Ics20
import Astria.Sequencer.ActionHandler.Ics20Spec
import Astria.Sequencer.Transaction
import Astria.Sequencer.Effects
import Astria.Sequencer.Genesis
import Astria.Sequencer.Upgrades
import Astria.Merkle.Tree
import Astria.Merkle.Index
import Astria.Merkle.Nodes
import Astria.Merkle.Inclusion
import Astria.Sequencer.BlockParts
import Astria.Sequencer.TestUtils
import Astria.Sequencer.VoteExtension
import Astria.Sequencer.Block
import Astria.Sequencer.Conservation
import Astria.Sequencer.Frame
import Astria.Sequencer.BridgeConfig
import Astria.Sequencer.Run
import Astria.Sequencer.Withdrawals
import Astria.Sequencer.Authorization
import Astria.Sequencer.Deposits
import Astria.Lib.SortedMap
import Astria.Sequencer.ValidatorSet
import Astria.Sequencer.Validators
import Astria.Sequencer.Consensus
import Astria.Lib.AssocSum
import Astria.Lib.Budget
import Astria.Lib.KeyedQueue
import Astria.Lib.HashTree
import Astria.Lib.IndexMap
import Astria.Sequencer.Mempool.TransactionsContainer
import Astria.Sequencer.Mempool
import Astria.Sequencer.Mempool.Run
import Astria.Sequencer.Mempool.Maintenance
import Astria.Sequencer.Mempool.Bookkeeping
import Astria.Sequencer.Mempool.Removal
import Astria.Composer.BundleFactory
import Astria.Composer.Executor
import Astria.BridgeWithdrawer.Watcher
import Astria.Conductor.BlockVerifier
import Astria.Core.SequencerBlock
import Astria.Core.BlockConversions
import Astria.Core.BlockBuilder
import Astria.Conductor.State
import Astria.Conductor.Executor
import Astria.Conductor.TestUtils
import Astria.Conductor.Commitments
import Astria.Conductor.Finalization
import Astria.Lib.Channel
import Astria.Conductor.BlockCache
import Astria.Conductor.EventLoop
import Astria.Conductor.InOrder
import Astria.Conductor.Responsive
import Astria.Conductor.StopHeight
import Astria.Conductor.TrackedState
import Astria.Sequencer.Commitment
import Astria.Core.DataHash
import Astria.Lib.Outcome
import Astria.Merkle.Machine
import Astria.Merkle.TreeHash
import Astria.Merkle.Soundness
import Astria.Core.ProofSafety
import Astria.Core.Denom
import Astria.Core.RawAction
import Astria.Core.ActionConversions
import Astria.Core.TransactionConversions
import Astria.Sequencer.Mempool.CheckTx
import Astria.Lib.IdRegistry
import Astria.Sequencer.OracleStore
import Astria.Sequencer.ExtendedCommit
import Astria.Core.FilteredBlock
import Astria.Sequencer.Grpc
import Astria.Lib.Sorting
import Astria.Sequencer.Mempool.BuilderQueue
import Astria.Sequencer.Mempool.RemovalCache
import Astria.Sequencer.Mempool.RemoveInvalid
import Astria.Sequencer.Mempool.Promotion
import Astria.Sequencer.TxResults
import Astria.Sequencer.BridgeTransfer
import Astria.Sequencer.ActionHandler.Ics20Refusal
import Astria.Sequencer.ValidatorCount
import Astria.Sequencer.Costs
import Astria.Sequencer.ActionHandler.LackOfFunds
import Astria.Sequencer.Proposal
import Astria.Sequencer.PrepareProposal
import Astria.Core.Prices
import Astria.Lib.Median
import Astria.Core.DenomOrd
import Astria.Sequencer.Mempool.Insertion
import Astria.Conductor.BlockStream
import Astria.Sequencer.Markets
import Astria.Sequencer.LightClients
import Astria.BridgeWithdrawer.Contracts
import Astria.Relayer.Conversion
import Astria.Relayer.Submitter
import Astria.Relayer.Submitted
import Astria.Relayer.SubmissionState
import Astria.Relayer.Coverage
import Astria.Conductor.Verify
import Astria.Conductor.Reconstruct
import Astria.Auctioneer.Auction
import Astria.Auctioneer.Rules
import Astria.Lib.Borsh
import Astria.Sequencer.Grpc.Storage
import Astria.Sequencer.Grpc.StateExt
import Astria.Sequencer.Grpc.RoundTrip
import Astria.Merkle.Family
import Astria.Conductor.Convert
import Astria.Conductor.SoftFirm
import Astria.Lib.Oblivious
import Astria.Sequencer.ExecutionState
import Astria.Sequencer.App
import Astria.Sequencer.Reordering
import Astria.Sequencer.ExecutedBlock
import Astria.Sequencer.ProposedData
import Astria.Sequencer.NodeState
import Astria.Sequencer.SkipExecution
import Astria.Sequencer.BlockFrame
import Astria.Sequencer.Replication
import Astria.Sequencer.ProposalAgreement
import Astria.Lib.OpenLedger
import Astria.Sequencer.Supply
import Astria.Sequencer.Startup
import Astria.Sequencer.ExtendVote
import Astria.Lib.Numbering
import Astria.Sequencer.Nonces
import Astria.Sequencer.StoredBlocks
