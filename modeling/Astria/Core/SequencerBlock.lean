import Astria.Sequencer.VoteExtension

/-!
# Sequencer blocks

The block that the sequencer serves for one rollup, and the prices that its extended commit info holds
(`astria-core/src/sequencerblock/v1/block/mod.rs`, `astria-core/src/oracles/price_feed/utils.rs`).
-/

namespace Astria.Core

open Astria.Sequencer (BlockHash BlockCodec CurrencyPairInfo CurrencyPairMapping
  ExtendedCommitInfoWithMapping)

/-! ## Blocks -/

/-- `SequencerBlockHeader`; the time in nanoseconds. -/
structure SequencerBlockHeader where
  chainId : String
  height : ℕ
  time : ℕ
  rollupTransactionsRoot : Bytes32
  dataHash : Bytes32
  proposerAddress : AddressBytes
  deriving DecidableEq

/-- `RollupTransactions`: the encoded `RollupData` of a rollup, with the proof of its leaf. -/
structure RollupTransactions where
  rollupId : RollupId
  transactions : List Bytes
  proof : Merkle.Proof Bytes32

/-- `ExtendedCommitInfoWithProof`. -/
structure ExtendedCommitInfoWithProof where
  extendedCommitInfo : ExtendedCommitInfoWithMapping
  encodedExtendedCommitInfo : Bytes
  proof : Merkle.Proof Bytes32

/-- `FilteredSequencerBlock`; the map of the rollup transactions in order of insertion. -/
structure FilteredSequencerBlock where
  blockHash : BlockHash
  header : SequencerBlockHeader
  rollupTransactions : List (RollupId × RollupTransactions)
  rollupTransactionsProof : Merkle.Proof Bytes32
  allRollupIds : List RollupId
  rollupIdsProof : Merkle.Proof Bytes32
  upgradeChangeHashes : List Bytes32
  extendedCommitInfoWithProof : Option ExtendedCommitInfoWithProof

namespace FilteredSequencerBlock

def height (block : FilteredSequencerBlock) : ℕ := block.header.height

def extendedCommitInfo (block : FilteredSequencerBlock) : Option ExtendedCommitInfoWithMapping :=
  block.extendedCommitInfoWithProof.map (·.extendedCommitInfo)

/-- The transactions of a rollup: none if the block has no entry for it. -/
def transactionsOf (block : FilteredSequencerBlock) (id : RollupId) : List Bytes :=
  ((block.rollupTransactions.find? fun entry => entry.1 = id).map (·.2.transactions)).getD []

end FilteredSequencerBlock

/-! ## Prices -/

/-- `Price` of the price feed data. -/
structure Price where
  currencyPair : CurrencyPair
  price : ℤ
  decimals : UInt8
  deriving DecidableEq

/-- `aggregate_oracle_votes`: the median price of every currency pair, with the pair's decimals. -/
def aggregateOracleVotes (votes : List (List (ℕ × ℤ))) (mapping : CurrencyPairMapping) :
    List Price :=
  (votes.flatten.foldl (Sequencer.collectPrice mapping) []).filterMap fun entry =>
    (Sequencer.median entry.2).map fun price =>
      { currencyPair := entry.1.currencyPair, price := price, decimals := entry.1.decimals }

/-- `calculate_prices_from_vote_extensions`. -/
def calculatePrices [codec : BlockCodec] (info : ExtendedCommitInfoWithMapping) :
    Except Report (List Price) :=
  match Sequencer.decodeVotes info.extendedCommitInfo.votes with
  | .error e => .error e
  | .ok votes => .ok (aggregateOracleVotes votes info.idToCurrencyPair)

end Astria.Core
