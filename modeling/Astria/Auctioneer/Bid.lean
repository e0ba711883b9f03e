import Astria.Conductor.State
import Astria.Core.TransactionConversions
import Astria.Lib.Outcome

/-!
# Bids and executed blocks

What the auctioneer gets from its rollup, and the transaction by which it submits the bid that won
(`crates/astria-auctioneer/src/bid/mod.rs`, `block/mod.rs` and `sequencer_key.rs`).

A hash of a rollup block in a bid is a string of bytes; the one of an executed block is the text of the
hash in its metadata.

Results:
* `Bid.tryFromRaw_intoRaw`: a bid is read back from its message;
* `Bid.intoTransactionBody_eq`: the body of the transaction is always built, and what it holds.
-/

namespace Astria.Auctioneer

open Astria.Core Astria.Lib
open Astria.Conductor (ExecutedBlockMetadata)
open Astria.Sequencer (BlockHash External toBytes32 toBytes32_toList)

/-! ## Executed blocks -/

/-- `RollupBlockHash`. -/
structure RollupBlockHash where
  inner : Bytes
  deriving DecidableEq

/-- The digits of a hash, as its `Display` form has them. -/
def hexOf (bytes : Bytes) : String := String.ofList (bytes.flatMap Denom.hexByte)

/-- `block::Executed`. -/
structure Executed where
  blockMetadata : ExecutedBlockMetadata
  sequencerBlockHash : BlockHash
  deriving DecidableEq

def Executed.rollupBlockHash (block : Executed) : RollupBlockHash :=
  { inner := asBytes block.blockMetadata.hash }

/-! ## Bids -/

/-- `raw::Bid`. -/
structure RawBid where
  rollupParentBlockHash : Bytes
  sequencerParentBlockHash : Bytes
  fee : ℕ
  transactions : List Bytes
  deriving DecidableEq

/-- `raw::Allocation`. -/
structure RawAllocation where
  signature : Bytes
  publicKey : Bytes
  bid : Option RawAny
  deriving DecidableEq

/-- The protobuf encoding of the messages. -/
class AuctionFormats where
  encodeBid : RawBid → Bytes
  encodeAllocation : RawAllocation → Bytes

/-- `SequencerKey`. -/
structure SequencerKey where
  address : Address
  signingKey : Bytes32

structure Bid where
  fee : ℕ
  transactions : List Bytes
  rollupParentBlockHash : RollupBlockHash
  sequencerParentBlockHash : BlockHash
  deriving DecidableEq

namespace Bid

def tryFromRaw (raw : RawBid) : Except Report Bid := do
  let sequencerParentBlockHash ← okOr (toBytes32 raw.sequencerParentBlockHash)
    ["invalid field .sequencer_parent_block_hash"]
  .ok
    { fee := raw.fee
      transactions := raw.transactions
      rollupParentBlockHash := { inner := raw.rollupParentBlockHash }
      sequencerParentBlockHash := sequencerParentBlockHash }

def intoRaw (bid : Bid) : RawBid :=
  { fee := bid.fee
    transactions := bid.transactions
    sequencerParentBlockHash := bid.sequencerParentBlockHash.toList
    rollupParentBlockHash := bid.rollupParentBlockHash.inner }

theorem tryFromRaw_intoRaw (bid : Bid) : tryFromRaw bid.intoRaw = .ok bid := by
  unfold tryFromRaw intoRaw
  rw [toBytes32_toList]
  rfl

end Bid

/-! ## The transaction -/

section

variable [formats : TransactionFormats] [auction : AuctionFormats]

structure Allocation where
  signature : Bytes
  verificationKey : Bytes32
  bidBytes : RawAny

/-- `Allocation::new`: the encoded bid, signed. -/
def Allocation.new (bid : Bid) (sequencerKey : SequencerKey) : Allocation :=
  let bidBytes : RawAny :=
    { typeUrl := "/astria.auction.v1alpha1.Bid", value := auction.encodeBid bid.intoRaw }
  { signature := formats.sign sequencerKey.signingKey bidBytes.value
    verificationKey := formats.verificationKey sequencerKey.signingKey
    bidBytes := bidBytes }

omit formats auction in
def Allocation.intoRaw (allocation : Allocation) : RawAllocation :=
  { signature := allocation.signature
    publicKey := allocation.verificationKey.toList
    bid := some allocation.bidBytes }

namespace Bid

/-- `allocation_data`. -/
def allocationData (bid : Bid) (sequencerKey : SequencerKey) : Bytes :=
  auction.encodeAllocation (Allocation.new bid sequencerKey).intoRaw

def intoTransactionBody (bid : Bid) (nonce : ℕ) (rollupId : RollupId) (sequencerKey : SequencerKey)
    (feeAsset : Denom) (chainId : String) : Outcome TransactionBody :=
  match TransactionBody.tryBuild
      [.rollupDataSubmission
        { rollupId := rollupId, data := bid.allocationData sequencerKey, feeAsset := feeAsset }]
      { nonce := nonce, chainId := chainId } with
  | .ok body => .returns body
  | .error _ => .panics

theorem intoTransactionBody_eq (bid : Bid) (nonce : ℕ) (rollupId : RollupId)
    (sequencerKey : SequencerKey) (feeAsset : Denom) (chainId : String) :
    ∃ body, bid.intoTransactionBody nonce rollupId sequencerKey feeAsset chainId = .returns body ∧
      body.actions.inner =
        [.rollupDataSubmission
          { rollupId := rollupId, data := bid.allocationData sequencerKey, feeAsset := feeAsset }] ∧
      body.params = { nonce := nonce, chainId := chainId } := by
  unfold intoTransactionBody
  cases hbuild : TransactionBody.tryBuild
      [.rollupDataSubmission
        { rollupId := rollupId, data := bid.allocationData sequencerKey, feeAsset := feeAsset }]
      { nonce := nonce, chainId := chainId } with
  | ok body =>
    obtain ⟨hactions, hparams⟩ := TransactionBody.tryBuild_eq_ok.mp hbuild
    exact ⟨body, rfl, hactions, hparams⟩
  | error e => simp [TransactionBody.tryBuild, Actions.tryFromListOfActions] at hbuild

end Bid

end

end Astria.Auctioneer
