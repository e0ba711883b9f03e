import Astria.Lib.Exec
import Astria.Core.Action
import Mathlib.Data.Finset.Insert
import Mathlib.Logic.Function.Basic

/-!
# The state of the sequencer

One record for each component under `crates/astria-sequencer/src/*/state_ext.rs`: a stored
key is a field, a family of keys with a variable part is a function of that part, and `none`
is an absent key.  `Base` gathers every component except the price oracle, so that a handler
written over `Base` cannot touch a price; `State` is the whole of it.

Storage has three parts.  The verifiable part is under the app hash, the nonverifiable part
is stored beside it, and the ephemeral part (`object_put`) lives as long as the state delta.

Results:
* `State.commit_idem`, `State.verifiable_commit`: committing drops the ephemeral objects
  and nothing else.
-/

namespace Astria.Sequencer

open Astria.Core Astria.Lib

/-! ## Stored values -/

/-- Block time, in nanoseconds. -/
abbrev Time := ℕ

abbrev BlockHash := Bytes32

/-- A validator set: the validators by ascending address (`authority/mod.rs`,
`ValidatorSet`). -/
structure ValidatorSet where
  inner : List (AddressBytes × ValidatorUpdate)
  deriving DecidableEq

/-- A fee paid in the current block (`fees/mod.rs`, `Fee`). -/
structure Fee where
  actionName : String
  asset : Denom
  amount : ℕ
  positionInTransaction : ℕ
  deriving DecidableEq

/-- A deposit to a rollup (`sequencerblock/v1/block/mod.rs`, `Deposit`). -/
structure Deposit where
  bridgeAddress : Address
  rollupId : RollupId
  amount : ℕ
  asset : Denom
  destinationChainAddress : String
  sourceTransactionId : TransactionId
  sourceActionIndex : ℕ
  deriving DecidableEq

/-- An ABCI event: the fee, deposit and price events of the sequencer, with the value their
attributes print, and the events of the IBC component. -/
inductive Event where
  | txFees (fee : Fee)
  | txDeposit (deposit : Deposit)
  | priceUpdate (currencyPair : CurrencyPair) (price : ℤ)
  | ibc (event : Bytes)
  deriving DecidableEq

/-- `tendermint::Hash`: a SHA-256 digest, or none. -/
abbrev Hash := Option Bytes32

inductive MisbehaviorKind where
  | unknown
  | duplicateVote
  | lightClientAttack
  deriving DecidableEq

/-- Evidence of a validator's misbehavior. -/
structure Misbehavior where
  kind : MisbehaviorKind
  validatorAddress : AddressBytes
  validatorPower : ℕ
  height : ℕ
  time : Time
  totalVotingPower : ℕ
  deriving DecidableEq

/-- What the execution of a block starts from (`app/mod.rs`, `BlockData`). -/
structure BlockData where
  misbehavior : List Misbehavior
  height : ℕ
  time : Time
  nextValidatorsHash : Hash
  proposerAddress : AddressBytes
  deriving DecidableEq

/-- The result of one transaction of a block (`ExecTxResult`). -/
structure ExecTxResult where
  code : ℕ := 0
  info : String := ""
  log : String := ""
  events : List Event := []
  deriving DecidableEq

/-- A CometBFT validator update. -/
structure CometbftValidatorUpdate where
  pubKey : Bytes32
  power : ℕ
  deriving DecidableEq

/-- The `block` section of the consensus parameters. -/
structure BlockSizeParams where
  maxBytes : ℕ
  maxGas : ℤ
  timeIotaMs : ℤ
  deriving DecidableEq

/-- The `evidence` section of the consensus parameters; the duration is in nanoseconds. -/
structure EvidenceParams where
  maxAgeNumBlocks : ℕ
  maxAgeDuration : ℕ
  maxBytes : ℤ
  deriving DecidableEq

/-- CometBFT consensus parameters (`tendermint::consensus::Params`). -/
structure ConsensusParams where
  block : BlockSizeParams
  evidence : EvidenceParams
  pubKeyTypes : List String
  version : Option ℕ
  voteExtensionsEnableHeight : Option ℕ
  deriving DecidableEq

/-- The value under `POST_TRANSACTION_EXECUTION_RESULT_KEY` (`app/mod.rs`). -/
structure PostTransactionExecutionResult where
  events : List Event
  txResults : List ExecTxResult
  validatorUpdates : List CometbftValidatorUpdate
  consensusParamUpdates : Option ConsensusParams
  deriving DecidableEq

/-- The stored record of a change of an upgrade. -/
structure ChangeInfo where
  activationHeight : ℕ
  appVersion : ℕ
  hash : Bytes32
  deriving DecidableEq

/-- The price of a currency pair at a block (`oracles/price_feed/oracle.rs`, `QuotePrice`). -/
structure QuotePrice where
  price : ℤ
  blockTimestamp : Time
  blockHeight : ℕ
  deriving DecidableEq

structure CurrencyPairState where
  price : Option QuotePrice
  nonce : ℕ
  id : ℕ
  deriving DecidableEq

/-- The market map: the markets by ticker, in order of insertion. -/
structure MarketMap where
  markets : List (String × Market)
  deriving DecidableEq

/-- `TransactionContext` (`transaction/state_ext.rs`). -/
structure TransactionContext where
  addressBytes : AddressBytes
  transactionId : TransactionId
  positionInTransaction : ℕ
  deriving DecidableEq

/-- What is stored of a block for the sequencer's gRPC service. -/
structure StoredBlock where
  height : ℕ
  time : Time
  proposer : AddressBytes
  rollupTransactionsRoot : Bytes32
  dataHash : Bytes32
  rollupTransactions : List (RollupId × List Bytes)
  upgradeChangeHashes : List Bytes32
  extendedCommitInfo : Option Bytes
  deriving DecidableEq

/-! ## Components -/

structure Accounts where
  balances : AddressBytes → IbcPrefixed → Option ℕ
  nonces : AddressBytes → Option ℕ

/-- The bridge component's verifiable keys.  A withdrawal event is stored under the whole
key string, built from the bridge address and the event id. -/
structure Bridge where
  rollupId : AddressBytes → Option RollupId
  ibcAsset : AddressBytes → Option IbcPrefixed
  sudoAddress : AddressBytes → Option AddressBytes
  withdrawerAddress : AddressBytes → Option AddressBytes
  withdrawalEvents : String → Option ℕ

structure Fees where
  components : ActionKind → Option FeeComponents
  allowedFeeAssets : Finset IbcPrefixed

structure Authority where
  sudoAddress : Option AddressBytes
  validators : AddressBytes → Option ValidatorUpdate
  preAspenValidatorSet : Option ValidatorSet

structure Ibc where
  ibcSudoAddress : Option AddressBytes
  relayers : Finset AddressBytes
  channelBalances : ChannelId → IbcPrefixed → Option ℕ

structure Assets where
  nativeAsset : Option TracePrefixed
  ibcAssets : IbcPrefixed → Option TracePrefixed

structure AddressPrefixes where
  basePrefix : Option String
  ibcCompatPrefix : Option String

structure Chain where
  chainId : Option String
  revisionNumber : Option ℕ
  blockHeight : Option ℕ
  blockTimestamp : Option Time
  upgradeChangeInfos : String → String → Option ChangeInfo

structure MarketMapStore where
  marketMap : Option MarketMap
  lastUpdated : Option ℕ

/-- The keys of the penumbra IBC component, which the sequencer does not read. -/
abbrev IbcStore := Bytes → Option Bytes

/-- What is stored beside the verifiable tree. -/
structure Nonverifiable where
  validatorCount : Option ℕ
  blockValidatorUpdates : Option ValidatorSet
  deposits : BlockHash → RollupId → Option (List Deposit)
  lastTransactionId : AddressBytes → Option TransactionId
  storageVersionByHeight : ℕ → Option ℕ
  consensusParams : Option ConsensusParams
  sequencerBlocks : BlockHash → Option StoredBlock
  blockHashByHeight : ℕ → Option BlockHash
  ibcStore : IbcStore

/-- The objects of a state delta.  `deposits` is the map of cached deposits as the list of
all deposits in the order in which they were cached. -/
structure Ephemeral where
  blockFees : List Fee := []
  deposits : List Deposit := []
  transactionContext : Option TransactionContext := none
  executionResults : Option (List ExecTxResult) := none
  postTransactionExecutionResult : Option PostTransactionExecutionResult := none
  events : List Event := []

/-- Every component but the price oracle. -/
structure Base where
  accounts : Accounts
  bridge : Bridge
  fees : Fees
  authority : Authority
  ibc : Ibc
  assets : Assets
  prefixes : AddressPrefixes
  chain : Chain
  marketMap : MarketMapStore
  ibcStore : IbcStore
  nonverifiable : Nonverifiable
  ephemeral : Ephemeral

/-- The keys of the price oracle (`oracles/price_feed/oracle/state_ext.rs`). -/
structure Oracle where
  pairState : CurrencyPair → Option CurrencyPairState
  pairToId : CurrencyPair → Option ℕ
  idToPair : ℕ → Option CurrencyPair
  numCurrencyPairs : Option ℕ
  nextCurrencyPairId : Option ℕ

/-- The whole state of a delta or of a snapshot. -/
structure State where
  base : Base
  oracle : Oracle

/-- The state of an empty store. -/
def Nonverifiable.empty : Nonverifiable :=
  { validatorCount := none
    blockValidatorUpdates := none
    deposits := fun _ _ => none
    lastTransactionId := fun _ => none
    storageVersionByHeight := fun _ => none
    consensusParams := none
    sequencerBlocks := fun _ => none
    blockHashByHeight := fun _ => none
    ibcStore := fun _ => none }

def Oracle.empty : Oracle :=
  { pairState := fun _ => none
    pairToId := fun _ => none
    idToPair := fun _ => none
    numCurrencyPairs := none
    nextCurrencyPairId := none }

def Base.empty : Base :=
  { accounts := { balances := fun _ _ => none, nonces := fun _ => none }
    bridge :=
      { rollupId := fun _ => none
        ibcAsset := fun _ => none
        sudoAddress := fun _ => none
        withdrawerAddress := fun _ => none
        withdrawalEvents := fun _ => none }
    fees := { components := fun _ => none, allowedFeeAssets := ∅ }
    authority :=
      { sudoAddress := none, validators := fun _ => none, preAspenValidatorSet := none }
    ibc := { ibcSudoAddress := none, relayers := ∅, channelBalances := fun _ _ => none }
    assets := { nativeAsset := none, ibcAssets := fun _ => none }
    prefixes := { basePrefix := none, ibcCompatPrefix := none }
    chain :=
      { chainId := none
        revisionNumber := none
        blockHeight := none
        blockTimestamp := none
        upgradeChangeInfos := fun _ _ => none }
    marketMap := { marketMap := none, lastUpdated := none }
    ibcStore := fun _ => none
    nonverifiable := Nonverifiable.empty
    ephemeral := {} }

def State.empty : State := { base := Base.empty, oracle := Oracle.empty }

/-- What a commit keeps: everything but the ephemeral objects. -/
def State.commit (s : State) : State :=
  { s with base.ephemeral := {} }

/-- What the app hash covers. -/
def State.verifiable (s : State) : State :=
  { s with base.ephemeral := {}, base.nonverifiable := Nonverifiable.empty }

@[simp] theorem State.commit_idem (s : State) : s.commit.commit = s.commit := rfl

@[simp] theorem State.verifiable_commit (s : State) : s.commit.verifiable = s.verifiable := rfl

/-! ## Computations over the state -/

/-- A computation over every component but the oracle. -/
abbrev BaseM := Exec Report Base

/-- A computation over the whole state. -/
abbrev AppM := Exec Report State

/-- Runs a computation that has no access to the oracle on the whole state. -/
def onBase {α : Type} (x : BaseM α) : AppM α :=
  Exec.zoom State.base (fun b s => { s with base := b }) x

theorem onBase_eq_ok {α : Type} {x : BaseM α} {s s' : State} {a : α} :
    onBase x s = .ok a s' ↔ ∃ b, x s.base = .ok a b ∧ s' = { s with base := b } :=
  Exec.zoom_eq_ok

@[simp] theorem onBase_tryReads_eq_ok {α : Type} {f : Base → Except Report α} {s s' : State} {a : α} :
    onBase (Exec.tryReads f) s = .ok a s' ↔ f s.base = .ok a ∧ s' = s := by
  rw [onBase_eq_ok]
  constructor
  · rintro ⟨b, hb, rfl⟩
    obtain ⟨ha, rfl⟩ := Exec.tryReads_eq_ok.mp hb
    exact ⟨ha, rfl⟩
  · rintro ⟨ha, rfl⟩
    exact ⟨s'.base, Exec.tryReads_eq_ok.mpr ⟨ha, rfl⟩, rfl⟩

/-- `wrap_err`. -/
abbrev wrapErr {σ α : Type} (context : String) (x : Exec Report σ α) : Exec Report σ α :=
  Exec.mapErr (context :: ·) x

end Astria.Sequencer
