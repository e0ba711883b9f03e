import Astria.Sequencer.StateExt

/-!
# Upgrades

The upgrade that the sequencer knows, Aspen (`crates/astria-core/src/upgrades/v1`), and its
execution at the activation height (`upgrades/upgrades_handler.rs`).

Results:
* `Upgrades.upgradeActivatingAtHeight_eq_some`: the upgrade of a height.
-/

namespace Astria.Sequencer

open Astria.Core Astria.Lib Exec

/-! ## The upgrade file -/

/-- A currency pair of the oracle's genesis (`oracles/price_feed/oracle.rs`,
`CurrencyPairGenesis`). -/
structure CurrencyPairGenesis where
  currencyPair : CurrencyPair
  currencyPairPrice : Option QuotePrice
  id : ℕ
  nonce : ℕ
  deriving DecidableEq

structure OracleGenesis where
  currencyPairGenesis : List CurrencyPairGenesis
  nextId : ℕ
  deriving DecidableEq

structure MarketMapGenesis where
  marketMap : MarketMap
  lastUpdated : ℕ
  marketAuthorities : List Address
  admin : Address
  deriving DecidableEq

/-- The Aspen upgrade (`upgrades/v1/aspen.rs`). -/
structure Aspen where
  activationHeight : ℕ
  appVersion : ℕ
  marketMapGenesis : MarketMapGenesis
  oracleGenesis : OracleGenesis
  deriving DecidableEq

/-- The changes of the Aspen upgrade, in their order. -/
inductive AspenChange where
  | priceFeedChange
  | validatorUpdateActionChange
  | ibcAcknowledgementFailureChange
  deriving DecidableEq

def AspenChange.all : List AspenChange :=
  [.priceFeedChange, .validatorUpdateActionChange, .ibcAcknowledgementFailureChange]

/-- `Change::name`. -/
def AspenChange.name : AspenChange → String
  | .priceFeedChange => "price_feed_change"
  | .validatorUpdateActionChange => "validator_update_action_change"
  | .ibcAcknowledgementFailureChange => "ibc_acknowledgement_failure_change"

/-- `Aspen::NAME`. -/
def Aspen.name : String := "aspen"

/-- The upgrades of the upgrade file, which can hold no upgrade but Aspen. -/
structure Upgrades where
  aspen : Option Aspen
  deriving DecidableEq

/-- `upgrade_activating_at_height`. -/
def Upgrades.upgradeActivatingAtHeight (upgrades : Upgrades) (height : ℕ) : Option Aspen :=
  upgrades.aspen.filter fun aspen => aspen.activationHeight = height

theorem Upgrades.upgradeActivatingAtHeight_eq_some {upgrades : Upgrades} {height : ℕ}
    {aspen : Aspen} :
    upgrades.upgradeActivatingAtHeight height = some aspen ↔
      upgrades.aspen = some aspen ∧ aspen.activationHeight = height := by
  simp [upgradeActivatingAtHeight, Option.filter_eq_some_iff]

/-- The encoding of a change that its hash covers. -/
class UpgradeCodec where
  /-- `borsh::to_vec` of a change. -/
  encodeChange : Aspen → AspenChange → Bytes

/-- What a node is started with: the upgrade file, and the answer of its CometBFT to
`consensus_params` at a height, absent when the request fails. -/
structure UpgradesHandler where
  upgrades : Upgrades
  consensusParamsFromCometbft : ℕ → Option ConsensusParams

/-! ## Execution -/

/-- `price_feed::market_map::handle_genesis`. -/
def MarketMapGenesis.handleGenesis (genesis : MarketMapGenesis) : BaseM Unit :=
  writes (Base.putMarketMap genesis.marketMap)

/-- The state that a currency pair starts with. -/
def CurrencyPairGenesis.state (pair : CurrencyPairGenesis) : CurrencyPairState :=
  { price := pair.currencyPairPrice, nonce := pair.nonce, id := pair.id }

/-- `price_feed::oracle::handle_genesis`. -/
def OracleGenesis.handleGenesis (genesis : OracleGenesis) : OracleM Unit := do
  forEach genesis.currencyPairGenesis fun pair =>
    writes (Oracle.putCurrencyPairState pair.currencyPair pair.state)
  writes (Oracle.putNextCurrencyPairId genesis.nextId)
  writes (Oracle.putNumCurrencyPairs genesis.currencyPairGenesis.length)

section

variable [ext : External]

/-- `AuthorityComponent::handle_aspen_upgrade`: every validator of the set gets a key of its
own. -/
def handleAspenUpgrade : BaseM Unit := do
  let set ← wrapErr "failed to get validator set" (tryReads Base.preAspenGetValidatorSet)
  writes Base.aspenUpgradeRemoveValidatorSet
  writes (Base.putValidatorCount set.inner.length)
  forEach set.inner fun entry => writes (Base.putValidator entry.2)

variable [codec : UpgradeCodec]

/-- `Change::calculate_hash`. -/
def Aspen.changeHash (aspen : Aspen) (change : AspenChange) : Bytes32 :=
  ext.sha256 (codec.encodeChange aspen change)

/-- `Change::info`. -/
def Aspen.changeInfo (aspen : Aspen) (change : AspenChange) : ChangeInfo :=
  { activationHeight := aspen.activationHeight
    appVersion := aspen.appVersion
    hash := aspen.changeHash change }

/-- The changes of an upgrade that is due. -/
def Aspen.execute (aspen : Aspen) : AppM (List Bytes32) := do
  onBase (forEach AspenChange.all fun change =>
    writes (Base.putUpgradeChangeInfo Aspen.name change.name (aspen.changeInfo change)))
  onBase aspen.marketMapGenesis.handleGenesis
  onOracle aspen.oracleGenesis.handleGenesis
  onBase (wrapErr "failed to handle authority component aspen upgrade" handleAspenUpgrade)
  pure (AspenChange.all.map aspen.changeHash)

/-- `execute_upgrade_if_due`: the hashes of the changes of the upgrade that activates at a
height. -/
def executeUpgradeIfDue (upgrades : Upgrades) (height : ℕ) : AppM (List Bytes32) :=
  match upgrades.upgradeActivatingAtHeight height with
  | none => pure []
  | some aspen => aspen.execute

end

/-! ## The end of the block -/

/-- The initial settings of the network, used when nothing else gives the parameters. -/
def hardCodedConsensusParams : ConsensusParams :=
  { block := { maxBytes := 1048576, maxGas := -1, timeIotaMs := 1000 }
    evidence :=
      { maxAgeNumBlocks := 4000000, maxAgeDuration := 1209600000000000, maxBytes := 1048576 }
    pubKeyTypes := ["ed25519"]
    version := some 0
    voteExtensionsEnableHeight := none }

/-- `UpgradesHandler::get_consensus_params`: the stored parameters, else CometBFT's, else the
hard-coded ones. -/
def UpgradesHandler.getConsensusParams (handler : UpgradesHandler) (s : Base) (height : ℕ) :
    ConsensusParams :=
  (s.nonverifiable.consensusParams.orElse fun _ =>
    handler.consensusParamsFromCometbft height).getD hardCodedConsensusParams

/-- `set_vote_extensions_enable_height_to_next_block_height`: a height that is set already
stays. -/
def setVoteExtensionsEnableHeight (height : ℕ) (params : ConsensusParams) : ConsensusParams :=
  if params.voteExtensionsEnableHeight.getD 0 = 0 then
    { params with voteExtensionsEnableHeight := some (height + 1) }
  else params

def Base.putConsensusParams (params : ConsensusParams) (s : Base) : Base :=
  { s with nonverifiable.consensusParams := some params }

/-- The parameters after an upgrade. -/
def UpgradesHandler.updatedParams (handler : UpgradesHandler) (aspen : Aspen) (s : Base)
    (height : ℕ) : ConsensusParams :=
  setVoteExtensionsEnableHeight height
    { handler.getConsensusParams s height with version := some aspen.appVersion }

/-- `UpgradesHandler::end_block`. -/
def UpgradesHandler.endBlock (handler : UpgradesHandler) (height : ℕ) :
    BaseM (Option ConsensusParams) :=
  match handler.upgrades.upgradeActivatingAtHeight height with
  | none => pure none
  | some aspen => do
    let params ← reads fun s => handler.updatedParams aspen s height
    writes (Base.putConsensusParams params)
    pure (some params)

end Astria.Sequencer
