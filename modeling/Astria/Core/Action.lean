import Astria.Core.Primitive

/-!
# Actions and transactions

The actions of a transaction (`protocol/transaction/v1/action/mod.rs`), their groups
(`action/group/mod.rs`) and the transaction that carries them
(`protocol/transaction/v1/mod.rs`).  `Actions` carries the size and group constraints that
`try_from_list_of_actions` checks, so that a list that breaks them is no value of the type.

Results:
* `Actions.tryFromListOfActions_eq_some`: the constructor accepts exactly the lists that
  meet the constraints;
* `Actions.eq_singleton`: an unbundleable group holds one action.
-/

namespace Astria.Core

/-! ## Price feed types -/

/-- Whether a string can be a side of a currency pair: `^[a-zA-Z]+$`. -/
def isCurrency (s : String) : Bool :=
  s ≠ "" && s.toList.all fun c => ('a' ≤ c && c ≤ 'z') || ('A' ≤ c && c ≤ 'Z')

/-- A currency pair `BASE/QUOTE` (`oracles/price_feed/types.rs`). -/
structure CurrencyPair where
  base : String
  quote : String
  base_valid : isCurrency base = true
  quote_valid : isCurrency quote = true
  deriving DecidableEq

/-- `CurrencyPair::try_from_raw`. -/
def CurrencyPair.tryFromRaw (base quote : String) : Option CurrencyPair :=
  if h : isCurrency base = true ∧ isCurrency quote = true then
    some { base := base, quote := quote, base_valid := h.1, quote_valid := h.2 }
  else none

@[simp] theorem CurrencyPair.tryFromRaw_self (p : CurrencyPair) :
    CurrencyPair.tryFromRaw p.base p.quote = some p := by
  simp [tryFromRaw, p.base_valid, p.quote_valid]

/-- `BASE/QUOTE`. -/
def CurrencyPair.toString (p : CurrencyPair) : String := p.base ++ "/" ++ p.quote

structure Ticker where
  currencyPair : CurrencyPair
  decimals : UInt8
  minProviderCount : ℕ
  enabled : Bool
  metadataJson : String
  deriving DecidableEq

structure ProviderConfig where
  name : String
  offChainTicker : String
  normalizeByPair : Option CurrencyPair
  invert : Bool
  metadataJson : String
  deriving DecidableEq

/-- A market of the market map (`oracles/price_feed/market_map.rs`). -/
structure Market where
  ticker : Ticker
  providerConfigs : List ProviderConfig
  deriving DecidableEq

/-! ## Kinds of actions -/

/-- The kinds of actions, each with a fee schedule of its own. -/
inductive ActionKind where
  | rollupDataSubmission
  | transfer
  | validatorUpdate
  | sudoAddressChange
  | ibcRelay
  | ibcSudoChange
  | ics20Withdrawal
  | ibcRelayerChange
  | feeAssetChange
  | initBridgeAccount
  | bridgeLock
  | bridgeUnlock
  | bridgeSudoChange
  | bridgeTransfer
  | feeChange
  | recoverIbcClient
  | currencyPairsChange
  | marketsChange
  deriving DecidableEq

/-- `FeeHandler::name`. -/
def ActionKind.name : ActionKind → String
  | .rollupDataSubmission => "RollupDataSubmission"
  | .transfer => "Transfer"
  | .validatorUpdate => "ValidatorUpdate"
  | .sudoAddressChange => "SudoAddressChange"
  | .ibcRelay => "IbcRelay"
  | .ibcSudoChange => "IbcSudoChange"
  | .ics20Withdrawal => "Ics20Withdrawal"
  | .ibcRelayerChange => "IbcRelayerChange"
  | .feeAssetChange => "FeeAssetChange"
  | .initBridgeAccount => "InitBridgeAccount"
  | .bridgeLock => "BridgeLock"
  | .bridgeUnlock => "BridgeUnlock"
  | .bridgeSudoChange => "BridgeSudoChange"
  | .bridgeTransfer => "BridgeTransfer"
  | .feeChange => "FeeChange"
  | .recoverIbcClient => "RecoverIbcClient"
  | .currencyPairsChange => "CurrencyPairsChange"
  | .marketsChange => "MarketsChange"

/-- `FeeHandler::snake_case_name`. -/
def ActionKind.snakeCaseName : ActionKind → String
  | .rollupDataSubmission => "rollup_data_submission"
  | .transfer => "transfer"
  | .validatorUpdate => "validator_update"
  | .sudoAddressChange => "sudo_address_change"
  | .ibcRelay => "ibc_relay"
  | .ibcSudoChange => "ibc_sudo_change"
  | .ics20Withdrawal => "ics20_withdrawal"
  | .ibcRelayerChange => "ibc_relayer_change"
  | .feeAssetChange => "fee_asset_change"
  | .initBridgeAccount => "init_bridge_account"
  | .bridgeLock => "bridge_lock"
  | .bridgeUnlock => "bridge_unlock"
  | .bridgeSudoChange => "bridge_sudo_change"
  | .bridgeTransfer => "bridge_transfer"
  | .feeChange => "fee_change"
  | .recoverIbcClient => "recover_ibc_client"
  | .currencyPairsChange => "currency_pairs_change"
  | .marketsChange => "markets_change"

/-- `FeeHandler::full_name`: the name under its protobuf package. -/
def ActionKind.fullName : ActionKind → String
  | .ibcRelay => "penumbra.core.component.ibc.v1.IbcRelay"
  | kind => "astria.protocol.transaction.v1." ++ kind.name

/-! ## Actions -/

/-- The fee of an action kind (`protocol/fees/v1.rs`, `FeeComponents`). -/
structure FeeComponents where
  base : ℕ
  multiplier : ℕ
  deriving DecidableEq

structure RollupDataSubmission where
  rollupId : RollupId
  data : Bytes
  feeAsset : Denom
  deriving DecidableEq

structure Transfer where
  toAddress : Address
  amount : ℕ
  asset : Denom
  feeAsset : Denom
  deriving DecidableEq

structure ValidatorUpdate where
  power : ℕ
  verificationKey : Bytes32
  name : String
  deriving DecidableEq

structure SudoAddressChange where
  newAddress : Address
  deriving DecidableEq

structure IbcSudoChange where
  newAddress : Address
  deriving DecidableEq

/-- `IbcHeight`. -/
structure IbcHeight where
  revisionNumber : ℕ
  revisionHeight : ℕ
  deriving DecidableEq

structure Ics20Withdrawal where
  amount : ℕ
  denom : Denom
  destinationChainAddress : String
  returnAddress : Address
  timeoutHeight : IbcHeight
  timeoutTime : ℕ
  sourceChannel : ChannelId
  feeAsset : Denom
  memo : String
  bridgeAddress : Option Address
  useCompatAddress : Bool
  deriving DecidableEq

inductive IbcRelayerChange where
  | addition (address : Address)
  | removal (address : Address)
  deriving DecidableEq

inductive FeeAssetChange where
  | addition (asset : Denom)
  | removal (asset : Denom)
  deriving DecidableEq

structure InitBridgeAccount where
  rollupId : RollupId
  asset : Denom
  feeAsset : Denom
  sudoAddress : Option Address
  withdrawerAddress : Option Address
  deriving DecidableEq

structure BridgeLock where
  toAddress : Address
  amount : ℕ
  asset : Denom
  feeAsset : Denom
  destinationChainAddress : String
  deriving DecidableEq

structure BridgeUnlock where
  toAddress : Address
  amount : ℕ
  feeAsset : Denom
  bridgeAddress : Address
  memo : String
  rollupBlockNumber : ℕ
  rollupWithdrawalEventId : String
  deriving DecidableEq

structure BridgeSudoChange where
  bridgeAddress : Address
  newSudoAddress : Option Address
  newWithdrawerAddress : Option Address
  feeAsset : Denom
  deriving DecidableEq

structure BridgeTransfer where
  toAddress : Address
  amount : ℕ
  feeAsset : Denom
  destinationChainAddress : String
  bridgeAddress : Address
  rollupBlockNumber : ℕ
  rollupWithdrawalEventId : String
  deriving DecidableEq

/-- The variants of the source's enumeration differ in the kind only. -/
structure FeeChange where
  kind : ActionKind
  fees : FeeComponents
  deriving DecidableEq

structure RecoverIbcClient where
  clientId : String
  replacementClientId : String
  deriving DecidableEq

inductive CurrencyPairsChange where
  | addition (currencyPairs : List CurrencyPair)
  | removal (currencyPairs : List CurrencyPair)
  deriving DecidableEq

inductive MarketsChange where
  | creation (markets : List Market)
  | removal (markets : List Market)
  | update (markets : List Market)
  deriving DecidableEq

/-- An ICS packet of the transfer application. -/
structure Packet where
  sequence : ℕ
  portOnA : PortId
  chanOnA : ChannelId
  portOnB : PortId
  chanOnB : ChannelId
  data : Bytes
  timeoutHeight : IbcHeight
  timeoutTime : ℕ
  deriving DecidableEq

/-- The channel messages of which the transfer application checks a part. -/
inductive ChannelHandshake where
  | openInit (unordered : Bool) (versionProposal : String)
  | openTry (unordered : Bool) (versionSupportedOnA : String)
  | openAck (versionOnB : String)
  | openConfirm
  | closeInit
  | closeConfirm
  deriving DecidableEq

/-- A relayed IBC message.  `proof` is what the IBC component checks a packet message
against; the messages on clients and connections do not reach the transfer application. -/
inductive IbcRelay where
  | channel (handshake : ChannelHandshake) (message : Bytes)
  | recvPacket (packet : Packet) (proof : Bytes)
  | acknowledgement (packet : Packet) (acknowledgement : Bytes) (proof : Bytes)
  | timeout (packet : Packet) (proof : Bytes)
  | other (message : Bytes)
  deriving DecidableEq

/-- The body of one action (`action/mod.rs`, `Action`). -/
inductive Action where
  | rollupDataSubmission (act : RollupDataSubmission)
  | transfer (act : Transfer)
  | validatorUpdate (act : ValidatorUpdate)
  | sudoAddressChange (act : SudoAddressChange)
  | ibc (act : IbcRelay)
  | ibcSudoChange (act : IbcSudoChange)
  | ics20Withdrawal (act : Ics20Withdrawal)
  | ibcRelayerChange (act : IbcRelayerChange)
  | feeAssetChange (act : FeeAssetChange)
  | initBridgeAccount (act : InitBridgeAccount)
  | bridgeLock (act : BridgeLock)
  | bridgeUnlock (act : BridgeUnlock)
  | bridgeSudoChange (act : BridgeSudoChange)
  | bridgeTransfer (act : BridgeTransfer)
  | feeChange (act : FeeChange)
  | recoverIbcClient (act : RecoverIbcClient)
  | currencyPairsChange (act : CurrencyPairsChange)
  | marketsChange (act : MarketsChange)
  deriving DecidableEq

def Action.kind : Action → ActionKind
  | .rollupDataSubmission _ => .rollupDataSubmission
  | .transfer _ => .transfer
  | .validatorUpdate _ => .validatorUpdate
  | .sudoAddressChange _ => .sudoAddressChange
  | .ibc _ => .ibcRelay
  | .ibcSudoChange _ => .ibcSudoChange
  | .ics20Withdrawal _ => .ics20Withdrawal
  | .ibcRelayerChange _ => .ibcRelayerChange
  | .feeAssetChange _ => .feeAssetChange
  | .initBridgeAccount _ => .initBridgeAccount
  | .bridgeLock _ => .bridgeLock
  | .bridgeUnlock _ => .bridgeUnlock
  | .bridgeSudoChange _ => .bridgeSudoChange
  | .bridgeTransfer _ => .bridgeTransfer
  | .feeChange _ => .feeChange
  | .recoverIbcClient _ => .recoverIbcClient
  | .currencyPairsChange _ => .currencyPairsChange
  | .marketsChange _ => .marketsChange

/-! ## Groups -/

/-- The groups of actions, in the order in which a block lists them from the last to the
first (`action/group/mod.rs`, `Group`). -/
inductive Group where
  | unbundleableSudo
  | bundleableSudo
  | unbundleableGeneral
  | bundleableGeneral
  deriving DecidableEq

/-- The discriminant of the group, which its order compares. -/
def Group.rank : Group → ℕ
  | .unbundleableSudo => 1
  | .bundleableSudo => 2
  | .unbundleableGeneral => 3
  | .bundleableGeneral => 4

def Group.isBundleable : Group → Bool
  | .bundleableGeneral | .bundleableSudo => true
  | .unbundleableGeneral | .unbundleableSudo => false

/-- The group of a kind of action (`action/group/mod.rs`, `BelongsToGroup`). -/
def ActionKind.group : ActionKind → Group
  | .sudoAddressChange | .ibcSudoChange => .unbundleableSudo
  | .ibcRelayerChange | .feeChange | .feeAssetChange | .recoverIbcClient
  | .currencyPairsChange | .marketsChange => .bundleableSudo
  | .initBridgeAccount | .bridgeSudoChange => .unbundleableGeneral
  | .rollupDataSubmission | .transfer | .validatorUpdate | .ics20Withdrawal | .bridgeLock
  | .bridgeUnlock | .bridgeTransfer | .ibcRelay => .bundleableGeneral

def Action.group (a : Action) : Group := a.kind.group

/-- The actions of one transaction: at least one, all of one group, and a single one when
the group is not bundleable. -/
structure Actions where
  group : Group
  inner : List Action
  nonempty : inner ≠ []
  sameGroup : ∀ a ∈ inner, a.group = group
  single : group.isBundleable = false → inner.length ≤ 1

/-- `Actions::try_from_list_of_actions`. -/
def Actions.tryFromListOfActions (actions : List Action) : Option Actions :=
  match h : actions with
  | [] => none
  | first :: rest =>
    if hsize : 1 < (first :: rest).length ∧ first.group.isBundleable = false then none
    else if hgroup : ∀ a ∈ rest, a.group = first.group then
      some
        { group := first.group
          inner := first :: rest
          nonempty := by simp
          sameGroup := by simpa using hgroup
          single := fun hb => by
            by_contra hlen
            exact hsize ⟨by omega, hb⟩ }
    else none

/-- The constructor accepts exactly the lists that meet the constraints. -/
theorem Actions.tryFromListOfActions_eq_some (actions : List Action) (as : Actions) :
    Actions.tryFromListOfActions actions = some as ↔ as.inner = actions := by
  obtain ⟨group, inner, hne, hgroup, hsingle⟩ := as
  cases actions with
  | nil => simpa [tryFromListOfActions] using hne
  | cons first rest =>
    constructor
    · intro h
      simp only [tryFromListOfActions] at h
      split_ifs at h with hsize hall
      · rw [Option.some.injEq, Actions.mk.injEq] at h
        exact h.2.symm
    · intro h
      change inner = first :: rest at h
      subst h
      have hfirst : first.group = group := hgroup first List.mem_cons_self
      subst hfirst
      have hsize : ¬(1 < (first :: rest).length ∧ first.group.isBundleable = false) := by
        rintro ⟨hlen, hb⟩
        have := hsingle hb
        omega
      have hall : ∀ a ∈ rest, a.group = first.group := fun a ha =>
        hgroup a (List.mem_cons_of_mem _ ha)
      simp only [tryFromListOfActions, dif_neg hsize, dif_pos hall]

/-- A group that is not bundleable holds one action. -/
theorem Actions.eq_singleton (as : Actions) (h : as.group.isBundleable = false) :
    ∃ a, as.inner = [a] := by
  have hlen := as.single h
  cases hi : as.inner with
  | nil => exact absurd hi as.nonempty
  | cons a rest =>
    cases rest with
    | nil => exact ⟨a, rfl⟩
    | cons b rest =>
      rw [hi] at hlen
      simp at hlen

/-! ## Transactions -/

structure TransactionParams where
  nonce : ℕ
  chainId : String
  deriving DecidableEq

/-- A signed transaction (`protocol/transaction/v1/mod.rs`, `Transaction`). -/
structure Transaction where
  signature : Bytes
  verificationKey : Bytes32
  actions : Actions
  params : TransactionParams
  bodyBytes : Bytes

def Transaction.group (tx : Transaction) : Group := tx.actions.group

end Astria.Core
