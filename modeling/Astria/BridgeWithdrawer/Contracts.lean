import Astria.Core.ActionConversions
import Astria.Lib.Outcome
import Astria.Lib.Sha256
import Astria.Sequencer.TestUtils

/-!
# The events of the bridge contracts

Converting the withdrawal events of a rollup's bridge contract to actions of the sequencer
(`crates/astria-bridge-contracts/src/lib.rs`).

The rollup node, the decoder of logs and the JSON format of memos are parameters.  A computation
that overflows panics, as it does in a build with overflow checks.

Results:
* `returns_tryBuild`: when the fetcher is built without an overflow;
* `returns_logToAction`: when an event is converted without a panic;
* `rollupWithdrawalEventId_inj`: events of different logs have different ids;
* `convertsExactly_iff`: events are converted exactly if the exponent is at most 38 and the amount
  fits in 128 bits.
-/

namespace Astria.BridgeWithdrawer

open Astria.Core Astria.Lib Fallible
open Astria.Sequencer (External Ics20WithdrawalFromRollup)

/-! ## Ethereum -/

/-- `ethers::types::Address`. -/
abbrev H160 := List.Vector UInt8 20

abbrev H256 := Bytes32

abbrev U256 := BitVec 256

/-- `Log`, as far as it is used here. -/
structure Log where
  topics : List H256
  data : Bytes
  blockNumber : Option ℕ
  transactionHash : Option H256
  logIndex : Option U256

/-- `Ics20WithdrawalFilter` (`generated/astria_withdrawer.rs`). -/
structure Ics20WithdrawalFilter where
  sender : H160
  amount : U256
  destinationChainAddress : String
  memo : String

/-- `SequencerWithdrawalFilter` (`generated/astria_withdrawer.rs`). -/
structure SequencerWithdrawalFilter where
  sender : H160
  amount : U256
  destinationChainAddress : String

/-- The two events of the contract. -/
inductive WithdrawalEvent where
  | ics20Withdrawal
  | sequencerWithdrawal
  deriving DecidableEq

/-- `EthEvent::name`. -/
def WithdrawalEvent.name : WithdrawalEvent → String
  | ics20Withdrawal => "Ics20Withdrawal"
  | sequencerWithdrawal => "SequencerWithdrawal"

/-- The decoders of `ethers`, and the JSON format of the memos. -/
class EthereumFormats where
  decodeIcs20Withdrawal : Log → Except Report Ics20WithdrawalFilter
  decodeSequencerWithdrawal : Log → Except Report SequencerWithdrawalFilter
  serializeMemo : Ics20WithdrawalFromRollup → Except Report String

/-- `Middleware`: the calls of the contract at an address, and the logs of a block. -/
structure Middleware where
  baseChainAssetPrecision : H160 → Except Report UInt32
  decimals : H160 → Except Report UInt8
  getLogs : WithdrawalEvent → H160 → H256 → Except Report (List Log)

/-- `AbiEncode::encode_hex`, of bytes. -/
def encodeHex (bytes : Bytes) : String := "0x" ++ String.ofList (bytes.flatMap Denom.hexByte)

/-- `AbiEncode::encode_hex`, of a number. -/
def encodeHexNumber (n : U256) : String := encodeHex (Sha256.bigEndian 32 n.toNat)

/-- `AbiEncode::encode_hex`, of an address, which is padded to 32 bytes. -/
def encodeHexAddress (address : H160) : String :=
  encodeHex (List.replicate 12 0 ++ address.toList)

/-! ## Building the fetcher -/

/-- `NON_ERC20_CONTRACT_DECIMALS`. -/
def nonErc20ContractDecimals : ℕ := 18

namespace BuildError

def badDivisor (baseChainAssetPrecision : ℕ) : Report :=
  ["failed calculating asset divisor. The base chain asset precision should be <= 18 as that's " ++
    "enforced by the contract, so the construction should work. Did the precision change? " ++
    s!"Precision returned by contract: `{baseChainAssetPrecision}`"]

def callBaseChainAssetPrecision : String :=
  "failed to call the `BASE_CHAIN_ASSET_PRECISION` of the provided contract"

def noWithdrawsConfigured : Report :=
  ["getting withdraws actions must be configured for one of sequencer or ics20 (or both); " ++
    "neither was set"]

def notSet (field : String) : Report := [s!"required option `{field}` not set"]

def ics20AssetWithoutChannel : Report := ["ics20 asset must have a channel to be withdrawn via IBC"]

def parseIcs20AssetSourceChannel : Report := ["could not parse ics20 asset channel as channel ID"]

end BuildError

/-- `GetWithdrawalActions`. -/
structure GetWithdrawalActions where
  provider : Middleware
  contractAddress : H160
  assetWithdrawalDivisor : ℕ
  bridgeAddress : Address
  feeAsset : Denom
  sequencerAssetToWithdraw : Option Denom
  ics20AssetToWithdraw : Option TracePrefixed
  ics20SourceChannel : Option ChannelId
  useCompatAddress : Bool

/-- `GetWithdrawalActionsBuilder`, with a provider. -/
structure GetWithdrawalActionsBuilder where
  provider : Middleware
  contractAddress : Option H160
  bridgeAddress : Option Address
  feeAsset : Option Denom
  sequencerAssetToWithdraw : Option Denom
  ics20AssetToWithdraw : Option TracePrefixed
  useCompatAddress : Bool

/-- `pow`, of a 128-bit number. -/
def powU128 (base exponent : ℕ) : Outcome ℕ :=
  if base ^ exponent ≤ u128Max then .returns (base ^ exponent) else .panics

/-- `leading_channel`. -/
def leadingChannel (asset : TracePrefixed) : Option ChannelId := asset.trace.head?.map (·.channel)

namespace GetWithdrawalActionsBuilder

/-- The decimals of the contract; a contract that cannot tell them is not an ERC20 contract. -/
def contractDecimals (builder : GetWithdrawalActionsBuilder) (address : H160) : ℕ :=
  match builder.provider.decimals address with
  | .ok decimals => decimals.toNat
  | .error _ => nonErc20ContractDecimals

section

variable [wire : WireFormats]

/-- The channel of the asset that is withdrawn by IBC, if there is one. -/
def ics20SourceChannel (builder : GetWithdrawalActionsBuilder) : Except Report (Option ChannelId) :=
  match builder.ics20AssetToWithdraw with
  | none => .ok none
  | some asset => do
    let channel ← okOr (leadingChannel asset) BuildError.ics20AssetWithoutChannel
    let channel ← okOr (wire.parseChannelId channel) BuildError.parseIcs20AssetSourceChannel
    .ok (some channel)

/-- `try_build`. -/
def tryBuild (builder : GetWithdrawalActionsBuilder) : Fallible Report GetWithdrawalActions := do
  let contractAddress ←
    lift (okOr builder.contractAddress (BuildError.notSet "contract_address"))
  let bridgeAddress ← lift (okOr builder.bridgeAddress (BuildError.notSet "bridge_address"))
  let feeAsset ← lift (okOr builder.feeAsset (BuildError.notSet "fee_asset"))
  if builder.sequencerAssetToWithdraw.isNone ∧ builder.ics20AssetToWithdraw.isNone then
    lift (.error BuildError.noWithdrawsConfigured)
  else
    let ics20SourceChannel ← lift builder.ics20SourceChannel
    let baseChainAssetPrecision ←
      lift (withContext BuildError.callBaseChainAssetPrecision
        (builder.provider.baseChainAssetPrecision contractAddress))
    let exponent ← lift (okOr
      (checkedSub (builder.contractDecimals contractAddress) baseChainAssetPrecision.toNat)
      (BuildError.badDivisor baseChainAssetPrecision.toNat))
    let assetWithdrawalDivisor ← step (powU128 10 exponent)
    lift (.ok
      { provider := builder.provider
        contractAddress := contractAddress
        assetWithdrawalDivisor := assetWithdrawalDivisor
        bridgeAddress := bridgeAddress
        feeAsset := feeAsset
        sequencerAssetToWithdraw := builder.sequencerAssetToWithdraw
        ics20AssetToWithdraw := builder.ics20AssetToWithdraw
        ics20SourceChannel := ics20SourceChannel
        useCompatAddress := builder.useCompatAddress })

end

end GetWithdrawalActionsBuilder

/-! ## Converting events -/

/-- `as_u128`. -/
def asU128 (amount : U256) : Outcome ℕ :=
  if amount.toNat ≤ u128Max then .returns amount.toNat else .panics

/-- `calculate_amount`, of the amount of an event. -/
def calculateAmount (amount : U256) (assetWithdrawalDivisor : ℕ) : Fallible Report ℕ := do
  let amount ← step (asU128 amount)
  if assetWithdrawalDivisor = 0 then
    lift (.error ["failed calculate amount to withdraw because mount in event could not be " ++
      "divided by the asset withdrawal divisor; " ++
      s!"amount: `{amount}`, divisor: `{assetWithdrawalDivisor}`"])
  else lift (.ok (amount / assetWithdrawalDivisor))

/-- `max_timeout_height`. -/
def maxTimeoutHeight : IbcHeight := { revisionNumber := u64Max, revisionHeight := u64Max }

/-- `timeout_in_5_min`, on a clock that shows nanoseconds. -/
def timeoutIn5Min (now : ℤ) : Outcome ℕ :=
  let timeout : ℤ := now + 300 * 10 ^ 9
  if 0 ≤ timeout ∧ timeout ≤ u64Max then .returns timeout.toNat else .panics

/-- `rollup_withdrawal_event_id`. -/
def rollupWithdrawalEventId (transactionHash : H256) (eventIndex : U256) : String :=
  encodeHex transactionHash.toList ++ "." ++ encodeHexNumber eventIndex

section

variable [ext : External] [eth : EthereumFormats]

/-- `decode_log`. -/
def decodeLog {α : Type} (event : WithdrawalEvent) (decode : Log → Except Report α) (log : Log) :
    Except Report α :=
  withContext s!"failed decoding a log into an Astria bridge contract event `{event.name}`"
    (decode log)

/-- `make_withdrawal_memo`. -/
def makeWithdrawalMemo (event : Ics20WithdrawalFilter) (rollupBlockNumber : ℕ)
    (transactionHash : H256) (eventIndex : U256) : Except Report String :=
  withContext "failed encoding memo `astria.protocol.memos.v1.Ics20WithdrawalFromRollup` as JSON"
    (eth.serializeMemo
      { memo := event.memo
        rollupBlockNumber := rollupBlockNumber
        rollupReturnAddress := encodeHexAddress event.sender
        rollupWithdrawalEventId := rollupWithdrawalEventId transactionHash eventIndex })

/-- `parse_destination_chain_as_address`. -/
def parseDestinationChainAsAddress (event : SequencerWithdrawalFilter) : Except Report Address :=
  okOr (ext.parseBech32m event.destinationChainAddress)
    ["failed to parse destination chain address as Astria address for a bridge unlock"]

/-- The place of a log: the number of its block, the hash of its transaction and its index. -/
def Log.place (log : Log) : Except Report (ℕ × H256 × U256) := do
  let rollupBlockNumber ← okOr log.blockNumber ["log did not contain a block number"]
  let transactionHash ← okOr log.transactionHash ["log did not contain a transaction hash"]
  let eventIndex ← okOr log.logIndex ["log did not contain a log index"]
  .ok (rollupBlockNumber, transactionHash, eventIndex)

namespace GetWithdrawalActions

/-- `log_to_ics20_withdrawal_action`. -/
def logToIcs20WithdrawalAction (fetcher : GetWithdrawalActions) (log : Log) (now : ℤ) :
    Fallible Report Action := do
  let (rollupBlockNumber, transactionHash, eventIndex) ← lift log.place
  let event ← lift (decodeLog .ics20Withdrawal eth.decodeIcs20Withdrawal log)
  -- both must be set if this is entered
  let denom ← step (.ofOption fetcher.ics20AssetToWithdraw)
  let sourceChannel ← step (.ofOption fetcher.ics20SourceChannel)
  let memo ← lift (makeWithdrawalMemo event rollupBlockNumber transactionHash eventIndex)
  let amount ← calculateAmount event.amount fetcher.assetWithdrawalDivisor
  let timeoutTime ← step (timeoutIn5Min now)
  lift (.ok (.ics20Withdrawal
    { amount := amount
      denom := .tracePrefixed denom
      destinationChainAddress := event.destinationChainAddress
      returnAddress := fetcher.bridgeAddress
      timeoutHeight := maxTimeoutHeight
      timeoutTime := timeoutTime
      sourceChannel := sourceChannel
      feeAsset := fetcher.feeAsset
      memo := memo
      bridgeAddress := some fetcher.bridgeAddress
      useCompatAddress := fetcher.useCompatAddress }))

/-- `log_to_sequencer_withdrawal_action`. -/
def logToSequencerWithdrawalAction (fetcher : GetWithdrawalActions) (log : Log) :
    Fallible Report Action := do
  let (rollupBlockNumber, transactionHash, eventIndex) ← lift log.place
  let event ← lift (decodeLog .sequencerWithdrawal eth.decodeSequencerWithdrawal log)
  let amount ← calculateAmount event.amount fetcher.assetWithdrawalDivisor
  let toAddress ← lift (parseDestinationChainAsAddress event)
  lift (.ok (.bridgeUnlock
    { toAddress := toAddress
      amount := amount
      feeAsset := fetcher.feeAsset
      bridgeAddress := fetcher.bridgeAddress
      memo := ""
      rollupBlockNumber := rollupBlockNumber
      rollupWithdrawalEventId := rollupWithdrawalEventId transactionHash eventIndex }))

/-- The conversion of the logs of an event. -/
def logToAction (fetcher : GetWithdrawalActions) (now : ℤ) (event : WithdrawalEvent) (log : Log) :
    Fallible Report Action :=
  match event with
  | .ics20Withdrawal => fetcher.logToIcs20WithdrawalAction log now
  | .sequencerWithdrawal => fetcher.logToSequencerWithdrawalAction log

/-- `configured_for_ics20_withdrawals` and `configured_for_sequencer_withdrawals`. -/
def configuredFor (fetcher : GetWithdrawalActions) : WithdrawalEvent → Bool
  | .ics20Withdrawal => fetcher.ics20AssetToWithdraw.isSome
  | .sequencerWithdrawal => fetcher.sequencerAssetToWithdraw.isSome

/-- `get_logs`, which is only called for an event that is configured. -/
def getLogs (fetcher : GetWithdrawalActions) (blockHash : H256) (event : WithdrawalEvent) :
    Except Report (List Log) :=
  if fetcher.configuredFor event then
    withContext s!"failed getting the eth logs for event `{event.name}`"
      (fetcher.provider.getLogs event fetcher.contractAddress blockHash)
  else .ok []

/-- `get_for_block_hash`.  A log that cannot be converted does not fail the others. -/
def getForBlockHash (fetcher : GetWithdrawalActions) (now : ℤ) (blockHash : H256) :
    Fallible Report (List (Except Report Action)) := do
  let ics20Logs ← lift (fetcher.getLogs blockHash .ics20Withdrawal)
  let sequencerLogs ← lift (fetcher.getLogs blockHash .sequencerWithdrawal)
  let ics20Actions ←
    step (ics20Logs.mapM fun log => (fetcher.logToAction now .ics20Withdrawal log).run)
  let sequencerActions ←
    step (sequencerLogs.mapM fun log => (fetcher.logToAction now .sequencerWithdrawal log).run)
  lift (.ok (ics20Actions ++ sequencerActions))

end GetWithdrawalActions

end

/-! ## When the fetcher is built -/

theorem returns_powU128_ten {exponent : ℕ} : (powU128 10 exponent).Returns ↔ exponent ≤ 38 := by
  unfold powU128
  constructor
  · intro h
    by_contra hlt
    have hpow : 10 ^ 39 ≤ 10 ^ exponent := Nat.pow_le_pow_right (by decide) (by omega)
    have hmax : u128Max < 10 ^ 39 := by decide
    rw [if_neg (by omega)] at h
    exact Outcome.not_returns_panics h
  · intro h
    have hpow : 10 ^ exponent ≤ 10 ^ 38 := Nat.pow_le_pow_right (by decide) h
    have hmax : 10 ^ 38 ≤ u128Max := by decide
    rw [if_pos (hpow.trans hmax)]
    exact Outcome.returns_returns _

section

variable [wire : WireFormats] {builder : GetWithdrawalActionsBuilder}

/-- The options of a builder are set, and the channel of its ICS20 asset can be parsed. -/
structure Complete (builder : GetWithdrawalActionsBuilder) (address : H160) : Prop where
  contractAddress : builder.contractAddress = some address
  bridgeAddress : builder.bridgeAddress.isSome
  feeAsset : builder.feeAsset.isSome
  withdraws : ¬(builder.sequencerAssetToWithdraw.isNone ∧ builder.ics20AssetToWithdraw.isNone)
  channel : ∃ channel, builder.ics20SourceChannel = .ok channel

/-- Building gets as far as the divisor: the precision is read, and it is not above the decimals. -/
structure ReachesDivisor (builder : GetWithdrawalActionsBuilder) (address : H160)
    (precision : UInt32) : Prop extends Complete builder address where
  read : builder.provider.baseChainAssetPrecision address = .ok precision
  le : precision.toNat ≤ builder.contractDecimals address

/-- Building overflows only in the power. -/
theorem returns_tryBuild : builder.tryBuild.run.Returns ↔
    ∀ address precision, ReachesDivisor builder address precision →
      builder.contractDecimals address - precision.toNat ≤ 38 := by
  unfold GetWithdrawalActionsBuilder.tryBuild
  simp only [returns_bind, run_lift, Outcome.returns_returns, true_and, Outcome.returns.injEq,
    okOr_eq_ok]
  constructor
  · intro h address precision hreach
    obtain ⟨bridgeAddress, hbridge⟩ := Option.isSome_iff_exists.mp hreach.bridgeAddress
    obtain ⟨feeAsset, hfee⟩ := Option.isSome_iff_exists.mp hreach.feeAsset
    obtain ⟨channel, hchannel⟩ := hreach.channel
    have h := h address hreach.contractAddress bridgeAddress hbridge feeAsset hfee
    rw [if_neg hreach.withdraws] at h
    simp only [returns_bind, run_lift, Outcome.returns_returns, true_and, Outcome.returns.injEq,
      okOr_eq_ok, withContext_eq_ok] at h
    have hsub : checkedSub (builder.contractDecimals address) precision.toNat =
        some (builder.contractDecimals address - precision.toNat) := if_pos hreach.le
    have hpow := (h channel hchannel precision hreach.read _ hsub).1
    exact returns_powU128_ten.mp (returns_step.mp hpow)
  · intro h address haddress bridgeAddress hbridge feeAsset hfee
    split_ifs with hwithdraws
    · exact Outcome.returns_returns _
    · simp only [returns_bind, run_lift, Outcome.returns_returns, true_and, Outcome.returns.injEq,
        okOr_eq_ok, withContext_eq_ok, implies_true, and_true]
      intro channel hchannel precision hprecision exponent hexponent
      obtain ⟨hle, hsub⟩ := checkedSub_eq_some.mp hexponent
      have hreach : ReachesDivisor builder address precision :=
        { contractAddress := haddress
          bridgeAddress := Option.isSome_iff_exists.mpr ⟨_, hbridge⟩
          feeAsset := Option.isSome_iff_exists.mpr ⟨_, hfee⟩
          withdraws := hwithdraws
          channel := ⟨_, hchannel⟩
          read := hprecision
          le := hle }
      have := h address precision hreach
      exact returns_step.mpr (returns_powU128_ten.mpr (by omega))

/-- A fetcher that was built. -/
structure Built (builder : GetWithdrawalActionsBuilder) (fetcher : GetWithdrawalActions)
    (address : H160) (precision : UInt32) : Prop extends ReachesDivisor builder address precision where
  divisor : fetcher.assetWithdrawalDivisor =
    10 ^ (builder.contractDecimals address - precision.toNat)
  sequencerAsset : fetcher.sequencerAssetToWithdraw = builder.sequencerAssetToWithdraw
  ics20Asset : fetcher.ics20AssetToWithdraw = builder.ics20AssetToWithdraw
  /-- An asset that is withdrawn by IBC has a channel. -/
  sourceChannel : fetcher.ics20AssetToWithdraw.isSome → fetcher.ics20SourceChannel.isSome

theorem ics20SourceChannel_isSome {channel : Option ChannelId}
    (h : builder.ics20SourceChannel = .ok channel) (hasset : builder.ics20AssetToWithdraw.isSome) :
    channel.isSome := by
  obtain ⟨asset, hasset⟩ := Option.isSome_iff_exists.mp hasset
  unfold GetWithdrawalActionsBuilder.ics20SourceChannel at h
  rw [hasset] at h
  obtain ⟨leading, -, h⟩ := Codec.bind_eq_ok.mp h
  obtain ⟨parsed, -, h⟩ := Codec.bind_eq_ok.mp h
  obtain rfl := Except.ok.inj h
  rfl

theorem tryBuild_eq_ok {fetcher : GetWithdrawalActions}
    (h : builder.tryBuild.run = .returns (.ok fetcher)) :
    ∃ address precision, Built builder fetcher address precision := by
  unfold GetWithdrawalActionsBuilder.tryBuild at h
  simp only [run_bind_eq_ok, run_lift, Outcome.returns.injEq, okOr_eq_ok] at h
  obtain ⟨address, haddress, bridgeAddress, hbridge, feeAsset, hfee, h⟩ := h
  split_ifs at h with hwithdraws
  · cases h
  · simp only [run_bind_eq_ok, run_lift, run_step_eq_ok, Outcome.returns.injEq, okOr_eq_ok,
      withContext_eq_ok, Except.ok.injEq] at h
    obtain ⟨channel, hchannel, precision, hprecision, exponent, hexponent, divisor, hdivisor, rfl⟩ := h
    obtain ⟨hle, hsub⟩ := checkedSub_eq_some.mp hexponent
    obtain rfl : builder.contractDecimals address - precision.toNat = exponent := by omega
    unfold powU128 at hdivisor
    split_ifs at hdivisor
    exact ⟨address, precision,
      { contractAddress := haddress
        bridgeAddress := Option.isSome_iff_exists.mpr ⟨_, hbridge⟩
        feeAsset := Option.isSome_iff_exists.mpr ⟨_, hfee⟩
        withdraws := hwithdraws
        channel := ⟨_, hchannel⟩
        read := hprecision
        le := hle
        divisor := (Outcome.returns.inj hdivisor).symm
        sequencerAsset := rfl
        ics20Asset := rfl
        sourceChannel := ics20SourceChannel_isSome hchannel }⟩

/-- A fetcher is built wherever the divisor is reached and does not overflow. -/
theorem ReachesDivisor.exists_built {address : H160} {precision : UInt32}
    (h : ReachesDivisor builder address precision)
    (hle : builder.contractDecimals address - precision.toNat ≤ 38) :
    ∃ fetcher, builder.tryBuild.run = .returns (.ok fetcher) := by
  obtain ⟨bridgeAddress, hbridge⟩ := Option.isSome_iff_exists.mp h.bridgeAddress
  obtain ⟨feeAsset, hfee⟩ := Option.isSome_iff_exists.mp h.feeAsset
  obtain ⟨channel, hchannel⟩ := h.channel
  obtain ⟨divisor, hdivisor⟩ := returns_powU128_ten.mpr hle
  refine ⟨
    { provider := builder.provider
      contractAddress := address
      assetWithdrawalDivisor := divisor
      bridgeAddress := bridgeAddress
      feeAsset := feeAsset
      sequencerAssetToWithdraw := builder.sequencerAssetToWithdraw
      ics20AssetToWithdraw := builder.ics20AssetToWithdraw
      ics20SourceChannel := channel
      useCompatAddress := builder.useCompatAddress }, ?_⟩
  unfold GetWithdrawalActionsBuilder.tryBuild
  simp only [run_bind_eq_ok, run_lift, Outcome.returns.injEq, okOr_eq_ok]
  refine ⟨address, h.contractAddress, bridgeAddress, hbridge, feeAsset, hfee, ?_⟩
  rw [if_neg h.withdraws]
  simp only [run_bind_eq_ok, run_lift, run_step_eq_ok, Outcome.returns.injEq, okOr_eq_ok,
    withContext_eq_ok, Except.ok.injEq]
  exact ⟨channel, hchannel, precision, h.read, _, if_pos h.le, divisor, hdivisor, rfl⟩

/-- A fetcher that converts events: an asset that is withdrawn by IBC has a channel. -/
structure GetWithdrawalActions.Ready (fetcher : GetWithdrawalActions) : Prop where
  divisor : fetcher.assetWithdrawalDivisor ≠ 0
  sourceChannel : fetcher.ics20AssetToWithdraw.isSome → fetcher.ics20SourceChannel.isSome

/-- Whether a builder is set up for an event. -/
def GetWithdrawalActionsBuilder.configuredFor (builder : GetWithdrawalActionsBuilder) :
    WithdrawalEvent → Bool
  | .ics20Withdrawal => builder.ics20AssetToWithdraw.isSome
  | .sequencerWithdrawal => builder.sequencerAssetToWithdraw.isSome

theorem Built.configuredFor {fetcher : GetWithdrawalActions} {address : H160}
    {precision : UInt32} (h : Built builder fetcher address precision)
    (event : WithdrawalEvent) : fetcher.configuredFor event = builder.configuredFor event := by
  cases event with
  | ics20Withdrawal => exact congrArg Option.isSome h.ics20Asset
  | sequencerWithdrawal => exact congrArg Option.isSome h.sequencerAsset

theorem Built.ready {fetcher : GetWithdrawalActions} {address : H160}
    {precision : UInt32} (h : Built builder fetcher address precision) :
    fetcher.Ready where
  divisor := by
    rw [h.divisor]
    exact pow_ne_zero _ (by decide)
  sourceChannel := h.sourceChannel

end

/-! ## When an event is converted -/

theorem Log.place_eq_ok {log : Log} {number : ℕ} {transactionHash : H256} {eventIndex : U256} :
    log.place = .ok (number, transactionHash, eventIndex) ↔ log.blockNumber = some number ∧
      log.transactionHash = some transactionHash ∧ log.logIndex = some eventIndex := by
  unfold Log.place
  simp only [Codec.bind_eq_ok, okOr_eq_ok, Except.ok.injEq, Prod.mk.injEq]
  constructor
  · rintro ⟨_, hnumber, _, hhash, _, hindex, rfl, rfl, rfl⟩
    exact ⟨hnumber, hhash, hindex⟩
  · rintro ⟨hnumber, hhash, hindex⟩
    exact ⟨_, hnumber, _, hhash, _, hindex, rfl, rfl, rfl⟩

theorem returns_asU128 {amount : U256} : (asU128 amount).Returns ↔ amount.toNat ≤ u128Max := by
  unfold asU128
  split_ifs with h <;> simp [h]

/-- The clock is between 1970 and 2554. -/
def TimeoutFits (now : ℤ) : Prop := 0 ≤ now + 300 * 10 ^ 9 ∧ now + 300 * 10 ^ 9 ≤ u64Max

theorem returns_timeoutIn5Min {now : ℤ} : (timeoutIn5Min now).Returns ↔ TimeoutFits now := by
  unfold timeoutIn5Min TimeoutFits
  dsimp only
  split_ifs with h
  · exact iff_of_true (Outcome.returns_returns _) h
  · exact iff_of_false Outcome.not_returns_panics h

theorem returns_calculateAmount {amount : U256} {divisor : ℕ} :
    (calculateAmount amount divisor).run.Returns ↔ amount.toNat ≤ u128Max := by
  unfold calculateAmount
  rw [returns_bind, returns_step, returns_asU128]
  refine and_iff_left_of_imp fun _ amount _ => ?_
  split_ifs <;> exact Outcome.returns_returns _

/-- The amount is the quotient, rounded down. -/
theorem calculateAmount_eq_ok {amount : U256} {divisor n : ℕ} :
    (calculateAmount amount divisor).run = .returns (.ok n) ↔
      amount.toNat ≤ u128Max ∧ divisor ≠ 0 ∧ n = amount.toNat / divisor := by
  unfold calculateAmount asU128
  rw [run_bind_eq_ok]
  simp only [run_step_eq_ok]
  constructor
  · rintro ⟨m, hm, h⟩
    split_ifs at hm with hmax
    obtain rfl := Outcome.returns.inj hm
    split_ifs at h with hzero
    · cases h
    · exact ⟨hmax, hzero, (Except.ok.inj (Outcome.returns.inj h)).symm⟩
  · rintro ⟨hmax, hzero, rfl⟩
    refine ⟨amount.toNat, if_pos hmax, ?_⟩
    rw [if_neg hzero]
    rfl

section

variable [eth : EthereumFormats] {fetcher : GetWithdrawalActions} {now : ℤ}

/-- The conversion of a log gets as far as the amount of its event. -/
def ReachesAmount (log : Log) (transactionHash : H256) (eventIndex amount : U256) :
    WithdrawalEvent → Prop
  | .ics20Withdrawal =>
    ∃ rollupBlockNumber event memo,
      log.place = .ok (rollupBlockNumber, transactionHash, eventIndex) ∧
      decodeLog .ics20Withdrawal eth.decodeIcs20Withdrawal log = .ok event ∧
      makeWithdrawalMemo event rollupBlockNumber transactionHash eventIndex = .ok memo ∧
      event.amount = amount
  | .sequencerWithdrawal =>
    ∃ rollupBlockNumber event,
      log.place = .ok (rollupBlockNumber, transactionHash, eventIndex) ∧
      decodeLog .sequencerWithdrawal eth.decodeSequencerWithdrawal log = .ok event ∧
      event.amount = amount

/-- The amount of an event fits; a withdrawal by IBC also looks at the clock. -/
def AmountFits (now : ℤ) (event : WithdrawalEvent) (log : Log) : Prop :=
  ∀ transactionHash eventIndex amount, ReachesAmount log transactionHash eventIndex amount event →
    amount.toNat ≤ u128Max ∧ (event = .ics20Withdrawal → TimeoutFits now)

theorem returns_logToIcs20WithdrawalAction (hdivisor : fetcher.assetWithdrawalDivisor ≠ 0)
    (hasset : fetcher.ics20AssetToWithdraw.isSome) (hchannel : fetcher.ics20SourceChannel.isSome)
    (log : Log) : (fetcher.logToIcs20WithdrawalAction log now).run.Returns ↔
      AmountFits now .ics20Withdrawal log := by
  obtain ⟨asset, hasset⟩ := Option.isSome_iff_exists.mp hasset
  obtain ⟨channel, hchannel⟩ := Option.isSome_iff_exists.mp hchannel
  unfold GetWithdrawalActions.logToIcs20WithdrawalAction AmountFits
  rw [hasset, hchannel]
  simp only [returns_bind, run_lift, run_step_eq_ok, returns_step, Outcome.returns_returns, true_and,
    Outcome.returns.injEq, Outcome.ofOption_some, returns_calculateAmount, returns_timeoutIn5Min,
    implies_true, and_true]
  constructor
  · rintro h hash index amount ⟨number, event, memo, hplace, hevent, hmemo, rfl⟩
    obtain ⟨hmax, htimeout⟩ := h (number, hash, index) hplace event hevent asset rfl channel rfl memo hmemo
    exact ⟨hmax, fun _ => htimeout _ (calculateAmount_eq_ok.mpr ⟨hmax, hdivisor, rfl⟩)⟩
  · rintro h ⟨number, hash, index⟩ hplace event hevent _ - _ - memo hmemo
    obtain ⟨hmax, htimeout⟩ := h hash index _ ⟨number, event, memo, hplace, hevent, hmemo, rfl⟩
    exact ⟨hmax, fun _ _ => htimeout trivial⟩

/-- The amount of the two actions that events are converted to. -/
def withdrawnAmount : Action → Option ℕ
  | .ics20Withdrawal act => some act.amount
  | .bridgeUnlock act => some act.amount
  | _ => none

/-- The id of an event, in the action it is converted to: a field, or a part of the memo. -/
def CarriesId (id : String) : Action → Prop
  | .ics20Withdrawal act => ∃ memo : Ics20WithdrawalFromRollup,
      memo.rollupWithdrawalEventId = id ∧ eth.serializeMemo memo = .ok act.memo
  | .bridgeUnlock act => act.rollupWithdrawalEventId = id
  | _ => False

/-- An action that a log is converted to. -/
structure ConvertedTo (fetcher : GetWithdrawalActions) (event : WithdrawalEvent) (log : Log)
    (transactionHash : H256) (eventIndex amount : U256) (action : Action) : Prop where
  hash : log.transactionHash = some transactionHash
  index : log.logIndex = some eventIndex
  reaches : ReachesAmount log transactionHash eventIndex amount event
  amount : withdrawnAmount action = some (amount.toNat / fetcher.assetWithdrawalDivisor)
  id : CarriesId (rollupWithdrawalEventId transactionHash eventIndex) action

theorem logToIcs20WithdrawalAction_eq_ok {log : Log} {action : Action}
    (h : (fetcher.logToIcs20WithdrawalAction log now).run = .returns (.ok action)) :
    ∃ transactionHash eventIndex amount,
      ConvertedTo fetcher .ics20Withdrawal log transactionHash eventIndex amount action := by
  unfold GetWithdrawalActions.logToIcs20WithdrawalAction at h
  simp only [run_bind_eq_ok, run_lift, run_step_eq_ok, Outcome.returns.injEq, Except.ok.injEq] at h
  obtain ⟨⟨number, hash, index⟩, hplace, event, hevent, asset, -, channel, -, memo, hmemo, amount,
    hamount, timeout, -, rfl⟩ := h
  obtain ⟨-, -, rfl⟩ := calculateAmount_eq_ok.mp hamount
  obtain ⟨-, hhash, hindex⟩ := Log.place_eq_ok.mp hplace
  exact ⟨hash, index, event.amount,
    { hash := hhash
      index := hindex
      reaches := ⟨number, event, memo, hplace, hevent, hmemo, rfl⟩
      amount := rfl
      id := ⟨_, rfl, withContext_eq_ok.mp hmemo⟩ }⟩

variable [ext : External]

theorem returns_logToSequencerWithdrawalAction (log : Log) :
    (fetcher.logToSequencerWithdrawalAction log).run.Returns ↔
      AmountFits now .sequencerWithdrawal log := by
  unfold GetWithdrawalActions.logToSequencerWithdrawalAction AmountFits
  simp only [returns_bind, run_lift, Outcome.returns_returns, true_and, Outcome.returns.injEq,
    returns_calculateAmount, implies_true, and_true]
  constructor
  · rintro h hash index amount ⟨number, event, hplace, hevent, rfl⟩
    refine ⟨h (number, hash, index) hplace event hevent, fun h' => ?_⟩
    cases h'
  · rintro h ⟨number, hash, index⟩ hplace event hevent
    exact (h hash index _ ⟨number, event, hplace, hevent, rfl⟩).1

theorem logToSequencerWithdrawalAction_eq_ok {log : Log} {action : Action}
    (h : (fetcher.logToSequencerWithdrawalAction log).run = .returns (.ok action)) :
    ∃ transactionHash eventIndex amount,
      ConvertedTo fetcher .sequencerWithdrawal log transactionHash eventIndex amount action := by
  unfold GetWithdrawalActions.logToSequencerWithdrawalAction at h
  simp only [run_bind_eq_ok, run_lift, Outcome.returns.injEq, Except.ok.injEq] at h
  obtain ⟨⟨number, hash, index⟩, hplace, event, hevent, amount, hamount, toAddress, -, rfl⟩ := h
  obtain ⟨-, -, rfl⟩ := calculateAmount_eq_ok.mp hamount
  obtain ⟨-, hhash, hindex⟩ := Log.place_eq_ok.mp hplace
  exact ⟨hash, index, event.amount,
    { hash := hhash
      index := hindex
      reaches := ⟨number, event, hplace, hevent, rfl⟩
      amount := rfl
      id := rfl }⟩

/-- An event that is configured is converted without a panic exactly if its amount fits. -/
theorem returns_logToAction (hready : fetcher.Ready) {event : WithdrawalEvent}
    (hconfigured : fetcher.configuredFor event) (log : Log) :
    (fetcher.logToAction now event log).run.Returns ↔ AmountFits now event log := by
  cases event with
  | ics20Withdrawal =>
    exact returns_logToIcs20WithdrawalAction hready.divisor hconfigured
      (hready.sourceChannel hconfigured) log
  | sequencerWithdrawal => exact returns_logToSequencerWithdrawalAction log

theorem logToAction_eq_ok {event : WithdrawalEvent} {log : Log} {action : Action}
    (h : (fetcher.logToAction now event log).run = .returns (.ok action)) :
    ∃ transactionHash eventIndex amount,
      ConvertedTo fetcher event log transactionHash eventIndex amount action := by
  cases event with
  | ics20Withdrawal => exact logToIcs20WithdrawalAction_eq_ok h
  | sequencerWithdrawal => exact logToSequencerWithdrawalAction_eq_ok h

end

/-! ## The ids of events -/

theorem encodeHex_inj {a b : Bytes} (h : encodeHex a = encodeHex b) : a = b := by
  have hchars : "0x".toList ++ a.flatMap Denom.hexByte = "0x".toList ++ b.flatMap Denom.hexByte := by
    have := congrArg String.toList h
    simpa only [encodeHex, String.toList_append, String.toList_ofList] using this
  have hhex := List.append_cancel_left hchars
  have hparse := congrArg parseHex hhex
  rw [parseHex_hexByte, parseHex_hexByte] at hparse
  exact Option.some.inj hparse

theorem length_encodeHex (bytes : Bytes) : (encodeHex bytes).toList.length = 2 + 2 * bytes.length := by
  have hhex : (bytes.flatMap Denom.hexByte).length = 2 * bytes.length := by
    induction bytes with
    | nil => rfl
    | cons b bytes ih =>
      rw [List.flatMap_cons, List.length_append, ih, List.length_cons, Denom.hexByte]
      simp only [List.length_cons, List.length_nil]
      omega
  have htext : (String.ofList (bytes.flatMap Denom.hexByte)).toList.length = 2 * bytes.length := by
    rw [String.toList_ofList, hhex]
  rw [encodeHex, String.toList_append, List.length_append, htext]
  rfl

/-- Events of different transactions, or with different indices, have different ids. -/
theorem rollupWithdrawalEventId_inj {hash hash' : H256} {index index' : U256}
    (h : rollupWithdrawalEventId hash index = rollupWithdrawalEventId hash' index') :
    hash = hash' ∧ index = index' := by
  have hchars := congrArg String.toList h
  simp only [rollupWithdrawalEventId, String.toList_append, List.append_assoc] at hchars
  have hlength : (encodeHex hash.toList).toList.length = (encodeHex hash'.toList).toList.length := by
    rw [length_encodeHex, length_encodeHex, List.Vector.toList_length, List.Vector.toList_length]
  obtain ⟨hhash, hrest⟩ := List.append_inj hchars hlength
  have hindex := List.append_cancel_left hrest
  refine ⟨List.Vector.toList_injective (encodeHex_inj (String.toList_injective hhash)), ?_⟩
  have hbytes := encodeHex_inj (String.toList_injective hindex)
  have hlt (n : U256) : n.toNat < 256 ^ 32 := n.isLt
  exact BitVec.eq_of_toNat_eq (Sha256.bigEndian_inj (hlt _) (hlt _) hbytes)

/-! ## Exact conversion -/

section

variable [ext : External] [wire : WireFormats] [eth : EthereumFormats]

/-- Building the fetcher and converting a log of an event that it is configured for neither panic nor
overflow: each ends with an error, or the action has the amount of the event divided by the power of
ten that the contract asks for, rounded down, and the id of the log. -/
def ConvertsExactly (builder : GetWithdrawalActionsBuilder) (now : ℤ) (event : WithdrawalEvent)
    (log : Log) : Prop :=
  ∃ built, builder.tryBuild.run = .returns built ∧
    ∀ fetcher, built = .ok fetcher → fetcher.configuredFor event →
      ∃ converted, (fetcher.logToAction now event log).run = .returns converted ∧
        ∀ action, converted = .ok action →
          ∃ address precision transactionHash eventIndex amount,
            builder.contractAddress = some address ∧
            builder.provider.baseChainAssetPrecision address = .ok precision ∧
            precision.toNat ≤ builder.contractDecimals address ∧
            log.transactionHash = some transactionHash ∧ log.logIndex = some eventIndex ∧
            ReachesAmount log transactionHash eventIndex amount event ∧
            withdrawnAmount action = some (amount.toNat /
              10 ^ (builder.contractDecimals address - precision.toNat)) ∧
            CarriesId (rollupWithdrawalEventId transactionHash eventIndex) action

/-- Where building gets as far as the divisor, the exponent is at most 38, and the amount of an event
fits. -/
def InRange (builder : GetWithdrawalActionsBuilder) (now : ℤ) (event : WithdrawalEvent) (log : Log) :
    Prop :=
  ∀ address precision, ReachesDivisor builder address precision →
    builder.contractDecimals address - precision.toNat ≤ 38 ∧
      (builder.configuredFor event → AmountFits now event log)

/-- The range is enough, and it is needed. -/
theorem convertsExactly_of_inRange {builder : GetWithdrawalActionsBuilder} {now : ℤ}
    {event : WithdrawalEvent} {log : Log} (h : InRange builder now event log) :
    ConvertsExactly builder now event log := by
  obtain ⟨built, hbuilt⟩ :=
    returns_tryBuild.mpr fun address precision hreach => (h address precision hreach).1
  refine ⟨built, hbuilt, ?_⟩
  rintro fetcher rfl hconfigured
  obtain ⟨address, precision, hb⟩ := tryBuild_eq_ok hbuilt
  rw [hb.configuredFor] at hconfigured
  have hfits := (h address precision hb.toReachesDivisor).2 hconfigured
  rw [← hb.configuredFor] at hconfigured
  obtain ⟨converted, hconverted⟩ := (returns_logToAction hb.ready hconfigured log).mpr hfits
  refine ⟨converted, hconverted, ?_⟩
  rintro action rfl
  obtain ⟨hash, index, amount, hto⟩ := logToAction_eq_ok hconverted
  refine ⟨address, precision, hash, index, amount, hb.contractAddress, hb.read, hb.le, hto.hash,
    hto.index, hto.reaches, ?_, hto.id⟩
  rw [← hb.divisor]
  exact hto.amount

theorem inRange_of_convertsExactly {builder : GetWithdrawalActionsBuilder} {now : ℤ}
    {event : WithdrawalEvent} {log : Log} (h : ConvertsExactly builder now event log) :
    InRange builder now event log := by
  obtain ⟨built, hbuilt, hconverts⟩ := h
  intro address precision hreach
  have hexponent := returns_tryBuild.mp ⟨built, hbuilt⟩ address precision hreach
  refine ⟨hexponent, fun hconfigured => ?_⟩
  obtain ⟨fetcher, hfetcher⟩ := hreach.exists_built hexponent
  obtain rfl := Outcome.returns.inj (hbuilt.symm.trans hfetcher)
  obtain ⟨address', precision', hb⟩ := tryBuild_eq_ok hfetcher
  rw [← hb.configuredFor] at hconfigured
  obtain ⟨converted, hconverted, -⟩ := hconverts fetcher rfl hconfigured
  exact (returns_logToAction hb.ready hconfigured log).mp ⟨converted, hconverted⟩

/-- Withdrawals are converted exactly precisely if nothing leaves its range: the difference of the
decimals and the precision is at most 38, and the amount of an event, whose type has 256 bits, fits in
128.  Different logs always have different ids. -/
theorem convertsExactly_iff :
    (∀ builder now event log, ConvertsExactly builder now event log ↔ InRange builder now event log) ∧
      ∀ (hash hash' : H256) (index index' : U256),
        rollupWithdrawalEventId hash index = rollupWithdrawalEventId hash' index' ↔
          hash = hash' ∧ index = index' := by
  constructor
  · intro builder now event log
    exact ⟨inRange_of_convertsExactly, convertsExactly_of_inRange⟩
  · intro hash hash' index index'
    refine ⟨rollupWithdrawalEventId_inj, ?_⟩
    rintro ⟨rfl, rfl⟩
    rfl

end

/-! ### Contracts that panic -/

section

open scoped Astria.Sequencer.TestUtils

/-- The text that the data of a log encodes: its offset, its length and its bytes. -/
def decodeText (data : Bytes) : String :=
  let length := ((data.drop 32).take 32).foldl (fun n b => n * 256 + b.toNat) 0
  String.ofList (((data.drop 64).take length).map fun b => Char.ofNat b.toNat)

/-- A number in a topic of a log. -/
def decodeNumber (topic : H256) : U256 :=
  BitVec.ofNat 256 (topic.toList.foldl (fun n b => n * 256 + b.toNat) 0)

/-- The decoder of the events that withdraw to the sequencer; no log here withdraws by IBC. -/
scoped instance : EthereumFormats where
  decodeIcs20Withdrawal _ := .error ["missing data"]
  decodeSequencerWithdrawal log :=
    match log.topics with
    | [_, sender, amount] => .ok
      { sender := ⟨sender.toList.drop 12, by simp⟩
        amount := decodeNumber amount
        destinationChainAddress := decodeText log.data }
    | _ => .error ["wrong number of topics"]
  serializeMemo _ := .error ["unexpected memo"]

/-- No channel has to be parsed where only the sequencer's asset is withdrawn. -/
scoped instance : WireFormats where
  validVerificationKey _ := false
  parseChannelId _ := none
  parseClientId _ := none
  ibcRelayTryFrom _ := .error ["`raw_action` field was not set"]
  ibcRelayInto _ := []

/-- A builder for a contract with these decimals and this precision. -/
def testBuilder (decimals : UInt8) (precision : UInt32) : GetWithdrawalActionsBuilder :=
  { provider :=
      { baseChainAssetPrecision := fun _ => .ok precision
        decimals := fun _ => .ok decimals
        getLogs := fun _ _ _ => .ok [] }
    contractAddress := some (List.Vector.replicate 20 1)
    bridgeAddress := some { bytes := List.Vector.replicate 20 2, hrp := "astria" }
    feeAsset := some (.tracePrefixed { trace := [], baseDenom := "nria" })
    sequencerAssetToWithdraw := some (.tracePrefixed { trace := [], baseDenom := "nria" })
    ics20AssetToWithdraw := none
    useCompatAddress := false }

/-- The log of a withdrawal to the sequencer. -/
def testLog (amount : H256) : Log :=
  { topics := [List.Vector.replicate 32 3, List.Vector.replicate 32 4, amount]
    data := []
    blockNumber := some 1
    transactionHash := some (List.Vector.replicate 32 5)
    logIndex := some 0 }

/-- The topic of `2 ^ 128`. -/
def twoPow128 : H256 := ⟨List.replicate 15 0 ++ 1 :: List.replicate 16 0, rfl⟩

theorem reachesDivisor_testBuilder {decimals : UInt8} {precision : UInt32}
    (h : precision.toNat ≤ decimals.toNat) :
    ReachesDivisor (testBuilder decimals precision) (List.Vector.replicate 20 1) precision where
  contractAddress := rfl
  bridgeAddress := rfl
  feeAsset := rfl
  withdraws := by
    rintro ⟨h, -⟩
    cases h
  channel := ⟨none, rfl⟩
  read := rfl
  le := h

/-- A contract with 57 decimals and a precision of 18 overflows the divisor; an amount of `2 ^ 128`
panics. -/
theorem not_convertsExactly :
    ¬ConvertsExactly (testBuilder 57 18) 0 .sequencerWithdrawal (testLog (List.Vector.replicate 32 0)) ∧
      ¬ConvertsExactly (testBuilder 18 9) 0 .sequencerWithdrawal (testLog twoPow128) := by
  constructor
  · intro h
    have hexponent := (inRange_of_convertsExactly h _ _ (reachesDivisor_testBuilder (by decide))).1
    exact absurd hexponent (by decide)
  · intro h
    have hfits := (inRange_of_convertsExactly h _ _ (reachesDivisor_testBuilder (by decide))).2 rfl
    have hreach : ReachesAmount (testLog twoPow128) (List.Vector.replicate 32 5) 0
        (decodeNumber twoPow128) .sequencerWithdrawal := ⟨1, _, rfl, rfl, rfl⟩
    exact absurd (hfits _ _ _ hreach).1 (by decide +kernel)

end

end Astria.BridgeWithdrawer
