import Astria.Core.Denom
import Astria.Core.BlockConversions
import Astria.Lib.Codec

/-!
# The messages of a transaction

The protobuf messages of the actions, of a transaction and of its body
(`generated/astria.protocol.transaction.v1.rs`, `generated/astria.protocol.fees.v1.rs`), as records of
their fields, and the conversions that several actions share (`primitive/v1/mod.rs`,
`primitive/v1/u128.rs`, `lib.rs`).

Results:
* `RawUint128.toU128_ofU128`: a 128-bit number is read off its halves;
* `Address.lawful`, `stable_parseDenom`: addresses and denominations are read back from their texts.
-/

namespace Astria.Core

open Astria.Lib
open Astria.Sequencer (External)

/-! ## Numbers and names -/

/-- `Uint128`: the halves of a number. -/
structure RawUint128 where
  lo : UInt64
  hi : UInt64
  deriving DecidableEq

/-- `Address`. -/
structure RawAddress where
  bech32m : String
  deriving DecidableEq

/-- `CurrencyPair`. -/
structure RawCurrencyPair where
  base : String
  quote : String
  deriving DecidableEq

/-! ## Actions -/

/-- `Transfer`. -/
structure RawTransfer where
  toAddress : Option RawAddress
  amount : Option RawUint128
  asset : String
  feeAsset : String
  deriving DecidableEq

/-- `RollupDataSubmission`. -/
structure RawRollupDataSubmission where
  rollupId : Option Bytes
  data : Bytes
  feeAsset : String
  deriving DecidableEq

/-- `SudoAddressChange`. -/
structure RawSudoAddressChange where
  newAddress : Option RawAddress
  deriving DecidableEq

/-- `IbcSudoChange`. -/
structure RawIbcSudoChange where
  newAddress : Option RawAddress
  deriving DecidableEq

/-- `IbcHeight`. -/
structure RawIbcHeight where
  revisionNumber : ℕ
  revisionHeight : ℕ
  deriving DecidableEq

/-- `Ics20Withdrawal`. -/
structure RawIcs20Withdrawal where
  amount : Option RawUint128
  denom : String
  destinationChainAddress : String
  returnAddress : Option RawAddress
  timeoutHeight : Option RawIbcHeight
  timeoutTime : ℕ
  sourceChannel : String
  feeAsset : String
  memo : String
  bridgeAddress : Option RawAddress
  useCompatAddress : Bool
  deriving DecidableEq

/-- `ibc_relayer_change::Value`. -/
inductive RawIbcRelayerChange where
  | addition (address : RawAddress)
  | removal (address : RawAddress)
  deriving DecidableEq

/-- `fee_asset_change::Value`. -/
inductive RawFeeAssetChange where
  | addition (asset : String)
  | removal (asset : String)
  deriving DecidableEq

/-- `InitBridgeAccount`. -/
structure RawInitBridgeAccount where
  rollupId : Option Bytes
  asset : String
  feeAsset : String
  sudoAddress : Option RawAddress
  withdrawerAddress : Option RawAddress
  deriving DecidableEq

/-- `BridgeLock`. -/
structure RawBridgeLock where
  toAddress : Option RawAddress
  amount : Option RawUint128
  asset : String
  feeAsset : String
  destinationChainAddress : String
  deriving DecidableEq

/-- `BridgeUnlock`. -/
structure RawBridgeUnlock where
  toAddress : Option RawAddress
  amount : Option RawUint128
  feeAsset : String
  memo : String
  bridgeAddress : Option RawAddress
  rollupBlockNumber : ℕ
  rollupWithdrawalEventId : String
  deriving DecidableEq

/-- `BridgeSudoChange`. -/
structure RawBridgeSudoChange where
  bridgeAddress : Option RawAddress
  newSudoAddress : Option RawAddress
  newWithdrawerAddress : Option RawAddress
  feeAsset : String
  deriving DecidableEq

/-- `BridgeTransfer`. -/
structure RawBridgeTransfer where
  toAddress : Option RawAddress
  amount : Option RawUint128
  feeAsset : String
  destinationChainAddress : String
  bridgeAddress : Option RawAddress
  rollupBlockNumber : ℕ
  rollupWithdrawalEventId : String
  deriving DecidableEq

/-- `tendermint::crypto::PublicKey`, whose `oneof` may be unset. -/
inductive RawPublicKey where
  | unset
  | ed25519 (bytes : Bytes)
  | secp256k1 (bytes : Bytes)
  deriving DecidableEq

/-- `ValidatorUpdate`. -/
structure RawValidatorUpdate where
  pubKey : Option RawPublicKey
  power : ℤ
  name : String
  deriving DecidableEq

/-- The messages of the fee components, which differ in their names only. -/
structure RawFeeComponents where
  base : Option RawUint128
  multiplier : Option RawUint128
  deriving DecidableEq

/-- `fee_change::FeeComponents`. -/
inductive RawFeeChange where
  | bridgeLock (fees : RawFeeComponents)
  | bridgeSudoChange (fees : RawFeeComponents)
  | bridgeUnlock (fees : RawFeeComponents)
  | feeAssetChange (fees : RawFeeComponents)
  | feeChange (fees : RawFeeComponents)
  | ibcRelay (fees : RawFeeComponents)
  | ibcRelayerChange (fees : RawFeeComponents)
  | ibcSudoChange (fees : RawFeeComponents)
  | ics20Withdrawal (fees : RawFeeComponents)
  | initBridgeAccount (fees : RawFeeComponents)
  | rollupDataSubmission (fees : RawFeeComponents)
  | sudoAddressChange (fees : RawFeeComponents)
  | transfer (fees : RawFeeComponents)
  | validatorUpdate (fees : RawFeeComponents)
  | bridgeTransfer (fees : RawFeeComponents)
  | recoverIbcClient (fees : RawFeeComponents)
  | currencyPairsChange (fees : RawFeeComponents)
  | marketsChange (fees : RawFeeComponents)
  deriving DecidableEq

/-- `RecoverIbcClient`. -/
structure RawRecoverIbcClient where
  clientId : String
  replacementClientId : String
  deriving DecidableEq

/-- `currency_pairs_change::Value`. -/
inductive RawCurrencyPairsChange where
  | addition (pairs : List RawCurrencyPair)
  | removal (pairs : List RawCurrencyPair)
  deriving DecidableEq

/-- `Ticker`. -/
structure RawTicker where
  currencyPair : Option RawCurrencyPair
  decimals : ℕ
  minProviderCount : ℕ
  enabled : Bool
  metadataJson : String
  deriving DecidableEq

/-- `ProviderConfig`. -/
structure RawProviderConfig where
  name : String
  offChainTicker : String
  normalizeByPair : Option RawCurrencyPair
  invert : Bool
  metadataJson : String
  deriving DecidableEq

/-- `Market`. -/
structure RawMarket where
  ticker : Option RawTicker
  providerConfigs : List RawProviderConfig
  deriving DecidableEq

/-- `markets_change::Action`. -/
inductive RawMarketsChange where
  | creation (markets : List RawMarket)
  | removal (markets : List RawMarket)
  | update (markets : List RawMarket)
  deriving DecidableEq

/-- `action::Value`.  A message that holds nothing but a `oneof` is that `oneof`, which may be unset; a
relayed IBC message is the message of another crate, of which the bytes are kept. -/
inductive RawValue where
  | transfer (act : RawTransfer)
  | rollupDataSubmission (act : RawRollupDataSubmission)
  | initBridgeAccount (act : RawInitBridgeAccount)
  | bridgeLock (act : RawBridgeLock)
  | bridgeUnlock (act : RawBridgeUnlock)
  | bridgeSudoChange (act : RawBridgeSudoChange)
  | bridgeTransfer (act : RawBridgeTransfer)
  | ibc (act : Bytes)
  | ics20Withdrawal (act : RawIcs20Withdrawal)
  | sudoAddressChange (act : RawSudoAddressChange)
  | validatorUpdate (act : RawValidatorUpdate)
  | ibcRelayerChange (act : Option RawIbcRelayerChange)
  | feeAssetChange (act : Option RawFeeAssetChange)
  | feeChange (act : Option RawFeeChange)
  | ibcSudoChange (act : RawIbcSudoChange)
  | recoverIbcClient (act : RawRecoverIbcClient)
  | currencyPairsChange (act : Option RawCurrencyPairsChange)
  | marketsChange (act : Option RawMarketsChange)
  deriving DecidableEq

/-- `Action`. -/
structure RawAction where
  value : Option RawValue
  deriving DecidableEq

/-! ## Transactions -/

/-- `TransactionParams`. -/
structure RawTransactionParams where
  nonce : ℕ
  chainId : String
  deriving DecidableEq

/-- `TransactionBody`. -/
structure RawTransactionBody where
  params : Option RawTransactionParams
  actions : List RawAction
  deriving DecidableEq

/-- `google.protobuf.Any`. -/
structure RawAny where
  typeUrl : String
  value : Bytes
  deriving DecidableEq

/-- `Transaction`. -/
structure RawTransaction where
  signature : Bytes
  publicKey : Bytes
  body : Option RawAny
  deriving DecidableEq

/-! ## The trait -/

/-- The four conversions of the trait `Protobuf`, two of which have a default. -/
structure Protobuf (R α : Type) where
  tryFromRawRef : R → Except Report α
  tryFromRaw : R → Except Report α := tryFromRawRef
  toRaw : α → R
  intoRaw : α → R := toRaw

/-- The conversions agree with each other, and a value that was read is read back. -/
structure Protobuf.Lawful {R α : Type} (p : Protobuf R α) : Prop where
  ref_eq : ∀ raw, p.tryFromRawRef raw = p.tryFromRaw raw
  toRaw_eq : ∀ a, p.toRaw a = p.intoRaw a
  stable : Codec.Stable p.tryFromRaw p.intoRaw

/-! ## Shared conversions -/

/-- The text of the errors about a field that is not set. -/
def fieldNotSet (field : String) : Report :=
  ["the expected field in the raw source type was not set: `" ++ field ++ "`"]

def RawUint128.ofU128 (n : ℕ) : RawUint128 :=
  { lo := UInt64.ofNat n, hi := UInt64.ofNat (n / 2 ^ 64) }

def RawUint128.toU128 (raw : RawUint128) : ℕ := raw.hi.toNat * 2 ^ 64 + raw.lo.toNat

@[simp] theorem RawUint128.toU128_ofU128 (raw : RawUint128) :
    (RawUint128.ofU128 raw.toU128).toU128 = raw.toU128 := by
  have hlo := raw.lo.toNat_lt
  have hhi := raw.hi.toNat_lt
  unfold ofU128 toU128
  dsimp only
  rw [UInt64.toNat_ofNat', UInt64.toNat_ofNat']
  omega

/-- A 128-bit number that has to be set. -/
def requiredU128 (unset : Report) : Option RawUint128 → Except Report ℕ :=
  Codec.required unset fun raw => .ok raw.toU128

theorem stable_requiredU128 (unset : Report) :
    Codec.Stable (requiredU128 unset) fun n => some (RawUint128.ofU128 n) := by
  refine Codec.Stable.required ?_
  intro raw n h
  obtain rfl := Except.ok.inj h
  exact congrArg Except.ok raw.toU128_ofU128

/-- A format whose errors are put into a context. -/
theorem stable_withContext {R α : Type} (context : String) {decode : R → Except Report α}
    {encode : α → R} (h : Codec.Stable decode encode) :
    Codec.Stable (fun raw => withContext context (decode raw)) encode :=
  fun _ _ hread => withContext_eq_ok.mpr (h (withContext_eq_ok.mp hread))

/-- The parser of a denomination, under the text of the error about its field. -/
def parseDenom (context : String) (s : String) : Except Report Denom :=
  okOr (Denom.parse s) [context]

theorem stable_parseDenom (context : String) : Codec.Stable (parseDenom context) Denom.toString :=
  fun _ _ h => okOr_eq_ok.mpr (Denom.parse_toString (okOr_eq_ok.mp h))

theorem stable_rollupId :
    Codec.Stable RollupId.tryFromRaw fun id => id.inner.toList := by
  intro bytes id _
  show RollupId.tryFromRaw id.inner.toList = .ok id
  rw [RollupId.tryFromRaw, Sequencer.toBytes32_toList]

section

variable [ext : External]

/-- `Address`. -/
def Address.protobuf : Protobuf RawAddress Address where
  tryFromRawRef raw := okOr (ext.parseBech32m raw.bech32m) ["failed decoding provided string"]
  toRaw address := { bech32m := ext.displayAddress address }

/-- An address that was parsed is parsed from its text again. -/
def Bech32mReads : Prop :=
  ∀ s address, ext.parseBech32m s = some address →
    ext.parseBech32m (ext.displayAddress address) = some address

theorem Address.lawful (h : Bech32mReads) : Address.protobuf.Lawful where
  ref_eq _ := rfl
  toRaw_eq _ := rfl
  stable _ _ hread := okOr_eq_ok.mpr (h _ _ (okOr_eq_ok.mp hread))

/-- An address in a context, which has to be set. -/
def requiredAddress (unset : Report) (context : String) : Option RawAddress → Except Report Address :=
  Codec.required unset fun raw => withContext context (Address.protobuf.tryFromRaw raw)

/-- An address in a context, which may be set. -/
def optionalAddress (context : String) (raw : Option RawAddress) : Except Report (Option Address) :=
  withContext context (Codec.transpose Address.protobuf.tryFromRaw raw)

theorem requiredAddress_of_parse {s : String} {address : Address}
    (h : ext.parseBech32m s = some address) (unset : Report) (context : String) :
    requiredAddress unset context (some { bech32m := s }) = .ok address :=
  withContext_eq_ok.mpr (okOr_eq_ok.mpr h)

theorem stable_requiredAddress (h : Bech32mReads) (unset : Report) (context : String) :
    Codec.Stable (requiredAddress unset context) fun a => some (Address.protobuf.intoRaw a) :=
  (stable_withContext context (Address.lawful h).stable).required

theorem stable_optionalAddress (h : Bech32mReads) (context : String) :
    Codec.Stable (optionalAddress context) (Option.map Address.protobuf.intoRaw) :=
  stable_withContext context (Address.lawful h).stable.transpose

end

end Astria.Core
