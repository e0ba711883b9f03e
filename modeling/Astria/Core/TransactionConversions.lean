import Astria.Core.ActionConversions

/-!
# Transactions and their messages

The conversions of the sudo actions with lists and fee components, of an action as such, of the body of
a transaction and of a signed transaction (`protocol/transaction/v1/action/mod.rs`,
`protocol/transaction/v1/mod.rs`, `protocol/fees/v1.rs`, `oracles/price_feed/types.rs`,
`oracles/price_feed/market_map.rs`).

Results:
* `FeeChange.lawful`: the conversions of the eighteen fee components agree with each other, and what
  was read is read back;
* `Action.lawful`, `TransactionBody.lawful`: so do those of an action and of a body;
* `actions_roundTrip`: and a body that is signed and sent is decoded to itself.
-/

namespace Astria.Core

open Astria.Lib
open Astria.Sequencer (External)

section

variable [ext : External] [wire : WireFormats]

/-! ## Fees -/

namespace FeeComponents

/-- The conversions of the fee components of a kind of action. -/
def protobuf (kind : ActionKind) : Protobuf RawFeeComponents FeeComponents where
  tryFromRawRef raw := do
    let missingField (field : String) : Report :=
      ["failed validating on-wire type `astria.protocol.fees.v1." ++ kind.name ++
          "FeeComponents` as domain type",
        "field `" ++ field ++ "` was not set"]
    let base ← requiredU128 (missingField "base") raw.base
    let multiplier ← requiredU128 (missingField "multiplier") raw.multiplier
    .ok { base := base, multiplier := multiplier }
  toRaw fees :=
    { base := some (.ofU128 fees.base), multiplier := some (.ofU128 fees.multiplier) }

omit ext wire in
theorem lawful (kind : ActionKind) : (protobuf kind).Lawful where
  ref_eq _ := rfl
  toRaw_eq _ := rfl
  stable := by
    intro raw fees h
    obtain ⟨base, hbase, h⟩ := Codec.bind_eq_ok.mp h
    obtain ⟨multiplier, hmultiplier, h⟩ := Codec.bind_eq_ok.mp h
    obtain rfl := Except.ok.inj h
    refine Codec.bind_eq_ok.mpr ⟨base, stable_requiredU128 _ hbase, ?_⟩
    exact Codec.bind_eq_ok.mpr ⟨multiplier, stable_requiredU128 _ hmultiplier, rfl⟩

end FeeComponents

namespace FeeChange

/-- One arm of `try_from_raw_ref`. -/
def readFees (kind : ActionKind) (raw : RawFeeComponents) : Except Report FeeChange := do
  let fees ← withContext
    "failed to validate on-wire type `astria.protocol.transaction.v1.FeeChange`"
    ((FeeComponents.protobuf kind).tryFromRawRef raw)
  .ok { kind := kind, fees := fees }

def protobuf : Protobuf (Option RawFeeChange) FeeChange where
  tryFromRawRef
    | some (.transfer fees) => readFees .transfer fees
    | some (.rollupDataSubmission fees) => readFees .rollupDataSubmission fees
    | some (.ics20Withdrawal fees) => readFees .ics20Withdrawal fees
    | some (.initBridgeAccount fees) => readFees .initBridgeAccount fees
    | some (.bridgeLock fees) => readFees .bridgeLock fees
    | some (.bridgeUnlock fees) => readFees .bridgeUnlock fees
    | some (.bridgeSudoChange fees) => readFees .bridgeSudoChange fees
    | some (.ibcRelay fees) => readFees .ibcRelay fees
    | some (.validatorUpdate fees) => readFees .validatorUpdate fees
    | some (.feeAssetChange fees) => readFees .feeAssetChange fees
    | some (.feeChange fees) => readFees .feeChange fees
    | some (.ibcRelayerChange fees) => readFees .ibcRelayerChange fees
    | some (.sudoAddressChange fees) => readFees .sudoAddressChange fees
    | some (.ibcSudoChange fees) => readFees .ibcSudoChange fees
    | some (.bridgeTransfer fees) => readFees .bridgeTransfer fees
    | some (.recoverIbcClient fees) => readFees .recoverIbcClient fees
    | some (.currencyPairsChange fees) => readFees .currencyPairsChange fees
    | some (.marketsChange fees) => readFees .marketsChange fees
    | none => .error ["field `fee_components` was not set"]
  toRaw act :=
    let fees := (FeeComponents.protobuf act.kind).toRaw act.fees
    some <| match act.kind with
      | .transfer => .transfer fees
      | .rollupDataSubmission => .rollupDataSubmission fees
      | .ics20Withdrawal => .ics20Withdrawal fees
      | .initBridgeAccount => .initBridgeAccount fees
      | .bridgeLock => .bridgeLock fees
      | .bridgeUnlock => .bridgeUnlock fees
      | .bridgeSudoChange => .bridgeSudoChange fees
      | .ibcRelay => .ibcRelay fees
      | .validatorUpdate => .validatorUpdate fees
      | .feeAssetChange => .feeAssetChange fees
      | .feeChange => .feeChange fees
      | .ibcRelayerChange => .ibcRelayerChange fees
      | .sudoAddressChange => .sudoAddressChange fees
      | .ibcSudoChange => .ibcSudoChange fees
      | .bridgeTransfer => .bridgeTransfer fees
      | .recoverIbcClient => .recoverIbcClient fees
      | .currencyPairsChange => .currencyPairsChange fees
      | .marketsChange => .marketsChange fees

omit ext wire in
theorem stable_readFees {kind : ActionKind} {raw : RawFeeComponents} {act : FeeChange}
    (h : readFees kind raw = .ok act) :
    act.kind = kind ∧ readFees kind ((FeeComponents.protobuf kind).toRaw act.fees) = .ok act := by
  obtain ⟨fees, hfees, h⟩ := Codec.bind_eq_ok.mp h
  obtain rfl := Except.ok.inj h
  have hread := stable_withContext _ (FeeComponents.lawful kind).stable hfees
  exact ⟨rfl, Codec.bind_eq_ok.mpr ⟨fees, hread, rfl⟩⟩

omit ext wire in
/-- Every component is read under the kind under which it is written. -/
theorem tryFromRaw_toRaw (act : FeeChange) :
    protobuf.tryFromRaw (protobuf.toRaw act) =
      readFees act.kind ((FeeComponents.protobuf act.kind).toRaw act.fees) := by
  obtain ⟨kind, fees⟩ := act
  cases kind <;> rfl

omit ext wire in
theorem exists_readFees {raw : Option RawFeeChange} {act : FeeChange}
    (h : protobuf.tryFromRaw raw = .ok act) : ∃ kind fees, readFees kind fees = .ok act := by
  cases raw with
  | none => cases h
  | some raw => cases raw <;> exact ⟨_, _, h⟩

omit ext wire in
theorem lawful : protobuf.Lawful where
  ref_eq _ := rfl
  toRaw_eq _ := rfl
  stable := by
    intro raw act h
    obtain ⟨kind, fees, h⟩ := exists_readFees h
    obtain ⟨rfl, hread⟩ := stable_readFees h
    show protobuf.tryFromRaw (protobuf.toRaw act) = .ok act
    rw [tryFromRaw_toRaw, hread]

end FeeChange

/-! ## IBC clients -/

namespace RecoverIbcClient

/-- The parser of an identifier. -/
def parseClientId (context s : String) : Except Report String :=
  okOr (wire.parseClientId s) [context]

def tryFromRaw (raw : RawRecoverIbcClient) : Except Report RecoverIbcClient := do
  let clientId ← parseClientId "the `client_id` field was invalid" raw.clientId
  let replacementClientId ← parseClientId "the `replacement_client_id` field was invalid"
    raw.replacementClientId
  .ok { clientId := clientId, replacementClientId := replacementClientId }

def protobuf : Protobuf RawRecoverIbcClient RecoverIbcClient where
  tryFromRaw := tryFromRaw
  tryFromRawRef := tryFromRaw
  intoRaw act := { clientId := act.clientId, replacementClientId := act.replacementClientId }
  toRaw act := { clientId := act.clientId, replacementClientId := act.replacementClientId }

theorem lawful (reads : FormatsRead) : protobuf.Lawful where
  ref_eq _ := rfl
  toRaw_eq _ := rfl
  stable := by
    intro raw act h
    obtain ⟨clientId, hclient, h⟩ := Codec.bind_eq_ok.mp h
    obtain ⟨replacement, hreplacement, h⟩ := Codec.bind_eq_ok.mp h
    obtain rfl := Except.ok.inj h
    have hread (context : String) {s id : String} (hid : parseClientId context s = .ok id) :
        parseClientId context id = .ok id :=
      okOr_eq_ok.mpr (reads.clientId s id (okOr_eq_ok.mp hid))
    refine Codec.bind_eq_ok.mpr ⟨clientId, hread _ hclient, ?_⟩
    exact Codec.bind_eq_ok.mpr ⟨replacement, hread _ hreplacement, rfl⟩

end RecoverIbcClient

end

/-! ## Currency pairs and markets -/

namespace CurrencyPair

/-- `try_from_raw`, with the errors about the two sides. -/
def tryFromRawPair (raw : RawCurrencyPair) : Except Report CurrencyPair :=
  let invalid (field input : String) : Except Report CurrencyPair :=
    .error ["invalid field `." ++ field ++ "`",
      "failed to parse input `" ++ input ++ "` as " ++ field ++
        " part of currency pair; only ascii alpha characters are permitted"]
  match CurrencyPair.tryFromRaw raw.base raw.quote with
  | some pair => .ok pair
  | none => if isCurrency raw.base then invalid "quote" raw.quote else invalid "base" raw.base

def intoRaw (pair : CurrencyPair) : RawCurrencyPair := { base := pair.base, quote := pair.quote }

/-- Every pair is read back. -/
theorem tryFromRawPair_intoRaw (pair : CurrencyPair) : tryFromRawPair pair.intoRaw = .ok pair := by
  unfold tryFromRawPair intoRaw
  rw [pair.tryFromRaw_self]

theorem stable : Codec.Stable tryFromRawPair intoRaw := fun _ pair _ => pair.tryFromRawPair_intoRaw

end CurrencyPair

namespace Ticker

def readDecimals (decimals : ℕ) : Except Report UInt8 :=
  if decimals < 256 then .ok (UInt8.ofNat decimals)
  else .error ["field `.decimals` was too large; must fit in a u8"]

def tryFromRaw (raw : RawTicker) : Except Report Ticker := do
  let currencyPair ← Codec.required ["required field not set: .currency_pair"]
    (fun pair => withContext "field `.currency_pair` was invalid" (CurrencyPair.tryFromRawPair pair))
    raw.currencyPair
  let decimals ← readDecimals raw.decimals
  .ok
    { currencyPair := currencyPair
      decimals := decimals
      minProviderCount := raw.minProviderCount
      enabled := raw.enabled
      metadataJson := raw.metadataJson }

def intoRaw (ticker : Ticker) : RawTicker :=
  { currencyPair := some ticker.currencyPair.intoRaw
    decimals := ticker.decimals.toNat
    minProviderCount := ticker.minProviderCount
    enabled := ticker.enabled
    metadataJson := ticker.metadataJson }

theorem tryFromRaw_intoRaw (ticker : Ticker) : tryFromRaw ticker.intoRaw = .ok ticker := by
  have hdecimals : readDecimals ticker.decimals.toNat = .ok ticker.decimals := by
    unfold readDecimals
    rw [if_pos ticker.decimals.toNat_lt, UInt8.ofNat_toNat]
  refine Codec.bind_eq_ok.mpr ⟨ticker.currencyPair, ?_, ?_⟩
  · exact withContext_eq_ok.mpr ticker.currencyPair.tryFromRawPair_intoRaw
  · exact Codec.bind_eq_ok.mpr ⟨ticker.decimals, hdecimals, rfl⟩

end Ticker

namespace ProviderConfig

def tryFromRaw (raw : RawProviderConfig) : Except Report ProviderConfig := do
  let normalizeByPair ← withContext "field `.normalize_by_pair` was invalid"
    (Codec.transpose CurrencyPair.tryFromRawPair raw.normalizeByPair)
  .ok
    { name := raw.name
      offChainTicker := raw.offChainTicker
      normalizeByPair := normalizeByPair
      invert := raw.invert
      metadataJson := raw.metadataJson }

def intoRaw (config : ProviderConfig) : RawProviderConfig :=
  { name := config.name
    offChainTicker := config.offChainTicker
    normalizeByPair := config.normalizeByPair.map CurrencyPair.intoRaw
    invert := config.invert
    metadataJson := config.metadataJson }

theorem tryFromRaw_intoRaw (config : ProviderConfig) : tryFromRaw config.intoRaw = .ok config := by
  refine Codec.bind_eq_ok.mpr ⟨config.normalizeByPair, withContext_eq_ok.mpr ?_, rfl⟩
  show Codec.transpose _ (config.normalizeByPair.map CurrencyPair.intoRaw) = _
  cases config.normalizeByPair with
  | none => rfl
  | some pair => exact Codec.bind_eq_ok.mpr ⟨pair, pair.tryFromRawPair_intoRaw, rfl⟩

end ProviderConfig

namespace Market

def tryFromRaw (raw : RawMarket) : Except Report Market := do
  let ticker ← Codec.required ["missing ticker"]
    (fun ticker => withContext "failed to parse ticker" (Ticker.tryFromRaw ticker)) raw.ticker
  let providerConfigs ← withContext "failed to parse provider config"
    (Codec.collect ProviderConfig.tryFromRaw raw.providerConfigs)
  .ok { ticker := ticker, providerConfigs := providerConfigs }

def intoRaw (market : Market) : RawMarket :=
  { ticker := some market.ticker.intoRaw
    providerConfigs := market.providerConfigs.map ProviderConfig.intoRaw }

/-- Every market is read back. -/
theorem tryFromRaw_intoRaw (market : Market) : tryFromRaw market.intoRaw = .ok market := by
  refine Codec.bind_eq_ok.mpr
    ⟨market.ticker, withContext_eq_ok.mpr market.ticker.tryFromRaw_intoRaw, ?_⟩
  refine Codec.bind_eq_ok.mpr ⟨market.providerConfigs, withContext_eq_ok.mpr ?_, rfl⟩
  exact Codec.collect_map fun config _ => config.tryFromRaw_intoRaw

theorem stable : Codec.Stable tryFromRaw intoRaw := fun _ market _ => market.tryFromRaw_intoRaw

end Market

namespace CurrencyPairsChange

/-- The parser of the pairs of either variant. -/
def readPairs (pairs : List RawCurrencyPair) : Except Report (List CurrencyPair) :=
  withContext "a currency pair was invalid" (Codec.collect CurrencyPair.tryFromRawPair pairs)

def tryFromRaw : Option RawCurrencyPairsChange → Except Report CurrencyPairsChange
  | some (.addition pairs) => do
    let pairs ← readPairs pairs
    .ok (.addition pairs)
  | some (.removal pairs) => do
    let pairs ← readPairs pairs
    .ok (.removal pairs)
  | none => .error ["required action value was not set"]

def intoRaw : CurrencyPairsChange → Option RawCurrencyPairsChange
  | .addition pairs => some (.addition (pairs.map CurrencyPair.intoRaw))
  | .removal pairs => some (.removal (pairs.map CurrencyPair.intoRaw))

def protobuf : Protobuf (Option RawCurrencyPairsChange) CurrencyPairsChange where
  tryFromRaw := tryFromRaw
  tryFromRawRef := tryFromRaw
  intoRaw := intoRaw
  toRaw := intoRaw

theorem lawful : protobuf.Lawful where
  ref_eq _ := rfl
  toRaw_eq _ := rfl
  stable := by
    have hread : Codec.Stable readPairs (List.map CurrencyPair.intoRaw) :=
      stable_withContext _ CurrencyPair.stable.collect
    rintro (_ | raw | raw) act hact
    · cases hact
    · obtain ⟨pairs, hpairs, hact⟩ := Codec.bind_eq_ok.mp hact
      obtain rfl := Except.ok.inj hact
      exact Codec.bind_eq_ok.mpr ⟨pairs, hread hpairs, rfl⟩
    · obtain ⟨pairs, hpairs, hact⟩ := Codec.bind_eq_ok.mp hact
      obtain rfl := Except.ok.inj hact
      exact Codec.bind_eq_ok.mpr ⟨pairs, hread hpairs, rfl⟩

end CurrencyPairsChange

namespace MarketsChange

/-- The parser of the markets of each variant. -/
def readMarkets (markets : List RawMarket) : Except Report (List Market) :=
  withContext "invalid market in market list" (Codec.collect Market.tryFromRaw markets)

def protobuf : Protobuf (Option RawMarketsChange) MarketsChange where
  tryFromRawRef
    | some (.creation markets) => do
      let markets ← readMarkets markets
      .ok (.creation markets)
    | some (.removal markets) => do
      let markets ← readMarkets markets
      .ok (.removal markets)
    | some (.update markets) => do
      let markets ← readMarkets markets
      .ok (.update markets)
    | none => .error ["change market action contained no markets to change"]
  toRaw
    | .creation markets => some (.creation (markets.map Market.intoRaw))
    | .removal markets => some (.removal (markets.map Market.intoRaw))
    | .update markets => some (.update (markets.map Market.intoRaw))

theorem lawful : protobuf.Lawful where
  ref_eq _ := rfl
  toRaw_eq _ := rfl
  stable := by
    have hread : Codec.Stable readMarkets (List.map Market.intoRaw) :=
      stable_withContext _ Market.stable.collect
    rintro (_ | raw | raw | raw) act hact
    · cases hact
    all_goals
      obtain ⟨markets, hmarkets, hact⟩ := Codec.bind_eq_ok.mp hact
      obtain rfl := Except.ok.inj hact
      exact Codec.bind_eq_ok.mpr ⟨markets, hread hmarkets, rfl⟩

end MarketsChange

/-! ## Actions -/

section

variable [ext : External] [wire : WireFormats]

namespace Action

def tryFromRaw (raw : RawAction) : Except Report Action :=
  match raw.value with
  | none => .error ["required action value was not set"]
  | some (.rollupDataSubmission act) => do
    let act ← withContext "rollup data submission action was not valid"
      (RollupDataSubmission.protobuf.tryFromRaw act)
    .ok (.rollupDataSubmission act)
  | some (.transfer act) => do
    let act ← withContext "transfer action was not valid" (Transfer.protobuf.tryFromRaw act)
    .ok (.transfer act)
  | some (.validatorUpdate act) => do
    let act ← withContext "validator update action was not valid"
      (ValidatorUpdate.protobuf.tryFromRaw act)
    .ok (.validatorUpdate act)
  | some (.sudoAddressChange act) => do
    let act ← withContext "sudo address change action was not valid"
      (SudoAddressChange.protobuf.tryFromRaw act)
    .ok (.sudoAddressChange act)
  | some (.ibcSudoChange act) => do
    let act ← withContext "ibc sudo address change action was not valid"
      (IbcSudoChange.protobuf.tryFromRaw act)
    .ok (.ibcSudoChange act)
  | some (.ibc act) => do
    let act ← withContext "ibc action was not valid" (wire.ibcRelayTryFrom act)
    .ok (.ibc act)
  | some (.ics20Withdrawal act) => do
    let act ← withContext "ics20 withdrawal action was not valid"
      (Ics20Withdrawal.protobuf.tryFromRaw act)
    .ok (.ics20Withdrawal act)
  | some (.ibcRelayerChange act) => do
    let act ← withContext "ibc relayer change action was not valid"
      (IbcRelayerChange.protobuf.tryFromRawRef act)
    .ok (.ibcRelayerChange act)
  | some (.feeAssetChange act) => do
    let act ← withContext "fee asset change action was not valid"
      (FeeAssetChange.protobuf.tryFromRawRef act)
    .ok (.feeAssetChange act)
  | some (.initBridgeAccount act) => do
    let act ← withContext "init bridge account action was not valid"
      (InitBridgeAccount.protobuf.tryFromRaw act)
    .ok (.initBridgeAccount act)
  | some (.bridgeLock act) => do
    let act ← withContext "bridge lock action was not valid" (BridgeLock.protobuf.tryFromRaw act)
    .ok (.bridgeLock act)
  | some (.bridgeUnlock act) => do
    let act ← withContext "bridge unlock action was not valid" (BridgeUnlock.protobuf.tryFromRaw act)
    .ok (.bridgeUnlock act)
  | some (.bridgeSudoChange act) => do
    let act ← withContext "bridge sudo change action was not valid"
      (BridgeSudoChange.protobuf.tryFromRaw act)
    .ok (.bridgeSudoChange act)
  | some (.bridgeTransfer act) => do
    let act ← withContext "bridge transfer action was not valid"
      (BridgeTransfer.protobuf.tryFromRaw act)
    .ok (.bridgeTransfer act)
  | some (.feeChange act) => do
    let act ← withContext "fee change action was not valid" (FeeChange.protobuf.tryFromRawRef act)
    .ok (.feeChange act)
  | some (.recoverIbcClient act) => do
    let act ← withContext "recover ibc client action was not valid"
      (RecoverIbcClient.protobuf.tryFromRaw act)
    .ok (.recoverIbcClient act)
  | some (.currencyPairsChange act) => do
    let act ← withContext "currency pairs change action was not valid"
      (CurrencyPairsChange.protobuf.tryFromRaw act)
    .ok (.currencyPairsChange act)
  | some (.marketsChange act) => do
    let act ← withContext "markets change action was not valid"
      (MarketsChange.protobuf.tryFromRaw act)
    .ok (.marketsChange act)

/-- The variants of the message, as `to_raw` picks them. -/
def toRawValue : Action → RawValue
  | .rollupDataSubmission act => .rollupDataSubmission (RollupDataSubmission.protobuf.toRaw act)
  | .transfer act => .transfer (Transfer.protobuf.toRaw act)
  | .validatorUpdate act => .validatorUpdate (ValidatorUpdate.protobuf.toRaw act)
  | .sudoAddressChange act => .sudoAddressChange (SudoAddressChange.protobuf.intoRaw act)
  | .ibc act => .ibc (wire.ibcRelayInto act)
  | .ibcSudoChange act => .ibcSudoChange (IbcSudoChange.protobuf.intoRaw act)
  | .ics20Withdrawal act => .ics20Withdrawal (Ics20Withdrawal.protobuf.toRaw act)
  | .ibcRelayerChange act => .ibcRelayerChange (IbcRelayerChange.protobuf.toRaw act)
  | .feeAssetChange act => .feeAssetChange (FeeAssetChange.protobuf.toRaw act)
  | .initBridgeAccount act => .initBridgeAccount (InitBridgeAccount.protobuf.toRaw act)
  | .bridgeLock act => .bridgeLock (BridgeLock.protobuf.toRaw act)
  | .bridgeUnlock act => .bridgeUnlock (BridgeUnlock.protobuf.toRaw act)
  | .bridgeSudoChange act => .bridgeSudoChange (BridgeSudoChange.protobuf.toRaw act)
  | .bridgeTransfer act => .bridgeTransfer (BridgeTransfer.protobuf.toRaw act)
  | .feeChange act => .feeChange (FeeChange.protobuf.toRaw act)
  | .recoverIbcClient act => .recoverIbcClient (RecoverIbcClient.protobuf.toRaw act)
  | .currencyPairsChange act => .currencyPairsChange (CurrencyPairsChange.protobuf.toRaw act)
  | .marketsChange act => .marketsChange (MarketsChange.protobuf.toRaw act)

def protobuf : Protobuf RawAction Action where
  tryFromRaw := tryFromRaw
  tryFromRawRef := tryFromRaw
  toRaw act := { value := some act.toRawValue }

omit ext wire in
/-- One arm: the context and the constructor of a variant around its own conversions. -/
theorem arm_stable {R α : Type} {p : Protobuf R α} (h : p.Lawful) (context : String)
    (wrap : α → Action) {raw : R} {act : Action}
    (hread : (do
      let a ← withContext context (p.tryFromRaw raw)
      Except.ok (wrap a)) = .ok act) :
    ∃ a, act = wrap a ∧ (do
      let a ← withContext context (p.tryFromRaw (p.toRaw a))
      Except.ok (wrap a)) = .ok act := by
  obtain ⟨a, ha, hread⟩ := Codec.bind_eq_ok.mp hread
  obtain rfl := Except.ok.inj hread
  refine ⟨a, rfl, Codec.bind_eq_ok.mpr ⟨a, withContext_eq_ok.mpr ?_, rfl⟩⟩
  rw [h.toRaw_eq]
  exact h.stable (withContext_eq_ok.mp ha)

theorem stable (reads : FormatsRead) : Codec.Stable tryFromRaw protobuf.toRaw := by
  rintro ⟨_ | value⟩ act h
  · cases h
  cases value with
  | transfer raw =>
    obtain ⟨a, rfl, hread⟩ := arm_stable (Transfer.lawful reads.address) _ .transfer h
    exact hread
  | rollupDataSubmission raw =>
    obtain ⟨a, rfl, hread⟩ := arm_stable RollupDataSubmission.lawful _ .rollupDataSubmission h
    exact hread
  | initBridgeAccount raw =>
    obtain ⟨a, rfl, hread⟩ :=
      arm_stable (InitBridgeAccount.lawful reads.address) _ .initBridgeAccount h
    exact hread
  | bridgeLock raw =>
    obtain ⟨a, rfl, hread⟩ := arm_stable (BridgeLock.lawful reads.address) _ .bridgeLock h
    exact hread
  | bridgeUnlock raw =>
    obtain ⟨a, rfl, hread⟩ := arm_stable (BridgeUnlock.lawful reads.address) _ .bridgeUnlock h
    exact hread
  | bridgeSudoChange raw =>
    obtain ⟨a, rfl, hread⟩ :=
      arm_stable (BridgeSudoChange.lawful reads.address) _ .bridgeSudoChange h
    exact hread
  | bridgeTransfer raw =>
    obtain ⟨a, rfl, hread⟩ := arm_stable (BridgeTransfer.lawful reads.address) _ .bridgeTransfer h
    exact hread
  | ibc raw =>
    obtain ⟨a, ha, h⟩ := Codec.bind_eq_ok.mp h
    obtain rfl := Except.ok.inj h
    exact Codec.bind_eq_ok.mpr
      ⟨a, withContext_eq_ok.mpr (reads.ibcRelay (withContext_eq_ok.mp ha)), rfl⟩
  | ics20Withdrawal raw =>
    obtain ⟨a, rfl, hread⟩ := arm_stable (Ics20Withdrawal.lawful reads) _ .ics20Withdrawal h
    exact hread
  | sudoAddressChange raw =>
    obtain ⟨a, rfl, hread⟩ :=
      arm_stable (SudoAddressChange.lawful reads.address) _ .sudoAddressChange h
    exact hread
  | validatorUpdate raw =>
    obtain ⟨a, rfl, hread⟩ := arm_stable ValidatorUpdate.lawful _ .validatorUpdate h
    exact hread
  | ibcRelayerChange raw =>
    obtain ⟨a, rfl, hread⟩ :=
      arm_stable (IbcRelayerChange.lawful reads.address) _ .ibcRelayerChange h
    exact hread
  | feeAssetChange raw =>
    obtain ⟨a, rfl, hread⟩ := arm_stable FeeAssetChange.lawful _ .feeAssetChange h
    exact hread
  | feeChange raw =>
    obtain ⟨a, rfl, hread⟩ := arm_stable FeeChange.lawful _ .feeChange h
    exact hread
  | ibcSudoChange raw =>
    obtain ⟨a, rfl, hread⟩ := arm_stable (IbcSudoChange.lawful reads.address) _ .ibcSudoChange h
    exact hread
  | recoverIbcClient raw =>
    obtain ⟨a, rfl, hread⟩ := arm_stable (RecoverIbcClient.lawful reads) _ .recoverIbcClient h
    exact hread
  | currencyPairsChange raw =>
    obtain ⟨a, rfl, hread⟩ := arm_stable CurrencyPairsChange.lawful _ .currencyPairsChange h
    exact hread
  | marketsChange raw =>
    obtain ⟨a, rfl, hread⟩ := arm_stable MarketsChange.lawful _ .marketsChange h
    exact hread

theorem lawful (reads : FormatsRead) : protobuf.Lawful where
  ref_eq _ := rfl
  toRaw_eq _ := rfl
  stable := Action.stable reads

end Action

/-! ## Bodies -/

/-- `TransactionBody`. -/
structure TransactionBody where
  actions : Actions
  params : TransactionParams

namespace TransactionBody

/-- `TransactionBodyBuilder::try_build`, under the context of a body that is read. -/
def tryBuild (actions : List Action) (params : TransactionParams) : Except Report TransactionBody :=
  match Actions.tryFromListOfActions actions with
  | some actions => .ok { actions := actions, params := params }
  | none => .error ["`actions` field does not form a valid group of actions"]

/-- `TransactionParams::from_raw`. -/
def paramsOfRaw (raw : RawTransactionParams) : TransactionParams :=
  { nonce := raw.nonce, chainId := raw.chainId }

def paramsToRaw (params : TransactionParams) : RawTransactionParams :=
  { nonce := params.nonce, chainId := params.chainId }

def protobuf : Protobuf RawTransactionBody TransactionBody where
  tryFromRawRef raw := do
    let params ← okOr raw.params ["`params` field is unset"]
    let actions ← withContext "`actions` field is invalid"
      (Codec.collect Action.protobuf.tryFromRawRef raw.actions)
    tryBuild actions (paramsOfRaw params)
  tryFromRaw raw := do
    let params ← okOr raw.params ["`params` field is unset"]
    let actions ← withContext "`actions` field is invalid"
      (Codec.collect Action.protobuf.tryFromRaw raw.actions)
    tryBuild actions (paramsOfRaw params)
  intoRaw body :=
    { actions := body.actions.inner.map Action.protobuf.intoRaw
      params := some (paramsToRaw body.params) }
  toRaw body :=
    { actions := body.actions.inner.map Action.protobuf.toRaw
      params := some (paramsToRaw body.params) }

omit ext wire in
theorem tryBuild_eq_ok {actions : List Action} {params : TransactionParams}
    {body : TransactionBody} :
    tryBuild actions params = .ok body ↔ body.actions.inner = actions ∧ body.params = params := by
  obtain ⟨as, params'⟩ := body
  unfold tryBuild
  rw [← Actions.tryFromListOfActions_eq_some]
  cases Actions.tryFromListOfActions actions with
  | none => simp
  | some as' => simp [eq_comm]

/-- A body whose actions are read back is read back. -/
theorem tryFromRaw_intoRaw {body : TransactionBody}
    (h : ∀ act ∈ body.actions.inner,
      Action.protobuf.tryFromRaw (Action.protobuf.intoRaw act) = .ok act) :
    protobuf.tryFromRaw (protobuf.intoRaw body) = .ok body := by
  refine Codec.bind_eq_ok.mpr ⟨paramsToRaw body.params, rfl, ?_⟩
  refine Codec.bind_eq_ok.mpr
    ⟨body.actions.inner, withContext_eq_ok.mpr (Codec.collect_map h), ?_⟩
  exact tryBuild_eq_ok.mpr ⟨rfl, rfl⟩

theorem lawful (reads : FormatsRead) : protobuf.Lawful where
  ref_eq _ := rfl
  toRaw_eq _ := rfl
  stable := by
    intro raw body h
    obtain ⟨params, hparams, h⟩ := Codec.bind_eq_ok.mp h
    obtain ⟨actions, hactions, h⟩ := Codec.bind_eq_ok.mp h
    obtain ⟨rfl, -⟩ := tryBuild_eq_ok.mp h
    have hread := (Action.lawful reads).stable.collect (withContext_eq_ok.mp hactions)
    refine Codec.bind_eq_ok.mpr ⟨paramsToRaw body.params, rfl, ?_⟩
    refine Codec.bind_eq_ok.mpr ⟨body.actions.inner, withContext_eq_ok.mpr hread, ?_⟩
    exact tryBuild_eq_ok.mpr ⟨rfl, rfl⟩

end TransactionBody

end

/-! ## Signed transactions -/

/-- The protobuf encoding of the messages, and the signatures. -/
class TransactionFormats where
  encodeTransactionBody : RawTransactionBody → Bytes
  decodeTransactionBody : Bytes → Except Report RawTransactionBody
  encodeRawTransaction : RawTransaction → Bytes
  decodeRawTransaction : Bytes → Except Report RawTransaction
  /-- `SigningKey::verification_key`. -/
  verificationKey : Bytes32 → Bytes32
  /-- `SigningKey::sign`. -/
  sign : Bytes32 → Bytes → Bytes
  /-- `VerificationKey::verify` of a signature on a message. -/
  verify : Bytes32 → Bytes → Bytes → Bool

section

variable [ext : External] [wire : WireFormats] [formats : TransactionFormats]

/-- `raw::TransactionBody::type_url`. -/
def transactionBodyTypeUrl : String := "/astria.protocol.transaction.v1.TransactionBody"

/-- `TransactionBody::try_from_any`. -/
def TransactionBody.tryFromAny (any : RawAny) : Except Report TransactionBody :=
  if any.typeUrl ≠ transactionBodyTypeUrl then
    .error ["encountered invalid type URL when converting from `google.protobuf.Any`; got `" ++
      any.typeUrl ++ "`, expected `" ++ transactionBodyTypeUrl ++ "`"]
  else do
    let raw ← withContext ("failed to decode `google.protobuf.Any` to `" ++ transactionBodyTypeUrl ++
      "`") (formats.decodeTransactionBody any.value)
    TransactionBody.protobuf.tryFromRaw raw

namespace Transaction

/-- `Signature::try_from`. -/
def readSignature (bytes : Bytes) : Except Report Bytes :=
  if bytes.length = 64 then .ok bytes else .error ["`signature` field invalid"]

def verifySignature (key : Bytes32) (signature message : Bytes) : Except Report Unit :=
  if formats.verify key signature message = true then .ok ()
  else .error ["transaction could not be verified given the signature and verification key"]

def protobuf : Protobuf RawTransaction Transaction where
  tryFromRawRef raw := do
    let signature ← readSignature raw.signature
    let verificationKey ← okOr (verificationKeyTryFrom raw.publicKey) ["`public_key` field invalid"]
    let body ← okOr raw.body ["`body` field not set"]
    verifySignature verificationKey signature body.value
    let transaction ← withContext "`body` field invalid" (TransactionBody.tryFromAny body)
    .ok
      { signature := signature
        verificationKey := verificationKey
        actions := transaction.actions
        params := transaction.params
        bodyBytes := body.value }
  tryFromRaw raw := do
    let signature ← readSignature raw.signature
    let verificationKey ← okOr (verificationKeyTryFrom raw.publicKey) ["`public_key` field invalid"]
    let body ← okOr raw.body ["`body` field not set"]
    verifySignature verificationKey signature body.value
    let transaction ← withContext "`body` field invalid" (TransactionBody.tryFromAny body)
    .ok
      { signature := signature
        verificationKey := verificationKey
        actions := transaction.actions
        params := transaction.params
        bodyBytes := body.value }
  intoRaw tx :=
    { signature := tx.signature
      publicKey := tx.verificationKey.toList
      body := some { typeUrl := transactionBodyTypeUrl, value := tx.bodyBytes } }
  toRaw tx :=
    { signature := tx.signature
      publicKey := tx.verificationKey.toList
      body := some { typeUrl := transactionBodyTypeUrl, value := tx.bodyBytes } }

/-- A transaction keeps the message that it was read from. -/
theorem toRaw_of_tryFromRaw {raw : RawTransaction} {tx : Transaction}
    (h : protobuf.tryFromRaw raw = .ok tx) : protobuf.toRaw tx = raw := by
  obtain ⟨signature, hsignature, h⟩ := Codec.bind_eq_ok.mp h
  obtain ⟨key, hkey, h⟩ := Codec.bind_eq_ok.mp h
  obtain ⟨body, hbody, h⟩ := Codec.bind_eq_ok.mp h
  obtain ⟨-, -, h⟩ := Codec.bind_eq_ok.mp h
  obtain ⟨transaction, htransaction, h⟩ := Codec.bind_eq_ok.mp h
  obtain rfl := Except.ok.inj h
  obtain ⟨rawSignature, rawKey, rawBody⟩ := raw
  have hsame : signature = rawSignature := by
    unfold readSignature at hsignature
    split_ifs at hsignature
    exact (Except.ok.inj hsignature).symm
  have hbytes : key.toList = rawKey := by
    have hfound := okOr_eq_ok.mp hkey
    unfold verificationKeyTryFrom at hfound
    exact Sequencer.toBytes32_eq_some.mp (Option.filter_eq_some_iff.mp hfound).1
  have hurl : body.typeUrl = transactionBodyTypeUrl := by
    have hany := withContext_eq_ok.mp htransaction
    unfold TransactionBody.tryFromAny at hany
    split_ifs at hany with hne
    exact not_not.mp hne
  obtain ⟨typeUrl, value⟩ := body
  obtain rfl : rawBody = some ⟨typeUrl, value⟩ := okOr_eq_ok.mp hbody
  unfold protobuf
  dsimp only at hurl ⊢
  rw [hsame, hbytes, ← hurl]

theorem lawful : protobuf.Lawful where
  ref_eq _ := rfl
  toRaw_eq _ := rfl
  stable := by
    intro raw tx h
    show protobuf.tryFromRaw (protobuf.toRaw tx) = .ok tx
    rw [toRaw_of_tryFromRaw h, h]

end Transaction

/-- `TransactionBody::sign`. -/
def TransactionBody.sign (body : TransactionBody) (signingKey : Bytes32) : Transaction :=
  let bytes := formats.encodeTransactionBody (TransactionBody.protobuf.toRaw body)
  { signature := formats.sign signingKey bytes
    verificationKey := formats.verificationKey signingKey
    actions := body.actions
    params := body.params
    bodyBytes := bytes }

/-- What a transaction is sent as. -/
def Transaction.encode (tx : Transaction) : Bytes :=
  formats.encodeRawTransaction (Transaction.protobuf.toRaw tx)

/-- How a transaction is received. -/
def Transaction.decode (bytes : Bytes) : Except Report Transaction := do
  let raw ← formats.decodeRawTransaction bytes
  Transaction.protobuf.tryFromRaw raw

/-- What the signature of a body and the encodings of its messages are to do when it is signed and
sent. -/
structure Sendable (body : TransactionBody) (signingKey : Bytes32) : Prop where
  validKey : wire.validVerificationKey (formats.verificationKey signingKey) = true
  length : (body.sign signingKey).signature.length = 64
  verified : formats.verify (formats.verificationKey signingKey) (body.sign signingKey).signature
    (body.sign signingKey).bodyBytes = true
  bodyRead : formats.decodeTransactionBody (body.sign signingKey).bodyBytes =
    .ok (TransactionBody.protobuf.toRaw body)
  read : formats.decodeRawTransaction (body.sign signingKey).encode =
    .ok (Transaction.protobuf.toRaw (body.sign signingKey))

/-- A body that is signed and sent is decoded as it was signed, if each of its actions is read back. -/
theorem decode_sign {body : TransactionBody} {signingKey : Bytes32}
    (hsend : Sendable body signingKey)
    (h : ∀ act ∈ body.actions.inner,
      Action.protobuf.tryFromRaw (Action.protobuf.intoRaw act) = .ok act) :
    Transaction.decode (body.sign signingKey).encode = .ok (body.sign signingKey) := by
  refine Codec.bind_eq_ok.mpr ⟨_, hsend.read, ?_⟩
  have hkey : verificationKeyTryFrom (formats.verificationKey signingKey).toList =
      some (formats.verificationKey signingKey) := by
    unfold verificationKeyTryFrom
    rw [Sequencer.toBytes32_toList, Option.filter_some, if_pos hsend.validKey]
  refine Codec.bind_eq_ok.mpr ⟨_, if_pos hsend.length, ?_⟩
  refine Codec.bind_eq_ok.mpr ⟨_, okOr_eq_ok.mpr hkey, ?_⟩
  refine Codec.bind_eq_ok.mpr ⟨_, rfl, ?_⟩
  refine Codec.bind_eq_ok.mpr ⟨(), if_pos hsend.verified, ?_⟩
  refine Codec.bind_eq_ok.mpr ⟨body, withContext_eq_ok.mpr ?_, rfl⟩
  unfold TransactionBody.tryFromAny
  rw [if_neg (not_not.mpr rfl)]
  refine Codec.bind_eq_ok.mpr ⟨_, withContext_eq_ok.mpr hsend.bodyRead, ?_⟩
  exact TransactionBody.tryFromRaw_intoRaw h

/-- If the formats of other crates read back what they read, then the conversions of an action agree
with each other and every action that was read is read back from its message; a body of such actions
that is signed and sent is decoded to the same actions in the same order, nonce and chain id. -/
theorem actions_roundTrip (reads : FormatsRead) :
    Action.protobuf.Lawful ∧
      ∀ (body : TransactionBody) (signingKey : Bytes32),
        (∀ act ∈ body.actions.inner, ∃ raw, Action.protobuf.tryFromRaw raw = .ok act) →
          Sendable body signingKey →
            ∃ tx, Transaction.decode (body.sign signingKey).encode = .ok tx ∧
              tx.actions.inner = body.actions.inner ∧ tx.params.nonce = body.params.nonce ∧
                tx.params.chainId = body.params.chainId := by
  refine ⟨Action.lawful reads, ?_⟩
  intro body signingKey hactions hsend
  refine ⟨body.sign signingKey, decode_sign hsend ?_, rfl, rfl, rfl⟩
  intro act hact
  obtain ⟨raw, hraw⟩ := hactions act hact
  exact (Action.lawful reads).stable hraw

end

/-! ## A signed transfer -/

namespace TestFormats

open Astria.Sequencer.TestUtils

/-- Whether a text can be an identifier of IBC of some length. -/
def isIdentifier (shortest longest : ℕ) (s : String) : Bool :=
  shortest ≤ s.length && s.length ≤ longest &&
    s.toList.all fun c => c.isAlphanum || "._+-#[]<>".toList.contains c

/-- The only keys here are those of the test signers; no run here relays a message. -/
scoped instance : WireFormats where
  validVerificationKey key := [aliceKey, bobKey, carolKey, judyKey].contains key
  parseChannelId s := if isIdentifier 8 64 s then some s else none
  parseClientId s := if isIdentifier 9 64 s then some s else none
  ibcRelayTryFrom _ := .error ["`raw_action` field was not set"]
  ibcRelayInto _ := []

/-- The seed of the source's test signer `alice`. -/
def aliceSeed : Bytes32 :=
  ⟨[0x2b, 0xd8, 0x06, 0xc9, 0x7f, 0x0e, 0x00, 0xaf, 0x1a, 0x1f, 0xc3, 0x32, 0x8f, 0xa7, 0x63, 0xa9,
    0x26, 0x97, 0x23, 0xc8, 0xdb, 0x8f, 0xac, 0x4f, 0x93, 0xaf, 0x71, 0xdb, 0x18, 0x6d, 0x6e, 0x90],
    rfl⟩

/-- A transfer of 5 `nria` to bob. -/
def rawTransfer : RawTransfer :=
  { toAddress := some { bech32m := "astria1yf56efahcq786pe5t7paknat40g6q4tsvqtql2" }
    amount := some { lo := 5, hi := 0 }
    asset := "nria"
    feeAsset := "nria" }

def rawBody : RawTransactionBody :=
  { params := some { nonce := 1, chainId := "test" }
    actions := [{ value := some (.transfer rawTransfer) }] }

def bodyBytes : Bytes :=
  messageField 1 (uint64Field 1 1 ++ bytesField 2 (asBytes "test")) ++
    messageField 2 (messageField 1
      (messageField 1 (bytesField 2 (asBytes "astria1yf56efahcq786pe5t7paknat40g6q4tsvqtql2")) ++
        messageField 2 (uint64Field 1 5) ++ bytesField 3 (asBytes "nria") ++
          bytesField 4 (asBytes "nria")))

/-- Alice's signature of these bytes. -/
def bodySignature : Bytes :=
  [0x2c, 0x3b, 0xe1, 0x66, 0x81, 0x9f, 0x29, 0xd8, 0xa2, 0xfa, 0xce, 0x7a, 0x33, 0x6c, 0xfc, 0x2a,
    0xd6, 0x1b, 0xa5, 0xa6, 0x72, 0x3f, 0xb5, 0xbd, 0x22, 0x6c, 0x52, 0x8c, 0xf4, 0x8d, 0x97, 0xd6,
    0x1e, 0x29, 0xdb, 0x74, 0x0e, 0xde, 0xa7, 0x01, 0x5b, 0x97, 0xa3, 0xb7, 0x21, 0xf4, 0xed, 0xa9,
    0xb8, 0x83, 0x70, 0x09, 0x9e, 0x9f, 0x73, 0xae, 0xf4, 0xad, 0xf2, 0x54, 0xdc, 0x4e, 0x92, 0x08]

/-- The text that bytes below 128 encode. -/
def readText (bytes : Bytes) : Option String :=
  if bytes.all (fun b => b.toNat < 128) then
    some (String.ofList (bytes.map fun b => Char.ofNat b.toNat))
  else none

/-- Reads a message into the fields that it already has: the last of several values counts, and a
field without a name is skipped. -/
def mergeAny (any : RawAny) (bytes : Bytes) : Option RawAny := do
  let fields ← readFields bytes.length bytes
  fields.foldlM (fun (any : RawAny) field =>
    match field with
    | (1, .bytes bs) => (readText bs).map fun typeUrl => { any with typeUrl := typeUrl }
    | (2, .bytes bs) => some { any with value := bs }
    | (1, .number _) | (2, .number _) => none
    | _ => some any) any

def readTransaction (bytes : Bytes) : Option RawTransaction := do
  let fields ← readFields bytes.length bytes
  fields.foldlM (fun (raw : RawTransaction) field =>
    match field with
    | (1, .bytes bs) => some { raw with signature := bs }
    | (2, .bytes bs) => some { raw with publicKey := bs }
    | (3, .bytes bs) =>
      (mergeAny (raw.body.getD { typeUrl := "", value := [] }) bs).map
        fun any => { raw with body := some any }
    | (1, .number _) | (2, .number _) | (3, .number _) => none
    | _ => some raw) { signature := [], publicKey := [], body := none }

def writeTransaction (raw : RawTransaction) : Bytes :=
  bytesField 1 raw.signature ++ bytesField 2 raw.publicKey ++
    match raw.body with
    | some any =>
      messageField 3 (bytesField 1 (asBytes any.typeUrl) ++ bytesField 2 any.value)
    | none => []

/-- The body that is signed here is the only one that is written and read, and alice's the only
signature. -/
scoped instance : TransactionFormats where
  encodeTransactionBody raw := if raw = rawBody then bodyBytes else []
  decodeTransactionBody bytes :=
    if bytes = bodyBytes then .ok rawBody else .error ["failed to decode Protobuf message"]
  encodeRawTransaction := writeTransaction
  decodeRawTransaction bytes := okOr (readTransaction bytes) ["failed to decode Protobuf message"]
  verificationKey seed := if seed = aliceSeed then aliceKey else List.Vector.replicate 32 0
  sign seed message :=
    if seed = aliceSeed ∧ message = bodyBytes then bodySignature else List.replicate 64 0
  verify key signature message :=
    key = aliceKey && signature = bodySignature && message = bodyBytes

theorem formatsRead : FormatsRead where
  address := by
    intro s address h
    have hself : parseBech32 bech32m s = some address := h
    show parseBech32 bech32m (encodeBech32 bech32m address.hrp address.bytes.toList) = some address
    unfold parseBech32 at hself
    dsimp only at hself
    split_ifs at hself with hlen hsame
    obtain rfl := Option.some.inj hself
    dsimp only [List.Vector.toList_mk]
    rw [hsame]
    unfold parseBech32
    dsimp only
    rw [dif_pos hlen, if_pos hsame]
  channelId := by
    intro s id h
    by_cases hs : isIdentifier 8 64 s = true
    · obtain rfl : s = id := Option.some.inj ((if_pos hs).symm.trans h)
      exact h
    · cases (if_neg hs).symm.trans h
  clientId := by
    intro s id h
    by_cases hs : isIdentifier 9 64 s = true
    · obtain rfl : s = id := Option.some.inj ((if_pos hs).symm.trans h)
      exact h
    · cases (if_neg hs).symm.trans h
  ibcRelay := by
    intro raw act h
    cases h

/-- The transfer and the body as they are signed. -/
def bobTransfer : Transfer :=
  { toAddress := bobAddress
    amount := 5
    asset := .tracePrefixed nria
    feeAsset := .tracePrefixed nria }

def body : TransactionBody :=
  { actions :=
      { group := .bundleableGeneral
        inner := [.transfer bobTransfer]
        nonempty := by simp
        sameGroup := by simp [Action.group, Action.kind, ActionKind.group]
        single := by simp }
    params := { nonce := 1, chainId := "test" } }

theorem parseBech32m_bob :
    External.parseBech32m "astria1yf56efahcq786pe5t7paknat40g6q4tsvqtql2" = some bobAddress := by
  decide +kernel

theorem tryFromRaw_rawTransfer :
    Action.protobuf.tryFromRaw { value := some (.transfer rawTransfer) } =
      .ok (.transfer bobTransfer) := by
  refine Codec.bind_eq_ok.mpr ⟨bobTransfer, withContext_eq_ok.mpr ?_, rfl⟩
  refine Codec.bind_eq_ok.mpr ⟨bobAddress, requiredAddress_of_parse parseBech32m_bob _ _, ?_⟩
  refine Codec.bind_eq_ok.mpr ⟨.tracePrefixed nria, okOr_eq_ok.mpr (by decide), ?_⟩
  exact Codec.bind_eq_ok.mpr ⟨.tracePrefixed nria, okOr_eq_ok.mpr (by decide), rfl⟩

theorem sendable : Sendable body aliceSeed where
  validKey := by decide +kernel
  length := by decide +kernel
  verified := by decide +kernel
  bodyRead := by decide +kernel
  read := by decide +kernel

end TestFormats

open TestFormats Astria.Sequencer.TestUtils in
/-- Alice signs a body with one transfer. -/
theorem actions_roundTrip_transfer :
    Action.protobuf.Lawful ∧
      ∃ tx, Transaction.decode (body.sign aliceSeed).encode = .ok tx ∧
        tx.actions.inner = [.transfer bobTransfer] ∧ tx.params.nonce = 1 ∧
          tx.params.chainId = "test" := by
  obtain ⟨hlawful, hsend⟩ := actions_roundTrip formatsRead
  refine ⟨hlawful, hsend body aliceSeed ?_ sendable⟩
  intro act hact
  obtain rfl := List.mem_singleton.mp hact
  exact ⟨_, tryFromRaw_rawTransfer⟩

end Astria.Core
