import Astria.Sequencer.Funds

/-!
# Administrative actions

The handlers that are open to the sudo address, the IBC sudo address or the signer of a
validator update, and that move no funds (`crates/astria-sequencer/src/action_handler/impls`).

Results:
* one `..._keeps` lemma for each handler: it keeps what its writes keep, such as the funds;
* `CurrencyPairsChange.checkAndExecute_base`: a change of currency pairs writes nothing but
  the oracle.
-/

namespace Astria.Sequencer

open Astria.Core Astria.Lib Exec

section

variable [ext : External] {R : Base → Base → Prop} [IsPreorder Base R]

/-! ## Sudo addresses -/

/-- The check that the signer is the sudo key. -/
def validateSignerIsSudo (readContext message : String) : BaseM Unit := do
  let context ← getTransactionContext
  let sudoAddress ← wrapErr readContext (tryReads Base.getSudoAddress)
  ensure (sudoAddress = context.addressBytes) [message]

omit ext in
@[simp] theorem keeps_validateSignerIsSudo (readContext message : String) :
    Keeps R (validateSignerIsSudo readContext message) :=
  Keeps.bind (by simp) fun _ => Keeps.bind (by simp) fun _ => by simp

/-- `SudoAddressChange::check_and_execute`. -/
def SudoAddressChange.checkAndExecute (act : SudoAddressChange) : BaseM Unit := do
  wrapErr "desired new sudo address has an unsupported prefix" (ensureBasePrefix act.newAddress)
  validateSignerIsSudo "failed to get sudo address from state" "signer is not the sudo key"
  writes (Base.putSudoAddress act.newAddress.bytes)

omit ext in
theorem SudoAddressChange.checkAndExecute_keeps (hR : NonMarketWrites R) (act : SudoAddressChange) :
    Keeps R (SudoAddressChange.checkAndExecute act) :=
  Keeps.bind (by simp) fun _ => Keeps.bind (by simp) fun _ => keeps_writes fun _ => hR.sudoAddress _ _

/-- `IbcSudoChange::check_and_execute`. -/
def IbcSudoChange.checkAndExecute (act : IbcSudoChange) : BaseM Unit := do
  wrapErr "desired new ibc sudo address has an unsupported prefix" (ensureBasePrefix act.newAddress)
  validateSignerIsSudo "failed to get sudo address from state" "signer is not the sudo key"
  writes (Base.putIbcSudoAddress act.newAddress.bytes)

omit ext in
theorem IbcSudoChange.checkAndExecute_keeps (hR : NonMarketWrites R) (act : IbcSudoChange) :
    Keeps R (IbcSudoChange.checkAndExecute act) :=
  Keeps.bind (by simp) fun _ => Keeps.bind (by simp) fun _ => keeps_writes fun _ => hR.ibcSudoAddress _ _

/-- `IbcRelayerChange::check_and_execute`. -/
def IbcRelayerChange.checkAndExecute (act : IbcRelayerChange) : BaseM Unit := do
  let context ← getTransactionContext
  let address := match act with
    | .addition a => a
    | .removal a => a
  wrapErr "failed check for base prefix of provided address to be added/removed"
    (ensureBasePrefix address)
  let ibcSudoAddress ← wrapErr "failed to get IBC sudo address" (tryReads Base.getIbcSudoAddress)
  ensure (ibcSudoAddress = context.addressBytes) ["unauthorized address for IBC relayer change"]
  match act with
  | .addition a => writes (Base.putIbcRelayerAddress a.bytes)
  | .removal a => writes (Base.deleteIbcRelayerAddress a.bytes)

omit ext in
theorem IbcRelayerChange.checkAndExecute_keeps (hR : NonMarketWrites R) (act : IbcRelayerChange) :
    Keeps R (IbcRelayerChange.checkAndExecute act) := by
  refine Keeps.bind (by simp) fun _ => Keeps.bind (by simp) fun _ => Keeps.bind (by simp) fun _ =>
    Keeps.bind (by simp) fun _ => ?_
  cases act with
  | addition a => exact keeps_writes fun _ => hR.putRelayer _ _
  | removal a => exact keeps_writes fun _ => hR.deleteRelayer _ _

/-! ## Fees -/

/-- `FeeAssetChange::check_and_execute`: the last allowed asset cannot be removed. -/
def FeeAssetChange.checkAndExecute (act : FeeAssetChange) : BaseM Unit := do
  validateSignerIsSudo "failed to get authority sudo address"
    "unauthorized address for fee asset change"
  match act with
  | .addition asset => writes (Base.putAllowedFeeAsset asset.toIbcPrefixed)
  | .removal asset => do
    writes (Base.deleteAllowedFeeAsset asset.toIbcPrefixed)
    let remaining ← reads fun s => s.fees.allowedFeeAssets
    ensure (remaining ≠ ∅) ["cannot remove last allowed fee asset"]

theorem FeeAssetChange.checkAndExecute_keeps (hR : NonMarketWrites R) (act : FeeAssetChange) :
    Keeps R (FeeAssetChange.checkAndExecute act) := by
  refine Keeps.bind (by simp) fun _ => ?_
  cases act with
  | addition asset => exact keeps_writes fun _ => hR.putFeeAsset _ _
  | removal asset =>
    exact Keeps.bind (keeps_writes fun _ => hR.deleteFeeAsset _ _) fun _ => Keeps.bind (by simp) fun _ => by simp

/-- `FeeChange::check_and_execute`. -/
def FeeChange.checkAndExecute (act : FeeChange) : BaseM Unit := do
  validateSignerIsSudo "failed to get sudo address from state" "signer is not the sudo key"
  writes (Base.putFees act.kind act.fees)

omit ext in
theorem FeeChange.checkAndExecute_keeps (hR : NonMarketWrites R) (act : FeeChange) :
    Keeps R (FeeChange.checkAndExecute act) :=
  Keeps.bind (by simp) fun _ => keeps_writes fun _ => hR.fees _ _ _

/-! ## Validators -/

/-- `use_pre_aspen_validator_updates`. -/
def Base.usePreAspenValidatorUpdates (s : Base) : Bool :=
  (s.chain.upgradeChangeInfos "aspen" "validator_update_action_change").isNone

/-- The checks before the Aspen upgrade: a removed validator exists and is not the last. -/
def preAspenCheckValidatorUpdate (act : ValidatorUpdate) : BaseM Unit :=
  if act.power = 0 then do
    let set ← wrapErr "failed to get validator set from state"
      (tryReads Base.preAspenGetValidatorSet)
    ensure ((set.get (addressBytes act.verificationKey)).isSome = true)
      ["cannot remove a non-existing validator"]
    ensure (set.inner.length ≠ 1) ["cannot remove the last validator"]
  else
    pure ()

theorem preAspenCheckValidatorUpdate_keeps (act : ValidatorUpdate) :
    Keeps R (preAspenCheckValidatorUpdate act) :=
  Keeps.ite (Keeps.bind (by simp) fun _ => Keeps.bind (by simp) fun _ => by simp) (by simp)

/-- The removal of a validator since the Aspen upgrade. -/
def removeExistingValidator (act : ValidatorUpdate) (count : ℕ) : BaseM Unit := do
  ensure (1 < count) ["cannot remove the last validator"]
  let removed ← wrapErr "failed to remove validator"
    (removeValidator (addressBytes act.verificationKey))
  ensure (removed = true) ["cannot remove a non-existing validator"]
  writes (Base.putValidatorCount (count - 1))

theorem removeExistingValidator_keeps (hR : ValidatorWrites R) (act : ValidatorUpdate) (count : ℕ) :
    Keeps R (removeExistingValidator act count) := by
  have hremove (a : AddressBytes) : Keeps R (removeValidator a) := by
    refine Keeps.bind (by simp) fun _ => Keeps.ite ?_ (by simp)
    exact Keeps.bind (keeps_writes fun _ => hR.deleteValidator _ _) fun _ => by simp
  refine Keeps.bind (by simp) fun _ => Keeps.bind ((hremove _).mapErr _) fun _ => ?_
  exact Keeps.bind (by simp) fun _ => keeps_writes fun _ => hR.validatorCount _ _

/-- The addition or the update of a validator since the Aspen upgrade. -/
def addOrUpdateValidator (act : ValidatorUpdate) (count : ℕ) : BaseM Unit := do
  let present ← reads fun s => (s.authority.validators (addressBytes act.verificationKey)).isSome
  if present then
    pure ()
  else
    writes (Base.putValidatorCount (saturatingAdd u64Max count 1))
  writes (Base.putValidator act)

theorem addOrUpdateValidator_keeps (hR : ValidatorWrites R) (act : ValidatorUpdate) (count : ℕ) :
    Keeps R (addOrUpdateValidator act count) := by
  refine Keeps.bind (by simp) fun present => Keeps.ite ?_ ?_
  · exact keeps_writes fun _ => hR.putValidator _ _
  · exact Keeps.bind (keeps_writes fun _ => hR.validatorCount _ _) fun _ => keeps_writes fun _ => hR.putValidator _ _

/-- The update is added to those that the end of the block hands to CometBFT. -/
def addToBlockValidatorUpdates (act : ValidatorUpdate) : BaseM Unit := do
  let updates ← reads Base.blockValidatorUpdates
  writes (Base.putBlockValidatorUpdates (updates.insert act))

theorem addToBlockValidatorUpdates_keeps (hR : ValidatorWrites R) (act : ValidatorUpdate) :
    Keeps R (addToBlockValidatorUpdates act) :=
  Keeps.bind (by simp) fun _ => keeps_writes fun _ => hR.blockValidatorUpdates _ _

/-- `ValidatorUpdate::check_and_execute` (`impls/validator_update.rs`). -/
def ValidatorUpdate.checkAndExecute (act : ValidatorUpdate) : BaseM Unit := do
  validateSignerIsSudo "failed to get sudo address from state" "signer is not the sudo key"
  let preAspen ← reads Base.usePreAspenValidatorUpdates
  if preAspen then
    preAspenCheckValidatorUpdate act
  else do
    let count ← wrapErr "failed to get validator count" (tryReads Base.getValidatorCount)
    if act.power = 0 then
      removeExistingValidator act count
    else
      addOrUpdateValidator act count
  addToBlockValidatorUpdates act

theorem ValidatorUpdate.checkAndExecute_keeps (hR : ValidatorWrites R) (act : ValidatorUpdate) :
    Keeps R (ValidatorUpdate.checkAndExecute act) := by
  have hput (_ : Unit) := addToBlockValidatorUpdates_keeps hR act
  refine Keeps.bind (by simp) fun _ => Keeps.bind (by simp) fun preAspen => Keeps.ite ?_ ?_
  · exact Keeps.bind (preAspenCheckValidatorUpdate_keeps act) hput
  · refine Keeps.bind (by simp) fun count => Keeps.ite ?_ ?_
    · exact Keeps.bind (removeExistingValidator_keeps hR act count) hput
    · exact Keeps.bind (addOrUpdateValidator_keeps hR act count) hput

/-! ## Markets -/

/-- The markets after every market of a creation was inserted. -/
def createMarkets : List Market → List (String × Market) → Except Report (List (String × Market))
  | [], markets => .ok markets
  | market :: rest, markets =>
    let key := market.ticker.currencyPair.toString
    if markets.any fun entry => entry.1 = key then
      .error ["market for ticker " ++ key ++ " already exists"]
    else
      createMarkets rest (markets ++ [(key, market)])

/-- The markets after every market of an update replaced the one under its ticker. -/
def updateMarkets : List Market → List (String × Market) → Except Report (List (String × Market))
  | [], markets => .ok markets
  | market :: rest, markets =>
    let key := market.ticker.currencyPair.toString
    if markets.any fun entry => entry.1 = key then
      updateMarkets rest (markets.map fun entry => if entry.1 = key then (key, market) else entry)
    else
      .error ["market for ticker " ++ key ++ " not found in market map"]

/-- The market map after a change. -/
def MarketsChange.apply (act : MarketsChange) (markets : List (String × Market)) :
    Except Report (List (String × Market)) :=
  match act with
  | .creation new => createMarkets new markets
  | .removal old =>
    .ok (old.foldl
      (fun acc market => acc.filter fun entry => entry.1 ≠ market.ticker.currencyPair.toString)
      markets)
  | .update new =>
    if markets = [] then .error ["market map is empty"] else updateMarkets new markets

/-- `MarketsChange::check_and_execute`. -/
def MarketsChange.checkAndExecute (act : MarketsChange) : BaseM Unit := do
  validateSignerIsSudo "failed to get sudo address from state" "signer is not the sudo key"
  let stored ← reads fun s => s.marketMap.marketMap
  let marketMap ← require stored ["market map not found in state"]
  let markets ← lift (MarketsChange.apply act marketMap.markets)
  writes (Base.putMarketMap ⟨markets⟩)
  let height ← wrapErr "failed to get block height" (tryReads Base.getBlockHeight)
  writes (Base.putMarketMapLastUpdatedHeight height)

omit ext in
theorem MarketsChange.checkAndExecute_keeps (hR : SettingsWrites R) (act : MarketsChange) :
    Keeps R (MarketsChange.checkAndExecute act) := by
  refine Keeps.bind (by simp) fun _ => Keeps.bind (by simp) fun _ => Keeps.bind (by simp) fun _ => ?_
  refine Keeps.bind (by simp) fun _ => Keeps.bind (keeps_writes fun _ => hR.marketMap _ _) fun _ => ?_
  exact Keeps.bind (by simp) fun _ => keeps_writes fun _ => hR.marketMapHeight _ _

/-! ## IBC clients -/

/-- A field that the client and its substitute have to share. The source appends the two values, as the IBC
crates print them. -/
def ensureFieldMatches {α : Type} [DecidableEq α] (field : String) (client replacement : α) :
    Except Report Unit :=
  if client = replacement then .ok ()
  else .error ["substitute client " ++ field ++ " must match subject client " ++ field]

/-- `ensure_required_client_state_fields_match`. -/
def ensureRequiredClientStateFieldsMatch (client replacement : ClientState) : Except Report Unit := do
  ensureFieldMatches "trust level" client.trustLevel replacement.trustLevel
  ensureFieldMatches "unbonding period" client.unbondingPeriod replacement.unbondingPeriod
  ensureFieldMatches "max clock drift" client.maxClockDrift replacement.maxClockDrift
  ensureFieldMatches "proof specs" client.proofSpecs replacement.proofSpecs
  ensureFieldMatches "upgrade path" client.upgradePath replacement.upgradePath

/-- The order of heights: by revision, then by height. -/
def IbcHeight.lt (a b : IbcHeight) : Bool :=
  a.revisionNumber < b.revisionNumber ∨
    (a.revisionNumber = b.revisionNumber ∧ a.revisionHeight < b.revisionHeight)

/-- A height as the IBC crates print it. -/
def IbcHeight.toText (height : IbcHeight) : String :=
  toString height.revisionNumber ++ "-" ++ toString height.revisionHeight

/-- `RecoverIbcClient::check_and_execute` (`impls/recover_ibc_client.rs`). The source appends the status of the
substitute, as the IBC component prints it. -/
def RecoverIbcClient.checkAndExecute (act : RecoverIbcClient) : BaseM Unit := do
  validateSignerIsSudo "failed to get sudo address"
    "only the sudo address can recover a client"
  let timestamp ← wrapErr "failed to get timestamp" (tryReads Base.getBlockTimestamp)
  let store ← reads fun s => s.ibcStore
  let host ← reads Base.hostInfo
  ensure (ext.ibcClientActive act.clientId timestamp store = false)
    ["cannot recover an active client"]
  ensure (ext.ibcClientActive act.replacementClientId timestamp store = true)
    ["substitute client must be active"]
  let client ← require (ext.ibcClientState act.clientId store) ["subject client state not found"]
  let replacement ← require (ext.ibcClientState act.replacementClientId store)
    ["substitute client state not found"]
  ensure (IbcHeight.lt client.latestHeight replacement.latestHeight = true)
    ["substitute client must have a higher height than that of subject client; subject client height: " ++
      IbcHeight.toText client.latestHeight ++ ", substitute client height: " ++
      IbcHeight.toText replacement.latestHeight]
  lift (ensureRequiredClientStateFieldsMatch client replacement)
  let consensusState ← require
    (ext.ibcConsensusState replacement.latestHeight act.replacementClientId store)
    ["failed to get verified consensus state"]
  wrapErr "failed to put verified consensus state"
    (onIbc (ext.ibcPutConsensusState replacement.latestHeight act.clientId consensusState host))
  writeIbc (ext.ibcPutClient act.clientId
    { client with
      latestHeight := replacement.latestHeight
      trustingPeriod := replacement.trustingPeriod
      chainId := replacement.chainId })

theorem RecoverIbcClient.checkAndExecute_keeps (hR : NonMarketWrites R) (act : RecoverIbcClient) :
    Keeps R (RecoverIbcClient.checkAndExecute act) := by
  have hibc (x : IbcM Unit) : Keeps R (onIbc x) := keeps_onIbc hR.ibcComponent x
  refine Keeps.bind (by simp) fun _ => Keeps.bind (by simp) fun _ => Keeps.bind (by simp) fun _ => ?_
  refine Keeps.bind (by simp) fun _ => Keeps.bind (by simp) fun _ => Keeps.bind (by simp) fun _ => ?_
  refine Keeps.bind (by simp) fun _ => Keeps.bind (by simp) fun _ => Keeps.bind (by simp) fun _ => ?_
  refine Keeps.bind (by simp) fun _ => Keeps.bind (by simp) fun _ => ?_
  exact Keeps.bind ((hibc _).mapErr _) fun _ => keeps_writeIbc hR.ibcComponent _

/-! ## Currency pairs -/

/-- The loop of a currency pair addition: the next id and the count are carried along, and a
pair that exists is skipped. -/
def addCurrencyPairs : List CurrencyPair → ℕ → ℕ → OracleM (ℕ × ℕ)
  | [], nextId, num => pure (nextId, num)
  | pair :: rest, nextId, num => do
    let present ← reads fun o => (o.pairState pair).isSome
    if present then
      addCurrencyPairs rest nextId num
    else do
      writes (Oracle.putCurrencyPairState pair { price := none, nonce := 0, id := nextId })
      let num' ← require (checkedAdd u64Max num 1)
        ["overflow when incrementing number of currency pairs"]
      let nextId' ← require (checkedAdd u64Max nextId 1)
        ["overflow when incrementing next currency pair id"]
      addCurrencyPairs rest nextId' num'

/-- The oracle's part of a currency pair addition. -/
def currencyPairsAddition (pairs : List CurrencyPair) : OracleM Unit := do
  let nextId ← reads Oracle.getNextCurrencyPairId
  let num ← reads Oracle.getNumCurrencyPairs
  let result ← addCurrencyPairs pairs nextId num
  writes (Oracle.putNextCurrencyPairId result.1)
  writes (Oracle.putNumCurrencyPairs result.2)

/-- The loop of a currency pair removal: the count is carried along, and a pair without an id
is skipped. -/
def removeCurrencyPairs : List CurrencyPair → ℕ → OracleM ℕ
  | [], num => pure num
  | pair :: rest, num => do
    let removed ← removeCurrencyPair pair
    if removed then do
      let num' ← require (checkedSub num 1) ["failed to decrement number of currency pairs"]
      removeCurrencyPairs rest num'
    else
      removeCurrencyPairs rest num

/-- The oracle's part of a currency pair removal. -/
def currencyPairsRemoval (pairs : List CurrencyPair) : OracleM Unit := do
  let num ← reads Oracle.getNumCurrencyPairs
  ensure (pairs.length ≤ num) ["cannot remove more currency pairs than exist"]
  let num' ← removeCurrencyPairs pairs num
  writes (Oracle.putNumCurrencyPairs num')

/-- `CurrencyPairsChange::check_and_execute`. -/
def CurrencyPairsChange.checkAndExecute (act : CurrencyPairsChange) : AppM Unit := do
  onBase
    (validateSignerIsSudo "failed to get sudo address from state" "signer is not the sudo key")
  match act with
  | .addition pairs => onOracle (currencyPairsAddition pairs)
  | .removal pairs => onOracle (currencyPairsRemoval pairs)

omit ext in
theorem validateSignerIsSudo_state {readContext message : String} {s s' : Base} {u : Unit}
    (h : validateSignerIsSudo readContext message s = .ok u s') : s' = s := by
  simp only [validateSignerIsSudo, bind_eq_ok, getTransactionContext_eq_ok, mapErr_eq_ok,
    tryReads_eq_ok, ensure_eq_ok, and_assoc, exists_and_left, exists_eq_left] at h
  obtain ⟨_, -, _, -, -, rfl⟩ := h
  rfl

omit ext in
theorem onOracle_base {α : Type} {x : OracleM α} {s s' : State} {a : α}
    (h : onOracle x s = .ok a s') : s'.base = s.base := by
  obtain ⟨t, -, rfl⟩ := zoom_eq_ok.mp h
  rfl

omit ext in
/-- A successful change of currency pairs writes nothing but the oracle. -/
theorem CurrencyPairsChange.checkAndExecute_base {act : CurrencyPairsChange} {s s' : State}
    {u : Unit} (h : CurrencyPairsChange.checkAndExecute act s = .ok u s') :
    s'.base = s.base := by
  unfold CurrencyPairsChange.checkAndExecute at h
  rw [bind_eq_ok] at h
  obtain ⟨_, t, hsudo, h⟩ := h
  obtain ⟨b, hb, rfl⟩ := onBase_eq_ok.mp hsudo
  obtain rfl := validateSignerIsSudo_state hb
  cases act with
  | addition pairs => exact onOracle_base h
  | removal pairs => exact onOracle_base h

end

end Astria.Sequencer
