import Astria.Sequencer.External
import Astria.Lib.Base64
import Mathlib.Data.Finset.Erase

/-!
# Reading and writing the state

The functions of the `StateReadExt` and `StateWriteExt` traits of every component
(`crates/astria-sequencer/src/*/state_ext.rs`) that the handlers use.  A stored value always
deserializes, so a reader fails only where the source fails on an absent key.

Results:
* `increaseBalance_eq_ok`, `decreaseBalance_eq_ok`: the balance updates are exact or fail;
* `bridgeAccountWithdrawalEvent_injective`: two pairs of a bridge account and a withdrawal
  event id never share a key;
* `checkAndSetWithdrawalEvent_eq_ok`: recording an event succeeds exactly when its key is
  not set.
-/

namespace Astria.Sequencer

open Astria.Core Astria.Lib Exec

/-! ## Accounts -/

/-- `get_account_balance`: an absent balance is zero. -/
def Base.balance (s : Base) (address : AddressBytes) (asset : IbcPrefixed) : ℕ :=
  (s.accounts.balances address asset).getD 0

def Base.putAccountBalance (address : AddressBytes) (asset : IbcPrefixed) (balance : ℕ)
    (s : Base) : Base :=
  { s with
    accounts.balances := Function.update s.accounts.balances address
      (Function.update (s.accounts.balances address) asset (some balance)) }

/-- `get_account_nonce`: an absent nonce is zero. -/
def Base.accountNonce (s : Base) (address : AddressBytes) : ℕ :=
  (s.accounts.nonces address).getD 0

def Base.putAccountNonce (address : AddressBytes) (nonce : ℕ) (s : Base) : Base :=
  { s with accounts.nonces := Function.update s.accounts.nonces address (some nonce) }

/-- `increase_balance` (`accounts/state_ext.rs`, lines 221–246). -/
def increaseBalance (address : AddressBytes) (asset : IbcPrefixed) (amount : ℕ) :
    BaseM Unit := do
  let balance ← reads fun s => s.balance address asset
  let new ← require (checkedAdd u128Max balance amount)
    ["failed to update account balance due to overflow"]
  writes (Base.putAccountBalance address asset new)

/-- `decrease_balance` (`accounts/state_ext.rs`, lines 248–272). -/
def decreaseBalance (address : AddressBytes) (asset : IbcPrefixed) (amount : ℕ) :
    BaseM Unit := do
  let balance ← reads fun s => s.balance address asset
  let new ← require (checkedSub balance amount)
    ["subtracting from account balance failed due to insufficient funds"]
  writes (Base.putAccountBalance address asset new)

@[simp] theorem Base.balance_putAccountBalance (s : Base) (a b : AddressBytes)
    (i j : IbcPrefixed) (v : ℕ) :
    (s.putAccountBalance a i v).balance b j = if b = a ∧ j = i then v else s.balance b j := by
  unfold balance putAccountBalance
  by_cases hb : b = a
  · subst hb
    by_cases hj : j = i
    · subst hj
      simp
    · simp [hj]
  · simp [hb]

@[simp] theorem increaseBalance_eq_ok {a : AddressBytes} {i : IbcPrefixed} {n : ℕ}
    {s s' : Base} {u : Unit} :
    increaseBalance a i n s = .ok u s' ↔
      s.balance a i + n ≤ u128Max ∧ s' = s.putAccountBalance a i (s.balance a i + n) := by
  simp [increaseBalance, and_assoc]

@[simp] theorem decreaseBalance_eq_ok {a : AddressBytes} {i : IbcPrefixed} {n : ℕ}
    {s s' : Base} {u : Unit} :
    decreaseBalance a i n s = .ok u s' ↔
      n ≤ s.balance a i ∧ s' = s.putAccountBalance a i (s.balance a i - n) := by
  simp only [decreaseBalance, bind_eq_ok, reads_eq_ok, require_eq_ok, checkedSub_eq_some,
    writes_eq_ok, and_assoc, exists_and_left, exists_eq_left]
  refine and_congr_right fun hle => ⟨?_, ?_⟩
  · rintro ⟨m, hm, rfl⟩
    rw [hm, Nat.add_sub_cancel]
  · rintro rfl
    exact ⟨_, (Nat.sub_add_cancel hle).symm, rfl⟩

/-! ## Address prefixes -/

/-- `get_base_prefix`. -/
def Base.getBasePrefix (s : Base) : Except Report String :=
  match s.prefixes.basePrefix with
  | some p => .ok p
  | none => .error ["no base prefix found in state"]

/-- `get_ibc_compat_prefix`. -/
def Base.getIbcCompatPrefix (s : Base) : Except Report String :=
  match s.prefixes.ibcCompatPrefix with
  | some p => .ok p
  | none => .error ["no ibc compat prefix found in state"]

/-- `ensure_base_prefix`. -/
def ensureBasePrefix (address : Address) : BaseM Unit := do
  let basePrefix ← wrapErr "failed to read base prefix from state" (tryReads Base.getBasePrefix)
  ensure (basePrefix = address.hrp)
    ["address has prefix `" ++ address.hrp ++ "` but only `" ++ basePrefix ++ "` is permitted"]

@[simp] theorem ensureBasePrefix_eq_ok {a : Address} {s s' : Base} {u : Unit} :
    ensureBasePrefix a s = .ok u s' ↔ s.prefixes.basePrefix = some a.hrp ∧ s' = s := by
  simp only [ensureBasePrefix, Base.getBasePrefix, bind_eq_ok, mapErr_eq_ok, tryReads_eq_ok,
    ensure_eq_ok, and_assoc, exists_and_left, exists_eq_left]
  cases s.prefixes.basePrefix with
  | none => simp
  | some p => simp

/-! ## Authority -/

/-- `get_sudo_address`. -/
def Base.getSudoAddress (s : Base) : Except Report AddressBytes :=
  match s.authority.sudoAddress with
  | some a => .ok a
  | none => .error ["sudo key not found"]

@[simp] theorem Base.getSudoAddress_eq_ok {s : Base} {a : AddressBytes} :
    s.getSudoAddress = .ok a ↔ s.authority.sudoAddress = some a := by
  unfold getSudoAddress
  cases s.authority.sudoAddress <;> simp

/-- `get_ibc_sudo_address`. -/
def Base.getIbcSudoAddress (s : Base) : Except Report AddressBytes :=
  match s.ibc.ibcSudoAddress with
  | some a => .ok a
  | none => .error ["ibc sudo address not found"]

/-- `get_validator_count`. -/
def Base.getValidatorCount (s : Base) : Except Report ℕ :=
  match s.nonverifiable.validatorCount with
  | some n => .ok n
  | none => .error ["validator count not found in state"]

/-- `pre_aspen_get_validator_set`. -/
def Base.preAspenGetValidatorSet (s : Base) : Except Report ValidatorSet :=
  match s.authority.preAspenValidatorSet with
  | some v => .ok v
  | none => .error ["validator set not found"]

/-- A validator as `storage::ValidatorSet` keeps it: the name is not stored, and is read as the empty one. -/
def withoutName (v : ValidatorUpdate) : ValidatorUpdate := { v with name := "" }

/-- What a stored set is read as. -/
def ValidatorSet.withoutNames (set : ValidatorSet) : ValidatorSet :=
  ⟨set.inner.map fun entry => (entry.1, withoutName entry.2)⟩

/-- `get_block_validator_updates`: an absent set is empty. -/
def Base.blockValidatorUpdates (s : Base) : ValidatorSet :=
  s.nonverifiable.blockValidatorUpdates.getD ⟨[]⟩

def Base.putSudoAddress (a : AddressBytes) (s : Base) : Base :=
  { s with authority.sudoAddress := some a }

def Base.putBlockValidatorUpdates (v : ValidatorSet) (s : Base) : Base :=
  { s with nonverifiable.blockValidatorUpdates := some v.withoutNames }

def Base.clearBlockValidatorUpdates (s : Base) : Base :=
  { s with nonverifiable.blockValidatorUpdates := none }

def Base.putValidatorCount (n : ℕ) (s : Base) : Base :=
  { s with nonverifiable.validatorCount := some n }

def Base.putValidator [External] (v : ValidatorUpdate) (s : Base) : Base :=
  { s with
    authority.validators :=
      Function.update s.authority.validators (addressBytes v.verificationKey) (some v) }

def Base.deleteValidator (a : AddressBytes) (s : Base) : Base :=
  { s with authority.validators := Function.update s.authority.validators a none }

/-- `remove_validator`: whether there was one to remove. -/
def removeValidator (a : AddressBytes) : BaseM Bool := do
  let present ← reads fun s => (s.authority.validators a).isSome
  if present then
    writes (Base.deleteValidator a)
    pure true
  else
    pure false

def Base.preAspenPutValidatorSet (v : ValidatorSet) (s : Base) : Base :=
  { s with authority.preAspenValidatorSet := some v.withoutNames }

def Base.aspenUpgradeRemoveValidatorSet (s : Base) : Base :=
  { s with authority.preAspenValidatorSet := none }

namespace ValidatorSet

/-- `BTreeMap::insert` into the list of validators by ascending address. -/
def insertInto (address : AddressBytes) (update : ValidatorUpdate) :
    List (AddressBytes × ValidatorUpdate) → List (AddressBytes × ValidatorUpdate)
  | [] => [(address, update)]
  | (a, v) :: rest =>
    if address.toList < a.toList then (address, update) :: (a, v) :: rest
    else if address = a then (address, update) :: rest
    else (a, v) :: insertInto address update rest

def insert [External] (set : ValidatorSet) (update : ValidatorUpdate) : ValidatorSet :=
  ⟨insertInto (addressBytes update.verificationKey) update set.inner⟩

def remove (set : ValidatorSet) (address : AddressBytes) : ValidatorSet :=
  ⟨set.inner.filter fun entry => entry.1 ≠ address⟩

def get (set : ValidatorSet) (address : AddressBytes) : Option ValidatorUpdate :=
  (set.inner.find? fun entry => entry.1 = address).map (·.2)

/-- `apply_updates`: a power of zero removes the validator. -/
def applyUpdates (set updates : ValidatorSet) : ValidatorSet :=
  ⟨updates.inner.foldl
    (fun acc entry =>
      if entry.2.power = 0 then acc.filter fun e => e.1 ≠ entry.1
      else insertInto entry.1 entry.2 acc)
    set.inner⟩

/-- `try_into_cometbft`. -/
def toCometbft (set : ValidatorSet) : List CometbftValidatorUpdate :=
  set.inner.map fun entry => { pubKey := entry.2.verificationKey, power := entry.2.power }

end ValidatorSet

/-! ## Assets -/

/-- `map_ibc_to_trace_prefixed_asset`. -/
def Base.mapIbcToTracePrefixedAsset (s : Base) (asset : IbcPrefixed) : Option TracePrefixed :=
  s.assets.ibcAssets asset

/-- `put_ibc_asset`. -/
def Base.putIbcAsset [External] (asset : TracePrefixed) (s : Base) : Base :=
  { s with
    assets.ibcAssets := Function.update s.assets.ibcAssets asset.toIbcPrefixed (some asset) }

/-! ## Chain -/

/-- `get_chain_id`. -/
def Base.getChainId (s : Base) : Except Report String :=
  match s.chain.chainId with
  | some c => .ok c
  | none => .error ["chain id not found in state"]

/-- `get_block_height`. -/
def Base.getBlockHeight (s : Base) : Except Report ℕ :=
  match s.chain.blockHeight with
  | some h => .ok h
  | none => .error ["block height not found in state"]

/-- `get_block_timestamp`. -/
def Base.getBlockTimestamp (s : Base) : Except Report Time :=
  match s.chain.blockTimestamp with
  | some t => .ok t
  | none => .error ["block timestamp not found"]

def Base.putBlockHeight (height : ℕ) (s : Base) : Base :=
  { s with chain.blockHeight := some height }

def Base.putBlockTimestamp (time : Time) (s : Base) : Base :=
  { s with chain.blockTimestamp := some time }

def Base.putUpgradeChangeInfo (upgrade change : String) (info : ChangeInfo) (s : Base) : Base :=
  { s with
    chain.upgradeChangeInfos := Function.update s.chain.upgradeChangeInfos upgrade
      (Function.update (s.chain.upgradeChangeInfos upgrade) change (some info)) }

/-! ## Events and the transaction context -/

/-- `state.record`. -/
def Base.record (event : Event) (s : Base) : Base :=
  { s with ephemeral.events := s.ephemeral.events ++ [event] }

def Base.putTransactionContext (context : TransactionContext) (s : Base) : Base :=
  { s with ephemeral.transactionContext := some context }

def Base.deleteCurrentTransactionContext (s : Base) : Base :=
  { s with ephemeral.transactionContext := none }

/-- `get_transaction_context().expect(..)`: the source panics on an absent context, which no
handler meets because `Transaction::check_and_execute` puts it first. -/
def getTransactionContext : BaseM TransactionContext :=
  tryReads fun s =>
    match s.ephemeral.transactionContext with
    | some c => .ok c
    | none => .error ["transaction source must be present in state when executing an action"]

@[simp] theorem getTransactionContext_eq_ok {s s' : Base} {c : TransactionContext} :
    getTransactionContext s = .ok c s' ↔ s.ephemeral.transactionContext = some c ∧ s' = s := by
  unfold getTransactionContext
  rw [tryReads_eq_ok]
  cases s.ephemeral.transactionContext <;> simp

/-! ## Bridge -/

def Base.isABridgeAccount (s : Base) (address : AddressBytes) : Bool :=
  (s.bridge.rollupId address).isSome

/-- `get_bridge_account_ibc_asset`. -/
def Base.getBridgeAccountIbcAsset (s : Base) (address : AddressBytes) :
    Except Report IbcPrefixed :=
  match s.bridge.ibcAsset address with
  | some asset => .ok asset
  | none => .error ["bridge account asset ID not found"]

@[simp] theorem Base.getBridgeAccountIbcAsset_eq_ok {s : Base} {a : AddressBytes}
    {i : IbcPrefixed} : s.getBridgeAccountIbcAsset a = .ok i ↔ s.bridge.ibcAsset a = some i := by
  unfold getBridgeAccountIbcAsset
  cases s.bridge.ibcAsset a <;> simp

def Base.putBridgeAccountRollupId (a : AddressBytes) (id : RollupId) (s : Base) : Base :=
  { s with bridge.rollupId := Function.update s.bridge.rollupId a (some id) }

def Base.putBridgeAccountIbcAsset (a : AddressBytes) (asset : IbcPrefixed) (s : Base) : Base :=
  { s with bridge.ibcAsset := Function.update s.bridge.ibcAsset a (some asset) }

def Base.putBridgeAccountSudoAddress (a sudoAddr : AddressBytes) (s : Base) : Base :=
  { s with bridge.sudoAddress := Function.update s.bridge.sudoAddress a (some sudoAddr) }

def Base.putBridgeAccountWithdrawerAddress (a withdrawer : AddressBytes) (s : Base) : Base :=
  { s with
    bridge.withdrawerAddress := Function.update s.bridge.withdrawerAddress a (some withdrawer) }

def Base.putLastTransactionId (a : AddressBytes) (id : TransactionId) (s : Base) : Base :=
  { s with
    nonverifiable.lastTransactionId :=
      Function.update s.nonverifiable.lastTransactionId a (some id) }

/-- `keys::bridge_account_withdrawal_event` (`bridge/storage/keys.rs`): the account is the
padded base64 form of its 20 bytes. -/
def bridgeAccountWithdrawalEvent (address : AddressBytes) (eventId : String) : String :=
  "bridge/account/" ++ String.ofList (Base64.encode address.toList) ++ "/withdrawal_event/" ++
    eventId

/-- Two pairs of a bridge account and a withdrawal event id never share a key. -/
theorem bridgeAccountWithdrawalEvent_injective {a b : AddressBytes} {i j : String}
    (h : bridgeAccountWithdrawalEvent a i = bridgeAccountWithdrawalEvent b j) :
    a = b ∧ i = j := by
  unfold bridgeAccountWithdrawalEvent at h
  have hl := congrArg String.toList h
  simp only [String.toList_append, String.toList_ofList, List.append_assoc] at hl
  have hlen : a.toList.length = b.toList.length := by simp
  have henc : (Base64.encode a.toList).length = (Base64.encode b.toList).length := by
    rw [Base64.length_encode, Base64.length_encode, hlen]
  obtain ⟨hab, hij⟩ := List.append_inj (List.append_cancel_left hl) henc
  refine ⟨?_, ?_⟩
  · exact List.Vector.toList_injective (Base64.encode_injective hlen hab)
  · exact String.toList_inj.mp (List.append_cancel_left hij)

/-- The block number recorded for a withdrawal event, if any. -/
def Base.withdrawalEvent (s : Base) (address : AddressBytes) (eventId : String) : Option ℕ :=
  s.bridge.withdrawalEvents (bridgeAccountWithdrawalEvent address eventId)

def Base.putWithdrawalEvent (address : AddressBytes) (eventId : String) (blockNum : ℕ)
    (s : Base) : Base :=
  { s with
    bridge.withdrawalEvents := Function.update s.bridge.withdrawalEvents
      (bridgeAccountWithdrawalEvent address eventId) (some blockNum) }

/-- `check_and_set_withdrawal_event_block_for_bridge_account` (`bridge/state_ext.rs`, lines
259–288). -/
def checkAndSetWithdrawalEvent (address : AddressBytes) (eventId : String) (blockNum : ℕ) :
    BaseM Unit := do
  let existing ← reads fun s => s.withdrawalEvent address eventId
  match existing with
  | some existingBlockNum =>
    fail ["withdrawal event ID " ++ eventId ++ " used by block number " ++
      toString existingBlockNum]
  | none => writes (Base.putWithdrawalEvent address eventId blockNum)

/-- Recording an event succeeds exactly when its key is not set. -/
@[simp] theorem checkAndSetWithdrawalEvent_eq_ok {a : AddressBytes} {i : String} {n : ℕ}
    {s s' : Base} {u : Unit} :
    checkAndSetWithdrawalEvent a i n s = .ok u s' ↔
      s.withdrawalEvent a i = none ∧ s' = s.putWithdrawalEvent a i n := by
  simp only [checkAndSetWithdrawalEvent, bind_eq_ok, reads_eq_ok, and_assoc, exists_and_left,
    exists_eq_left]
  cases s.withdrawalEvent a i with
  | none => simp
  | some m => simp

@[simp] theorem Base.withdrawalEvent_putWithdrawalEvent (s : Base) (a b : AddressBytes)
    (i j : String) (n : ℕ) :
    (s.putWithdrawalEvent a i n).withdrawalEvent b j =
      if b = a ∧ j = i then some n else s.withdrawalEvent b j := by
  unfold withdrawalEvent putWithdrawalEvent
  by_cases h : b = a ∧ j = i
  · obtain ⟨rfl, rfl⟩ := h
    simp
  · have hne : bridgeAccountWithdrawalEvent b j ≠ bridgeAccountWithdrawalEvent a i := fun he =>
      h (bridgeAccountWithdrawalEvent_injective he)
    simp [h, hne]

/-- `cache_deposit_event`. -/
def Base.cacheDepositEvent (deposit : Deposit) (s : Base) : Base :=
  { s with ephemeral.deposits := s.ephemeral.deposits ++ [deposit] }

/-- `get_cached_block_deposits`: the deposits cached for a rollup. -/
def Base.cachedBlockDeposits (s : Base) (id : RollupId) : List Deposit :=
  s.ephemeral.deposits.filter fun d => d.rollupId = id

/-! ## Fees -/

def Base.putFees (kind : ActionKind) (fees : FeeComponents) (s : Base) : Base :=
  { s with fees.components := Function.update s.fees.components kind (some fees) }

def Base.isAllowedFeeAsset (s : Base) (asset : IbcPrefixed) : Bool :=
  asset ∈ s.fees.allowedFeeAssets

def Base.putAllowedFeeAsset (asset : IbcPrefixed) (s : Base) : Base :=
  { s with fees.allowedFeeAssets := insert asset s.fees.allowedFeeAssets }

def Base.deleteAllowedFeeAsset (asset : IbcPrefixed) (s : Base) : Base :=
  { s with fees.allowedFeeAssets := s.fees.allowedFeeAssets.erase asset }

/-- `add_fee_to_block_fees`: records the event and appends the fee. -/
def Base.addFeeToBlockFees (fee : Fee) (s : Base) : Base :=
  { s.record (.txFees fee) with ephemeral.blockFees := s.ephemeral.blockFees ++ [fee] }

/-! ## IBC -/

/-- `get_ibc_channel_balance`: an absent balance is zero. -/
def Base.ibcChannelBalance (s : Base) (channel : ChannelId) (asset : IbcPrefixed) : ℕ :=
  (s.ibc.channelBalances channel asset).getD 0

def Base.putIbcChannelBalance (channel : ChannelId) (asset : IbcPrefixed) (balance : ℕ)
    (s : Base) : Base :=
  { s with
    ibc.channelBalances := Function.update s.ibc.channelBalances channel
      (Function.update (s.ibc.channelBalances channel) asset (some balance)) }

/-- `decrease_ibc_channel_balance`. -/
def decreaseIbcChannelBalance (channel : ChannelId) (asset : IbcPrefixed) (amount : ℕ) :
    BaseM Unit := do
  let old ← reads fun s => s.ibcChannelBalance channel asset
  let new ← require (checkedSub old amount) ["insufficient funds on ibc channel"]
  writes (Base.putIbcChannelBalance channel asset new)

@[simp] theorem decreaseIbcChannelBalance_eq_ok {c : ChannelId} {i : IbcPrefixed} {n : ℕ}
    {s s' : Base} {u : Unit} :
    decreaseIbcChannelBalance c i n s = .ok u s' ↔
      n ≤ s.ibcChannelBalance c i ∧
        s' = s.putIbcChannelBalance c i (s.ibcChannelBalance c i - n) := by
  simp only [decreaseIbcChannelBalance, bind_eq_ok, reads_eq_ok, require_eq_ok,
    checkedSub_eq_some, writes_eq_ok, and_assoc, exists_and_left, exists_eq_left]
  refine and_congr_right fun hle => ⟨?_, ?_⟩
  · rintro ⟨m, hm, rfl⟩
    rw [hm, Nat.add_sub_cancel]
  · rintro rfl
    exact ⟨_, (Nat.sub_add_cancel hle).symm, rfl⟩

def Base.putIbcSudoAddress (a : AddressBytes) (s : Base) : Base :=
  { s with ibc.ibcSudoAddress := some a }

def Base.isIbcRelayer (s : Base) (a : AddressBytes) : Bool := a ∈ s.ibc.relayers

def Base.putIbcRelayerAddress (a : AddressBytes) (s : Base) : Base :=
  { s with ibc.relayers := insert a s.ibc.relayers }

def Base.deleteIbcRelayerAddress (a : AddressBytes) (s : Base) : Base :=
  { s with ibc.relayers := s.ibc.relayers.erase a }

/-! ## Market map -/

def Base.putMarketMap (m : MarketMap) (s : Base) : Base :=
  { s with marketMap.marketMap := some m }

def Base.putMarketMapLastUpdatedHeight (height : ℕ) (s : Base) : Base :=
  { s with marketMap.lastUpdated := some height }

/-! ## Price oracle -/

abbrev OracleM := Exec Report Oracle

namespace Oracle

/-- `get_num_currency_pairs`: an absent count is zero. -/
def getNumCurrencyPairs (o : Oracle) : ℕ := o.numCurrencyPairs.getD 0

/-- `get_next_currency_pair_id`: an absent id is zero. -/
def getNextCurrencyPairId (o : Oracle) : ℕ := o.nextCurrencyPairId.getD 0

def putNumCurrencyPairs (n : ℕ) (o : Oracle) : Oracle := { o with numCurrencyPairs := some n }

def putNextCurrencyPairId (n : ℕ) (o : Oracle) : Oracle :=
  { o with nextCurrencyPairId := some n }

/-- `put_currency_pair_state`: the state and both directions of the id. -/
def putCurrencyPairState (pair : CurrencyPair) (state : CurrencyPairState) (o : Oracle) :
    Oracle :=
  { o with
    pairState := Function.update o.pairState pair (some state)
    pairToId := Function.update o.pairToId pair (some state.id)
    idToPair := Function.update o.idToPair state.id (some pair) }

/-- `remove_currency_pair`: what is left when the pair has an id. -/
def deleteCurrencyPair (pair : CurrencyPair) (id : ℕ) (o : Oracle) : Oracle :=
  { o with
    pairToId := Function.update o.pairToId pair none
    idToPair := Function.update o.idToPair id none
    pairState := Function.update o.pairState pair none }

end Oracle

/-- `remove_currency_pair` (`oracles/price_feed/oracle/state_ext.rs`, lines 293–307): whether
the pair was there. -/
def removeCurrencyPair (pair : CurrencyPair) : OracleM Bool := do
  let id ← reads fun o => o.pairToId pair
  match id with
  | none => pure false
  | some id =>
    writes (Oracle.deleteCurrencyPair pair id)
    pure true

/-- `put_price_for_currency_pair` (`oracles/price_feed/oracle/state_ext.rs`, lines
274–291). -/
def putPriceForCurrencyPair (pair : CurrencyPair) (price : QuotePrice) : OracleM Unit := do
  let current ← reads fun o => o.pairState pair
  let state ← require current ["currency pair state not found"]
  let nonce ← require (checkedAdd u64Max state.nonce 1) ["increment nonce overflowed"]
  writes (Oracle.putCurrencyPairState pair { state with price := some price, nonce := nonce })

/-- Runs a computation of the oracle on the whole state. -/
def onOracle {α : Type} (x : OracleM α) : AppM α :=
  Exec.zoom State.oracle (fun o s => { s with oracle := o }) x

end Astria.Sequencer
