import Astria.Sequencer.Fees
import Astria.Sequencer.ActionHandler.Bridge
import Astria.Sequencer.ActionHandler.Admin
import Astria.Sequencer.ActionHandler.Ics20

/-!
# Transactions

The checks and the execution of a whole transaction
(`action_handler/impls/transaction.rs`, `transaction/checks.rs`).

Results:
* `executeTransaction_error`: a transaction that fails leaves the state as it was;
* `executeTransaction_ok`: one that succeeds has passed its stateless checks and its execution.
-/

namespace Astria.Sequencer

open Astria.Core Astria.Lib Exec

/-- The external functions on transactions. -/
class TransactionCodec where
  /-- The protobuf encoding of a transaction, which its id hashes. -/
  encodeTransaction : Transaction → Bytes

section

variable [ext : External] [codec : TransactionCodec]

/-- `Transaction::id`. -/
def transactionId (tx : Transaction) : TransactionId :=
  ext.sha256 (codec.encodeTransaction tx)

/-- The signer of a transaction. -/
def signer (tx : Transaction) : AddressBytes := addressBytes tx.verificationKey

/-! ## Costs -/

/-- The costs of a transaction by asset, as a map without repeated keys. -/
abbrev Costs := List (IbcPrefixed × ℕ)

/-- `entry(asset).and_modify(saturating_add).or_insert(amount)`. -/
def addCost (asset : IbcPrefixed) (amount : ℕ) : Costs → Costs
  | [] => [(asset, amount)]
  | (a, total) :: rest =>
    if a = asset then (a, saturatingAdd u128Max total amount) :: rest
    else (a, total) :: addCost asset amount rest

/-- `get_fees_for_transaction` (`fees/query.rs`, lines 286–394). -/
def getFeesForTransaction (s : Base) : List Action → Costs → Except Report Costs
  | [], costs => .ok costs
  | act :: rest, costs =>
    match s.fees.components act.kind with
    | none =>
      .error ["fees not found for `" ++ act.kind.snakeCaseName ++ "` action, hence it is disabled"]
    | some fees =>
      match feeAsset act with
      | none => getFeesForTransaction s rest costs
      | some denom =>
        getFeesForTransaction s rest (addCost denom.toIbcPrefixed (totalFees fees act) costs)

/-- What an action transfers, with the asset: an unlock and a bridge transfer move the asset
of their bridge account. -/
def transferOf (s : Base) : Action → Except Report (Option (IbcPrefixed × ℕ))
  | .transfer act => .ok (some (act.asset.toIbcPrefixed, act.amount))
  | .ics20Withdrawal act => .ok (some (act.denom.toIbcPrefixed, act.amount))
  | .bridgeLock act => .ok (some (act.asset.toIbcPrefixed, act.amount))
  | .bridgeUnlock act =>
    match s.getBridgeAccountIbcAsset act.bridgeAddress.bytes with
    | .ok asset => .ok (some (asset, act.amount))
    | .error e => .error ("failed to get bridge account asset id" :: e)
  | .bridgeTransfer act =>
    match s.getBridgeAccountIbcAsset act.bridgeAddress.bytes with
    | .ok asset => .ok (some (asset, act.amount))
    | .error e => .error ("failed to get bridge account asset id" :: e)
  | _ => .ok none

/-- `add_total_transfers_for_transaction` (`transaction/checks.rs`). -/
def addTotalTransfers (s : Base) : List Action → Costs → Except Report Costs
  | [], costs => .ok costs
  | act :: rest, costs =>
    match transferOf s act with
    | .error e => .error e
    | .ok none => addTotalTransfers s rest costs
    | .ok (some (asset, amount)) => addTotalTransfers s rest (addCost asset amount costs)

/-- `get_total_transaction_cost`. -/
def getTotalTransactionCost (tx : Transaction) (s : Base) : Except Report Costs :=
  match getFeesForTransaction s tx.actions.inner [] with
  | .error e => .error ("failed to get fees for transaction" :: e)
  | .ok fees =>
    match addTotalTransfers s tx.actions.inner fees with
    | .error e => .error ("failed to add total transfers for transaction" :: e)
    | .ok costs => .ok costs

/-- `check_balance_for_total_fees_and_transfers`: every cost is charged to the signer. -/
def checkBalanceForTotalFeesAndTransfers (tx : Transaction) : BaseM Unit := do
  let costs ← wrapErr "failed to get transaction costs"
    (tryReads (getTotalTransactionCost tx))
  forEach costs fun cost => do
    let balance ← reads fun s => s.balance (signer tx) cost.1
    ensure (cost.2 ≤ balance)
      ["insufficient funds for asset " ++ (Denom.ibcPrefixed cost.1).toString]

/-! ## Stateless checks -/

/-- `RollupDataSubmission::check_stateless`. -/
def RollupDataSubmission.checkStateless (act : RollupDataSubmission) : Except Report Unit :=
  if act.data = [] then .error ["cannot have empty data for sequence action"] else .ok ()

/-- `check_stateless` of one action: most kinds check nothing. -/
def Action.checkStateless : Action → Except Report Unit
  | .rollupDataSubmission act => RollupDataSubmission.checkStateless act
  | .ibc act => ext.ibcCheckStateless act
  | .ics20Withdrawal act => Ics20Withdrawal.checkStateless act
  | .bridgeUnlock act => BridgeUnlock.checkStateless act
  | .bridgeTransfer act => BridgeUnlock.checkStateless (BridgeTransfer.unlock act)
  | _ => .ok ()

/-- The stateless checks of a list of actions, under the name of the action that fails. -/
def checkActionsStateless : List Action → Except Report Unit
  | [] => .ok ()
  | act :: rest =>
    match Action.checkStateless act with
    | .ok _ => checkActionsStateless rest
    | .error e => .error (("stateless check failed for " ++ act.kind.name ++ " action") :: e)

/-- `Transaction::check_stateless`. -/
def Transaction.checkStateless (tx : Transaction) : Except Report Unit :=
  if tx.actions.inner = [] then .error ["must have at least one action"]
  else checkActionsStateless tx.actions.inner

/-! ## Execution -/

/-- `check_and_execute` of an action other than a relayed IBC message. -/
def Action.checkAndExecute : Action → AppM Unit
  | .rollupDataSubmission _ => pure ()
  | .transfer act => onBase (Transfer.checkAndExecute act)
  | .validatorUpdate act => onBase (ValidatorUpdate.checkAndExecute act)
  | .sudoAddressChange act => onBase (SudoAddressChange.checkAndExecute act)
  | .ibc act => onBase (executeIbcRelay act)
  | .ibcSudoChange act => onBase (IbcSudoChange.checkAndExecute act)
  | .ics20Withdrawal act => onBase (Ics20Withdrawal.checkAndExecute act)
  | .ibcRelayerChange act => onBase (IbcRelayerChange.checkAndExecute act)
  | .feeAssetChange act => onBase (FeeAssetChange.checkAndExecute act)
  | .initBridgeAccount act => onBase (InitBridgeAccount.checkAndExecute act)
  | .bridgeLock act => onBase (BridgeLock.checkAndExecute act)
  | .bridgeUnlock act => onBase (BridgeUnlock.checkAndExecute act)
  | .bridgeSudoChange act => onBase (BridgeSudoChange.checkAndExecute act)
  | .bridgeTransfer act => onBase (BridgeTransfer.checkAndExecute act)
  | .feeChange act => onBase (FeeChange.checkAndExecute act)
  | .recoverIbcClient act => onBase (RecoverIbcClient.checkAndExecute act)
  | .currencyPairsChange act => CurrencyPairsChange.checkAndExecute act
  | .marketsChange act => onBase (MarketsChange.checkAndExecute act)

/-- The context that `Transaction::check_and_execute` puts on the error of an action. -/
def ActionKind.executionContext : ActionKind → String
  | .rollupDataSubmission => "executing sequence action failed"
  | .transfer => "executing transfer action failed"
  | .validatorUpdate => "executing validor update"
  | .sudoAddressChange => "executing sudo address change failed"
  | .ibcRelay => "failed executing ibc action"
  | .ibcSudoChange => "executing ibc sudo change failed"
  | .ics20Withdrawal => "failed executing ics20 withdrawal"
  | .ibcRelayerChange => "failed executing ibc relayer change"
  | .feeAssetChange => "failed executing fee asseet change"
  | .initBridgeAccount => "failed executing init bridge account"
  | .bridgeLock => "failed executing bridge lock"
  | .bridgeUnlock => "failed executing bridge unlock"
  | .bridgeSudoChange => "failed executing bridge sudo change"
  | .bridgeTransfer => "failed executing bridge transfer"
  | .feeChange => "executing fee change failed"
  | .recoverIbcClient => "failed executing recover ibc client"
  | .currencyPairsChange => "failed executing currency pairs change"
  | .marketsChange => "failed executing markets change"

/-- One action of a transaction: a relayed IBC message needs a relayer and pays no fee, any
other action is executed and pays its fee. -/
def executeAction (source : AddressBytes) (act : Action) : AppM Unit :=
  match act with
  | .ibc _ => do
    onBase do
      let isRelayer ← reads fun s => s.isIbcRelayer source
      ensure (isRelayer = true) ["only IBC sudo address can execute IBC actions"]
    wrapErr (ActionKind.executionContext act.kind) (Action.checkAndExecute act)
  | _ =>
    wrapErr (ActionKind.executionContext act.kind) do
      Action.checkAndExecute act
      onBase (checkAndPayFees act)

/-- The loop over the actions, each under its position. -/
def executeActions (source : AddressBytes) (id : TransactionId) : List Action → ℕ → AppM Unit
  | [], _ => pure ()
  | act :: rest, position => do
    onBase (writes (Base.putTransactionContext
      { addressBytes := source, transactionId := id, positionInTransaction := position }))
    executeAction source act
    executeActions source id rest (position + 1)

/-- The text of `InvalidNonce`. -/
def invalidNonce (nonce : ℕ) : String :=
  "provided nonce " ++ toString nonce ++ " does not match expected next nonce"

/-- What `Transaction::check_and_execute` does before the first action: the chain id, the
nonce and the total cost are checked, and the nonce is incremented. -/
def prepareTransaction (tx : Transaction) : BaseM Unit := do
  writes (Base.putTransactionContext
    { addressBytes := signer tx, transactionId := transactionId tx, positionInTransaction := 0 })
  let chainId ← tryReads Base.getChainId
  ensure (tx.params.chainId = chainId)
    ["provided chain id " ++ tx.params.chainId ++ " does not match expected chain id"]
  let nonce ← reads fun s => s.accountNonce (signer tx)
  ensure (nonce = tx.params.nonce) [invalidNonce tx.params.nonce]
  wrapErr "failed to check balance for total fees and transfers"
    (checkBalanceForTotalFeesAndTransfers tx)
  let isBridge ← reads fun s => s.isABridgeAccount (signer tx)
  if isBridge then
    writes (Base.putLastTransactionId (signer tx) (transactionId tx))
  else
    pure ()
  let next ← require (checkedAdd u32Max nonce 1)
    ["overflow occurred incrementing stored nonce"]
  writes (Base.putAccountNonce (signer tx) next)

/-- `Transaction::check_and_execute` (`impls/transaction.rs`). -/
def Transaction.checkAndExecute (tx : Transaction) : AppM Unit := do
  onBase (prepareTransaction tx)
  executeActions (signer tx) (transactionId tx) tx.actions.inner 0
  onBase (writes Base.deleteCurrentTransactionContext)

/-- The events that a delta has recorded. -/
def State.events (s : State) : List Event := s.base.ephemeral.events

/-- A delta on top of another one starts with no events of its own. -/
def State.withEvents (events : List Event) (s : State) : State :=
  { s with base.ephemeral.events := events }

/-- `App::execute_transaction` (`app/mod.rs`, lines 1362–1410): the transaction runs on a delta
of its own, which is applied if it succeeds and dropped otherwise.  The result holds the
events of the transaction. -/
def executeTransaction (tx : Transaction) (s : State) : Except Report (List Event) × State :=
  match Transaction.checkStateless tx with
  | .error e => (.error ("stateless check failed" :: e), s)
  | .ok _ =>
    match Transaction.checkAndExecute tx (s.withEvents []) with
    | .ok _ s' => (.ok s'.events, s'.withEvents s.events)
    | .error e _ => (.error ("failed executing transaction" :: e), s)

/-- A transaction that fails leaves the state as it was. -/
theorem executeTransaction_error {tx : Transaction} {s s' : State} {e : Report}
    (h : executeTransaction tx s = (.error e, s')) : s' = s := by
  unfold executeTransaction at h
  split at h
  · exact (Prod.mk.inj h).2.symm
  · split at h
    · cases h
    · exact (Prod.mk.inj h).2.symm

/-- A transaction that succeeds passes its stateless checks and its execution. -/
theorem executeTransaction_ok {tx : Transaction} {s s' : State} {events : List Event} :
    executeTransaction tx s = (.ok events, s') ↔
      Transaction.checkStateless tx = .ok () ∧ ∃ t,
        Transaction.checkAndExecute tx (s.withEvents []) = .ok () t ∧ events = t.events ∧
          s' = t.withEvents s.events := by
  unfold executeTransaction
  cases hless : Transaction.checkStateless tx with
  | error e => simp
  | ok u =>
    cases hexec : Transaction.checkAndExecute tx (s.withEvents []) with
    | error e t => simp
    | ok v t => simp [eq_comm]

/-- A transaction that succeeds is prepared and runs its actions; its context is deleted at the end. -/
theorem executeTransaction_parts {tx : Transaction} {s s' : State} {events : List Event}
    (h : executeTransaction tx s = (.ok events, s')) :
    Transaction.checkStateless tx = .ok () ∧ ∃ b r,
      prepareTransaction tx (s.withEvents []).base = .ok () b ∧
      executeActions (signer tx) (transactionId tx) tx.actions.inner 0
        { s.withEvents [] with base := b } = .ok () r ∧
      s' = State.withEvents s.events { r with base := r.base.deleteCurrentTransactionContext } := by
  obtain ⟨hless, t, hexec, -, rfl⟩ := executeTransaction_ok.mp h
  simp only [Transaction.checkAndExecute, bind_eq_ok] at hexec
  obtain ⟨_, p, hprep, _, r, hacts, hdelete⟩ := hexec
  obtain ⟨b, hb, rfl⟩ := onBase_eq_ok.mp hprep
  obtain ⟨d, hd, rfl⟩ := onBase_eq_ok.mp hdelete
  rw [writes_eq_ok] at hd
  subst hd
  exact ⟨hless, b, r, hb, hacts, rfl⟩

end

end Astria.Sequencer
