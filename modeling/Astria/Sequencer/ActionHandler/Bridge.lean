import Astria.Sequencer.StateExt

/-!
# Transfers and bridge actions

The handlers that move funds between accounts of the sequencer and that configure bridge
accounts (`crates/astria-sequencer/src/action_handler/impls`): transfers, bridge locks,
unlocks and transfers, and the two actions that write a bridge account's configuration.

Results:
* `executeTransfer_eq_ok`, `checkTransfer_eq_ok`: what the shared helpers check and change;
* `executeBridgeLock_eq_ok`: a lock moves the signer's funds and caches one deposit;
* one `..._eq_ok` lemma for each handler: the checks that a successful run has passed and
  the state it leaves.
-/

namespace Astria.Sequencer

open Astria.Core Astria.Lib Exec

section

variable [External]

/-! ## Shared helpers -/

/-- `execute_transfer` (`action_handler/mod.rs`, lines 54–74). -/
def executeTransfer (act : Transfer) (source : AddressBytes) : BaseM Unit := do
  wrapErr "failed decreasing `from` account balance"
    (decreaseBalance source act.asset.toIbcPrefixed act.amount)
  wrapErr "failed increasing `to` account balance"
    (increaseBalance act.toAddress.bytes act.asset.toIbcPrefixed act.amount)

/-- The withdrawer check of `check_transfer` for a bridge account. -/
def checkWithdrawer (source : AddressBytes) : BaseM Unit := do
  let isBridge ← reads fun s => s.isABridgeAccount source
  if isBridge then
    let context ← getTransactionContext
    let stored ← reads fun s => s.bridge.withdrawerAddress source
    let withdrawer ← require stored ["bridge account must have a withdrawer address set"]
    ensure (context.addressBytes = withdrawer)
      ["signer is not the authorized withdrawer for the bridge account"]
  else
    pure ()

/-- `check_transfer` (`action_handler/mod.rs`, lines 76–120). -/
def checkTransfer (act : Transfer) (source : AddressBytes) : BaseM Unit := do
  wrapErr "failed ensuring that the destination address matches the permitted base prefix"
    (ensureBasePrefix act.toAddress)
  checkWithdrawer source
  let balance ← reads fun s => s.balance source act.asset.toIbcPrefixed
  ensure (act.amount ≤ balance) ["insufficient funds for transfer"]

/-- Whether `source` has the amount and the credit to `target` does not overflow. -/
def Base.CanMove (s : Base) (source target : AddressBytes) (asset : IbcPrefixed) (amount : ℕ) :
    Prop :=
  amount ≤ s.balance source asset ∧
    (s.putAccountBalance source asset (s.balance source asset - amount)).balance target asset +
      amount ≤ u128Max

/-- The state after `amount` of `asset` moved from one account to another. -/
def Base.move (source target : AddressBytes) (asset : IbcPrefixed) (amount : ℕ) (s : Base) :
    Base :=
  let debited := s.putAccountBalance source asset (s.balance source asset - amount)
  debited.putAccountBalance target asset (debited.balance target asset + amount)

@[simp] theorem executeTransfer_eq_ok {act : Transfer} {source : AddressBytes} {s s' : Base}
    {u : Unit} :
    executeTransfer act source s = .ok u s' ↔
      s.CanMove source act.toAddress.bytes act.asset.toIbcPrefixed act.amount ∧
      s' = s.move source act.toAddress.bytes act.asset.toIbcPrefixed act.amount := by
  simp only [executeTransfer, bind_eq_ok, mapErr_eq_ok, decreaseBalance_eq_ok,
    increaseBalance_eq_ok, Base.CanMove, and_assoc, exists_and_left, exists_eq_left,
    exists_const]
  rfl

omit [External] in
/-- A bridge account is debited for its withdrawer only. -/
@[simp] theorem checkWithdrawer_eq_ok {source : AddressBytes} {s s' : Base} {u : Unit} :
    checkWithdrawer source s = .ok u s' ↔
      s' = s ∧ ((s.bridge.rollupId source).isSome → ∃ c, s.ephemeral.transactionContext = some c ∧
        s.bridge.withdrawerAddress source = some c.addressBytes) := by
  simp only [checkWithdrawer, bind_eq_ok, reads_eq_ok, and_assoc, exists_and_left,
    exists_eq_left, Base.isABridgeAccount]
  cases hid : (s.bridge.rollupId source).isSome with
  | false => simp
  | true =>
    simp only [if_true, bind_eq_ok, getTransactionContext_eq_ok, reads_eq_ok, require_eq_ok,
      ensure_eq_ok, and_assoc, exists_and_left, exists_eq_left, true_implies]
    constructor
    · rintro ⟨c, hc, w, hw, rfl, rfl⟩
      exact ⟨rfl, c, hc, hw⟩
    · rintro ⟨rfl, c, hc, hw⟩
      exact ⟨c, hc, _, hw, rfl, rfl⟩

@[simp] theorem checkTransfer_eq_ok {act : Transfer} {source : AddressBytes} {s s' : Base}
    {u : Unit} :
    checkTransfer act source s = .ok u s' ↔
      s.prefixes.basePrefix = some act.toAddress.hrp ∧
      ((s.bridge.rollupId source).isSome → ∃ c, s.ephemeral.transactionContext = some c ∧
        s.bridge.withdrawerAddress source = some c.addressBytes) ∧
      act.amount ≤ s.balance source act.asset.toIbcPrefixed ∧ s' = s := by
  simp only [checkTransfer, bind_eq_ok, mapErr_eq_ok, ensureBasePrefix_eq_ok,
    checkWithdrawer_eq_ok, reads_eq_ok, ensure_eq_ok, and_assoc, exists_and_left,
    exists_eq_left, exists_const]

/-! ## Transfers -/

/-- `Transfer::check_and_execute`. -/
def Transfer.checkAndExecute (act : Transfer) : BaseM Unit := do
  let context ← getTransactionContext
  let source := context.addressBytes
  let isBridge ← reads fun s => s.isABridgeAccount source
  ensure (isBridge = false) ["cannot transfer out of bridge account; BridgeUnlock must be used"]
  checkTransfer act source
  executeTransfer act source

/-- A successful transfer moves the amount from a signer that is no bridge account. -/
theorem Transfer.checkAndExecute_eq_ok {act : Transfer} {s s' : Base} {u : Unit}
    (h : Transfer.checkAndExecute act s = .ok u s') :
    ∃ c, s.ephemeral.transactionContext = some c ∧ s.bridge.rollupId c.addressBytes = none ∧
      s.CanMove c.addressBytes act.toAddress.bytes act.asset.toIbcPrefixed act.amount ∧
      s' = s.move c.addressBytes act.toAddress.bytes act.asset.toIbcPrefixed act.amount := by
  simp only [Transfer.checkAndExecute, bind_eq_ok, getTransactionContext_eq_ok, reads_eq_ok,
    ensure_eq_ok, checkTransfer_eq_ok, executeTransfer_eq_ok, Base.isABridgeAccount, and_assoc,
    exists_and_left, exists_eq_left, exists_const, Option.isSome_eq_false_iff,
    Option.isNone_iff_eq_none] at h
  obtain ⟨c, hc, hid, -, -, -, hcan, hs'⟩ := h
  exact ⟨c, hc, hid, hcan, hs'⟩

/-! ## Bridge locks -/

/-- The asset of a deposit: a hashed denomination is mapped back to its trace. -/
def depositAsset (asset : Denom) : BaseM TracePrefixed :=
  match asset with
  | .tracePrefixed trace => pure trace
  | .ibcPrefixed ibc => do
    let mapped ← reads fun s => s.mapIbcToTracePrefixedAsset ibc
    require mapped ["mapping from IBC prefixed bridge asset to trace prefixed not found"]

omit [External] in
theorem depositAsset_state {asset : Denom} {s s' : Base} {trace : TracePrefixed}
    (h : depositAsset asset s = .ok trace s') : s' = s := by
  cases asset with
  | tracePrefixed t =>
    rw [depositAsset, pure_eq_ok] at h
    exact h.2
  | ibcPrefixed ibc =>
    simp only [depositAsset, bind_eq_ok, reads_eq_ok, require_eq_ok, and_assoc, exists_and_left,
      exists_eq_left] at h
    exact h.2

/-- The deposit of a lock. -/
def lockDeposit (lock : BridgeLock) (context : TransactionContext) (rollupId : RollupId)
    (asset : TracePrefixed) : Deposit :=
  { bridgeAddress := lock.toAddress
    rollupId := rollupId
    amount := lock.amount
    asset := .tracePrefixed asset
    destinationChainAddress := lock.destinationChainAddress
    sourceTransactionId := context.transactionId
    sourceActionIndex := context.positionInTransaction }

/-- `execute_bridge_lock` (`impls/bridge_lock.rs`, lines 80–137): the funds are taken from the
signer. -/
def executeBridgeLock (lock : BridgeLock) : BaseM Unit := do
  let context ← getTransactionContext
  let source := context.addressBytes
  let storedId ← reads fun s => s.bridge.rollupId lock.toAddress.bytes
  let rollupId ← require storedId ["bridge lock must be sent to a bridge account"]
  let asset ← depositAsset lock.asset
  let deposit := lockDeposit lock context rollupId asset
  let transfer : Transfer :=
    { toAddress := lock.toAddress
      asset := lock.asset
      amount := lock.amount
      feeAsset := lock.feeAsset }
  checkTransfer transfer source
  executeTransfer transfer source
  writes (Base.cacheDepositEvent deposit)
  writes (Base.record (.txDeposit deposit))

/-- A successful lock has moved the signer's funds to a bridge account and has cached one
deposit of the same amount and asset. -/
theorem executeBridgeLock_eq_ok {lock : BridgeLock} {s s' : Base} {u : Unit}
    (h : executeBridgeLock lock s = .ok u s') :
    ∃ c rollupId trace, s.ephemeral.transactionContext = some c ∧
      s.bridge.rollupId lock.toAddress.bytes = some rollupId ∧
      depositAsset lock.asset s = .ok trace s ∧
      ((s.bridge.rollupId c.addressBytes).isSome →
        s.bridge.withdrawerAddress c.addressBytes = some c.addressBytes) ∧
      s.CanMove c.addressBytes lock.toAddress.bytes lock.asset.toIbcPrefixed lock.amount ∧
      s' = ((s.move c.addressBytes lock.toAddress.bytes lock.asset.toIbcPrefixed
          lock.amount).cacheDepositEvent (lockDeposit lock c rollupId trace)).record
        (.txDeposit (lockDeposit lock c rollupId trace)) := by
  simp only [executeBridgeLock, bind_eq_ok, getTransactionContext_eq_ok, reads_eq_ok,
    require_eq_ok, checkTransfer_eq_ok, executeTransfer_eq_ok, writes_eq_ok, and_assoc,
    exists_and_left, exists_eq_left, exists_const] at h
  obtain ⟨c, hc, rollupId, hid, trace, t, htrace, -, hw, -, hcan, rfl⟩ := h
  obtain rfl := depositAsset_state htrace
  refine ⟨c, rollupId, trace, hc, hid, htrace, fun hb => ?_, hcan, rfl⟩
  obtain ⟨c', hc', hw'⟩ := hw hb
  rw [hc, Option.some.injEq] at hc'
  rw [hw', hc']

/-- `BridgeLock::check_and_execute`. -/
def BridgeLock.checkAndExecute (act : BridgeLock) : BaseM Unit := do
  let context ← getTransactionContext
  let isBridge ← reads fun s => s.isABridgeAccount context.addressBytes
  ensure (isBridge = false) ["bridge accounts cannot send bridge locks"]
  wrapErr "failed check for base prefix of destination address" (ensureBasePrefix act.toAddress)
  let allowedAsset ← wrapErr
    "failed to get bridge account asset ID; account is not a bridge account"
    (tryReads fun s => s.getBridgeAccountIbcAsset act.toAddress.bytes)
  ensure (allowedAsset = act.asset.toIbcPrefixed)
    ["asset ID is not authorized for transfer to bridge account"]
  executeBridgeLock act

/-- A successful lock comes from a signer that is no bridge account and goes to a bridge
account of that asset. -/
theorem BridgeLock.checkAndExecute_eq_ok {act : BridgeLock} {s s' : Base} {u : Unit}
    (h : BridgeLock.checkAndExecute act s = .ok u s') :
    ∃ c, s.ephemeral.transactionContext = some c ∧ s.bridge.rollupId c.addressBytes = none ∧
      s.bridge.ibcAsset act.toAddress.bytes = some act.asset.toIbcPrefixed ∧
      executeBridgeLock act s = .ok () s' := by
  simp only [BridgeLock.checkAndExecute, bind_eq_ok, getTransactionContext_eq_ok, reads_eq_ok,
    ensure_eq_ok, mapErr_eq_ok, ensureBasePrefix_eq_ok, tryReads_eq_ok,
    Base.getBridgeAccountIbcAsset_eq_ok, Base.isABridgeAccount, and_assoc, exists_and_left,
    exists_eq_left, exists_const, Option.isSome_eq_false_iff, Option.isNone_iff_eq_none] at h
  obtain ⟨c, hc, hid, -, asset, hasset, rfl, h⟩ := h
  exact ⟨c, hc, hid, hasset, h⟩

/-! ## Bridge unlocks and transfers -/

/-- `BridgeUnlock::check_stateless`. -/
def BridgeUnlock.checkStateless (act : BridgeUnlock) : Except Report Unit :=
  if ¬0 < act.amount then .error ["amount must be greater than zero"]
  else if ¬act.memo.utf8ByteSize ≤ 64 then .error ["memo must not be more than 64 bytes"]
  else if act.rollupWithdrawalEventId = "" then
    .error ["rollup withdrawal event id must be non-empty"]
  else if ¬act.rollupWithdrawalEventId.utf8ByteSize ≤ 256 then
    .error ["rollup withdrawal event id must not be more than 256 bytes"]
  else if ¬0 < act.rollupBlockNumber then
    .error ["rollup block number must be greater than zero"]
  else .ok ()

/-- `check_bridge_unlock` (`impls/bridge_unlock.rs`): the prefixes alone. -/
def checkBridgeUnlock (unlock : BridgeUnlock) : BaseM Unit := do
  wrapErr "failed check for base prefix of destination address" (ensureBasePrefix unlock.toAddress)
  wrapErr "failed check for base prefix of bridge address" (ensureBasePrefix unlock.bridgeAddress)

/-- `BridgeUnlock::check_and_execute`. -/
def BridgeUnlock.checkAndExecute (act : BridgeUnlock) : BaseM Unit := do
  checkBridgeUnlock act
  let isBridge ← reads fun s => s.isABridgeAccount act.toAddress.bytes
  ensure (isBridge = false) ["bridge accounts cannot receive bridge unlocks"]
  let asset ← wrapErr "failed to get bridge's asset id, must be a bridge account"
    (tryReads fun s => s.getBridgeAccountIbcAsset act.bridgeAddress.bytes)
  let transfer : Transfer :=
    { toAddress := act.toAddress
      asset := .ibcPrefixed asset
      amount := act.amount
      feeAsset := act.feeAsset }
  checkTransfer transfer act.bridgeAddress.bytes
  wrapErr "withdrawal event already processed"
    (checkAndSetWithdrawalEvent act.bridgeAddress.bytes act.rollupWithdrawalEventId
      act.rollupBlockNumber)
  executeTransfer transfer act.bridgeAddress.bytes

/-- A successful unlock moves funds out of a bridge account for its withdrawer and records
the withdrawal event, which was not recorded before. -/
theorem BridgeUnlock.checkAndExecute_eq_ok {act : BridgeUnlock} {s s' : Base} {u : Unit}
    (h : BridgeUnlock.checkAndExecute act s = .ok u s') :
    ∃ asset, s.bridge.ibcAsset act.bridgeAddress.bytes = some asset ∧
      s.bridge.rollupId act.toAddress.bytes = none ∧
      ((s.bridge.rollupId act.bridgeAddress.bytes).isSome →
        ∃ c, s.ephemeral.transactionContext = some c ∧
          s.bridge.withdrawerAddress act.bridgeAddress.bytes = some c.addressBytes) ∧
      s.withdrawalEvent act.bridgeAddress.bytes act.rollupWithdrawalEventId = none ∧
      s.CanMove act.bridgeAddress.bytes act.toAddress.bytes asset act.amount ∧
      s' = (s.putWithdrawalEvent act.bridgeAddress.bytes act.rollupWithdrawalEventId
          act.rollupBlockNumber).move act.bridgeAddress.bytes act.toAddress.bytes asset
        act.amount := by
  simp only [BridgeUnlock.checkAndExecute, checkBridgeUnlock, bind_eq_ok, reads_eq_ok,
    ensure_eq_ok, mapErr_eq_ok, ensureBasePrefix_eq_ok, tryReads_eq_ok,
    Base.getBridgeAccountIbcAsset_eq_ok, Base.isABridgeAccount, checkTransfer_eq_ok,
    checkAndSetWithdrawalEvent_eq_ok, executeTransfer_eq_ok, and_assoc, exists_and_left,
    exists_eq_left, exists_const, Option.isSome_eq_false_iff, Option.isNone_iff_eq_none] at h
  obtain ⟨-, -, hid, asset, hasset, -, hw, -, hevent, hcan, hs'⟩ := h
  exact ⟨asset, hasset, hid, hw, hevent, hcan, hs'⟩

/-- The unlock that a bridge transfer checks. -/
def BridgeTransfer.unlock (act : BridgeTransfer) : BridgeUnlock :=
  { toAddress := act.toAddress
    amount := act.amount
    memo := ""
    rollupWithdrawalEventId := act.rollupWithdrawalEventId
    rollupBlockNumber := act.rollupBlockNumber
    feeAsset := act.feeAsset
    bridgeAddress := act.bridgeAddress }

/-- The lock that a bridge transfer executes. -/
def BridgeTransfer.lock (act : BridgeTransfer) (asset : IbcPrefixed) : BridgeLock :=
  { toAddress := act.toAddress
    asset := .ibcPrefixed asset
    amount := act.amount
    feeAsset := act.feeAsset
    destinationChainAddress := act.destinationChainAddress }

/-- `BridgeTransfer::check_and_execute`: no step looks at the withdrawer of
`bridge_address`. -/
def BridgeTransfer.checkAndExecute (act : BridgeTransfer) : BaseM Unit := do
  checkBridgeUnlock (BridgeTransfer.unlock act)
  let fromAsset ← wrapErr "failed to get bridge's asset id, must be a bridge account"
    (tryReads fun s => s.getBridgeAccountIbcAsset act.bridgeAddress.bytes)
  let toAsset ← wrapErr "failed to get bridge's asset id, must be a bridge account"
    (tryReads fun s => s.getBridgeAccountIbcAsset act.toAddress.bytes)
  ensure (fromAsset = toAsset) ["bridge accounts must have the same asset"]
  wrapErr "withdrawal event already processed"
    (checkAndSetWithdrawalEvent act.bridgeAddress.bytes act.rollupWithdrawalEventId
      act.rollupBlockNumber)
  executeBridgeLock (BridgeTransfer.lock act fromAsset)

/-- A successful bridge transfer records the withdrawal event and locks the signer's
funds. -/
theorem BridgeTransfer.checkAndExecute_eq_ok {act : BridgeTransfer} {s s' : Base} {u : Unit}
    (h : BridgeTransfer.checkAndExecute act s = .ok u s') :
    ∃ asset, s.bridge.ibcAsset act.bridgeAddress.bytes = some asset ∧
      s.bridge.ibcAsset act.toAddress.bytes = some asset ∧
      s.withdrawalEvent act.bridgeAddress.bytes act.rollupWithdrawalEventId = none ∧
      executeBridgeLock (BridgeTransfer.lock act asset)
        (s.putWithdrawalEvent act.bridgeAddress.bytes act.rollupWithdrawalEventId
          act.rollupBlockNumber) = .ok () s' := by
  simp only [BridgeTransfer.checkAndExecute, checkBridgeUnlock, bind_eq_ok, ensure_eq_ok,
    mapErr_eq_ok, ensureBasePrefix_eq_ok, tryReads_eq_ok, Base.getBridgeAccountIbcAsset_eq_ok,
    checkAndSetWithdrawalEvent_eq_ok, and_assoc, exists_and_left, exists_eq_left,
    exists_const] at h
  obtain ⟨-, -, asset, hfrom, asset', hto, rfl, hevent, h⟩ := h
  exact ⟨asset, hfrom, hto, hevent, h⟩

/-! ## Configuration of bridge accounts -/

/-- Checks the prefix of an address that may be absent. -/
def ensureOptionalPrefix (context : String) (address : Option Address) : BaseM Unit :=
  match address with
  | some a => wrapErr context (ensureBasePrefix a)
  | none => pure ()

/-- `InitBridgeAccount::check_and_execute`. -/
def InitBridgeAccount.checkAndExecute (act : InitBridgeAccount) : BaseM Unit := do
  let context ← getTransactionContext
  let source := context.addressBytes
  ensureOptionalPrefix "failed check for base prefix of withdrawer address" act.withdrawerAddress
  ensureOptionalPrefix "failed check for base prefix of sudo address" act.sudoAddress
  let isBridge ← reads fun s => s.isABridgeAccount source
  ensure (isBridge = false) ["bridge account already exists"]
  writes (Base.putBridgeAccountRollupId source act.rollupId)
  writes (Base.putBridgeAccountIbcAsset source act.asset.toIbcPrefixed)
  writes (Base.putBridgeAccountSudoAddress source ((act.sudoAddress.map (·.bytes)).getD source))
  writes (Base.putBridgeAccountWithdrawerAddress source
    ((act.withdrawerAddress.map (·.bytes)).getD source))

omit [External] in
theorem ensureOptionalPrefix_state {context : String} {a : Option Address} {s s' : Base}
    {u : Unit} (h : ensureOptionalPrefix context a s = .ok u s') : s' = s := by
  cases a with
  | none =>
    rw [ensureOptionalPrefix, pure_eq_ok] at h
    exact h.2
  | some a =>
    rw [ensureOptionalPrefix, mapErr_eq_ok, ensureBasePrefix_eq_ok] at h
    exact h.2

/-- A successful initialization writes the four keys of an account that was no bridge
account. -/
theorem InitBridgeAccount.checkAndExecute_eq_ok {act : InitBridgeAccount} {s s' : Base}
    {u : Unit} (h : InitBridgeAccount.checkAndExecute act s = .ok u s') :
    ∃ c, s.ephemeral.transactionContext = some c ∧ s.bridge.rollupId c.addressBytes = none ∧
      s' = (((s.putBridgeAccountRollupId c.addressBytes act.rollupId).putBridgeAccountIbcAsset
          c.addressBytes act.asset.toIbcPrefixed).putBridgeAccountSudoAddress c.addressBytes
            ((act.sudoAddress.map (·.bytes)).getD c.addressBytes)).putBridgeAccountWithdrawerAddress
        c.addressBytes ((act.withdrawerAddress.map (·.bytes)).getD c.addressBytes) := by
  simp only [InitBridgeAccount.checkAndExecute, bind_eq_ok, getTransactionContext_eq_ok,
    reads_eq_ok, ensure_eq_ok, writes_eq_ok, Base.isABridgeAccount, and_assoc, exists_and_left,
    exists_eq_left, exists_const, Option.isSome_eq_false_iff, Option.isNone_iff_eq_none] at h
  obtain ⟨c, hc, _, t, hw, _, t', hs, hid, hs'⟩ := h
  obtain rfl := ensureOptionalPrefix_state hw
  obtain rfl := ensureOptionalPrefix_state hs
  exact ⟨c, hc, hid, hs'⟩

/-- `BridgeSudoChange::check_and_execute`. -/
def BridgeSudoChange.checkAndExecute (act : BridgeSudoChange) : BaseM Unit := do
  let context ← getTransactionContext
  wrapErr "failed check for base prefix of bridge address" (ensureBasePrefix act.bridgeAddress)
  ensureOptionalPrefix "failed check for base prefix of new sudo address" act.newSudoAddress
  ensureOptionalPrefix "failed check for base prefix of new withdrawer address"
    act.newWithdrawerAddress
  let stored ← reads fun s => s.bridge.sudoAddress act.bridgeAddress.bytes
  let sudoAddress ← require stored ["bridge account does not have an associated sudo address"]
  ensure (sudoAddress = context.addressBytes) ["unauthorized for bridge sudo change action"]
  match act.newSudoAddress with
  | some a => writes (Base.putBridgeAccountSudoAddress act.bridgeAddress.bytes a.bytes)
  | none => pure ()
  match act.newWithdrawerAddress with
  | some a => writes (Base.putBridgeAccountWithdrawerAddress act.bridgeAddress.bytes a.bytes)
  | none => pure ()

/-- The change of a stored address that an action may leave out. -/
def putOptional (write : AddressBytes → Base → Base) (address : Option Address) (s : Base) :
    Base :=
  match address with
  | some a => write a.bytes s
  | none => s

omit [External] in
/-- A successful change is signed by the account's sudo address. -/
theorem BridgeSudoChange.checkAndExecute_eq_ok {act : BridgeSudoChange} {s s' : Base} {u : Unit}
    (h : BridgeSudoChange.checkAndExecute act s = .ok u s') :
    ∃ c, s.ephemeral.transactionContext = some c ∧
      s.bridge.sudoAddress act.bridgeAddress.bytes = some c.addressBytes ∧
      s' = putOptional (Base.putBridgeAccountWithdrawerAddress act.bridgeAddress.bytes)
        act.newWithdrawerAddress
        (putOptional (Base.putBridgeAccountSudoAddress act.bridgeAddress.bytes)
          act.newSudoAddress s) := by
  simp only [BridgeSudoChange.checkAndExecute, bind_eq_ok, getTransactionContext_eq_ok,
    reads_eq_ok, require_eq_ok, ensure_eq_ok, mapErr_eq_ok, ensureBasePrefix_eq_ok, and_assoc,
    exists_and_left, exists_eq_left, exists_const] at h
  obtain ⟨c, hc, -, _, t, hsudo, _, t', hwith, addr, haddr, rfl, h⟩ := h
  obtain rfl := ensureOptionalPrefix_state hsudo
  obtain rfl := ensureOptionalPrefix_state hwith
  refine ⟨c, hc, haddr, ?_⟩
  cases hs : act.newSudoAddress with
  | none =>
    cases hw : act.newWithdrawerAddress with
    | none => simpa [hs, hw, putOptional] using h
    | some b => simpa [hs, hw, putOptional] using h
  | some a =>
    cases hw : act.newWithdrawerAddress with
    | none => simpa [hs, hw, putOptional] using h
    | some b => simpa [hs, hw, putOptional] using h

end

end Astria.Sequencer
