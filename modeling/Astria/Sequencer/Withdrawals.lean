import Astria.Sequencer.Run

/-!
# Withdrawal events

Three actions make withdrawals from a bridge account, each under an event id that is recorded with
the account.  In every run the recorded pairs are exactly those of the withdrawals made so far, so
that no pair is used twice.

Results:
* `Executing.records`, `Run.records`: the recorded pairs are those of the withdrawals of the run,
  and these are distinct;
* `Action.rejected_iff`: a withdrawal is rejected as already processed exactly when its pair is
  recorded and the checks before pass;
* `withdrawals_onlyOnce`: both of them, for every run.
-/

namespace Astria.Sequencer

open Astria.Core Astria.Lib Exec

section

variable [ext : External]

/-! ## The recorded pairs -/

omit ext in
/-- The recorded pairs are exactly those of `l`. -/
def Base.Records (s : Base) (l : List Withdrawal) : Prop :=
  ∀ a i, (s.withdrawalEvent a i).isSome = true ↔ (a, i) ∈ l

omit ext in
theorem Base.Records.of_bridge {s s' : Base} {l : List Withdrawal} (hs : s.Records l)
    (h : s'.bridge = s.bridge) : s'.Records l := by
  unfold Base.Records Base.withdrawalEvent at *
  rwa [h]

omit ext in
/-- A pair that is recorded is new, and it is the only one. -/
theorem Base.Records.append {s s' : Base} {l : List Withdrawal} {event : Option Withdrawal}
    (hs : s.Records l) (hl : l.Nodup) (h : s.RecordsEvent event s') :
    s'.Records (l ++ event.toList) ∧ (l ++ event.toList).Nodup := by
  cases event with
  | none =>
    have hsame : s'.withdrawalEvent = s.withdrawalEvent := h
    rw [Option.toList_none, List.append_nil]
    refine ⟨fun a i => ?_, hl⟩
    rw [hsame]
    exact hs a i
  | some p =>
    obtain ⟨a, i⟩ := p
    obtain ⟨hnone, n, hset⟩ := h
    have hnew : (a, i) ∉ l := by
      rw [← hs, hnone]
      exact Bool.false_ne_true
    refine ⟨fun b j => ?_, ?_⟩
    · rw [hset, Option.toList_some, List.mem_append, List.mem_singleton, ← hs, Prod.mk.injEq]
      split_ifs with heq
      · simp [heq]
      · simp [heq]
    · rw [Option.toList_some, List.nodup_append]
      refine ⟨hl, List.nodup_singleton _, ?_⟩
      intro p hp q hq heq
      rw [List.mem_singleton] at hq
      exact hnew (hq ▸ heq ▸ hp)

section

variable [TransactionCodec]

omit [TransactionCodec] in
theorem withdrawalsOf_take_succ {tx : Transaction} {act : Action} {k : ℕ}
    (h : tx.actions.inner[k]? = some act) :
    withdrawalsOf (tx.actions.inner.take (k + 1)) =
      withdrawalsOf (tx.actions.inner.take k) ++ (Action.withdrawal act).toList := by
  unfold withdrawalsOf
  rw [List.take_add_one, h, Option.toList_some, List.filterMap_append]
  cases hact : Action.withdrawal act <;> simp [hact]

/-- Inside a transaction the recorded pairs grow by those of its actions. -/
theorem Executing.records {tx : Transaction} {s t : State} {k : ℕ} {l : List Withdrawal}
    (hs : s.base.Records l) (hl : l.Nodup) (h : Executing tx s k t) :
    t.base.Records (l ++ withdrawalsOf (tx.actions.inner.take k)) ∧
      (l ++ withdrawalsOf (tx.actions.inner.take k)).Nodup := by
  induction h with
  | start hless hprep =>
    have hbridge := ((prepareTransaction_keeps tx).of_ok hprep).bridge
    rw [List.take_zero, withdrawalsOf, List.filterMap_nil, List.append_nil]
    exact ⟨hs.of_bridge hbridge, hl⟩
  | step hexec hget hact ih =>
    rename_i j q r act
    have hcontext : (q.withContext (contextAt tx j)).base.Records
        (l ++ withdrawalsOf (tx.actions.inner.take j)) := ih.1.of_bridge rfl
    rw [withdrawalsOf_take_succ hget, ← List.append_assoc]
    exact hcontext.append ih.2 (executeAction_records rfl hact)

variable [UpgradeCodec] [BlockCodec]

/-- In every run the recorded pairs are those of its withdrawals, and these are distinct. -/
theorem Run.records {handler : UpgradesHandler} {l : List Withdrawal} {s : State}
    (h : Run handler l s) : s.base.Records l ∧ l.Nodup := by
  induction h with
  | genesis hinit =>
    have hempty : Base.empty.Records [] := fun a i => by simp [Base.withdrawalEvent, Base.empty]
    exact ⟨hempty.of_bridge (initChain_fresh hinit).1, List.nodup_nil⟩
  | preExecute _ hpre ih =>
    exact ⟨ih.1.of_bridge ((preExecuteTransactions_sameFunds _ _ _).of_ok hpre).bridge, ih.2⟩
  | prices _ hprices ih =>
    exact ⟨ih.1.of_bridge
      ((sameFunds_applyDelta (applyPrices_sameFunds _ _ _)).of_ok hprices).bridge, ih.2⟩
  | transaction _ htx ih =>
    obtain ⟨r, hexec, rfl⟩ := executeTransaction_executing htx
    have hrecords := hexec.records ih.1 ih.2
    rw [List.take_length] at hrecords
    exact ⟨hrecords.1.of_bridge rfl, hrecords.2⟩
  | postExecute _ hpost ih =>
    obtain ⟨recipient, -, hpays⟩ := postExecuteTransactions_pays hpost
    exact ⟨ih.1.of_bridge hpays.bridge, ih.2⟩
  | executionResults results _ ih => exact ⟨ih.1.of_bridge rfl, ih.2⟩
  | storageVersion height version _ ih => exact ⟨ih.1.of_bridge rfl, ih.2⟩
  | commit _ ih => exact ⟨ih.1.of_bridge rfl, ih.2⟩

end

/-! ## Rejections -/

/-- The error that says that a withdrawal event was used before. -/
def AlreadyProcessed (e : Report) : Prop := e.head? = some "withdrawal event already processed"

instance (e : Report) : Decidable (AlreadyProcessed e) :=
  inferInstanceAs (Decidable (_ = _))

/-- Errors that say something else. -/
def OtherError (e : Report) : Prop := ¬AlreadyProcessed e

omit ext in
theorem otherError_cons {context : String} (h : context ≠ "withdrawal event already processed")
    (e : Report) : OtherError (context :: e) := by
  simp [OtherError, AlreadyProcessed, h]

/-- What `BridgeUnlock::check_and_execute` does before it records the event: the transfer. -/
def BridgeUnlock.checksBeforeEvent (act : BridgeUnlock) : BaseM Transfer := do
  checkBridgeUnlock act
  let isBridge ← reads fun s => s.isABridgeAccount act.toAddress.bytes
  ensure (isBridge = false) ["bridge accounts cannot receive bridge unlocks"]
  let asset ← wrapErr "failed to get bridge's asset id, must be a bridge account"
    (tryReads fun s => s.getBridgeAccountIbcAsset act.bridgeAddress.bytes)
  let transfer : Transfer :=
    { toAddress := act.toAddress
      asset := .ibcPrefixed asset
      amount := act.amount
      feeAsset := act.feeAsset }
  checkTransfer transfer act.bridgeAddress.bytes
  pure transfer

/-- What `BridgeTransfer::check_and_execute` does before it records the event: the asset. -/
def BridgeTransfer.checksBeforeEvent (act : BridgeTransfer) : BaseM IbcPrefixed := do
  checkBridgeUnlock (BridgeTransfer.unlock act)
  let fromAsset ← wrapErr "failed to get bridge's asset id, must be a bridge account"
    (tryReads fun s => s.getBridgeAccountIbcAsset act.bridgeAddress.bytes)
  let toAsset ← wrapErr "failed to get bridge's asset id, must be a bridge account"
    (tryReads fun s => s.getBridgeAccountIbcAsset act.toAddress.bytes)
  ensure (fromAsset = toAsset) ["bridge accounts must have the same asset"]
  pure fromAsset

/-- What `Ics20Withdrawal::check_and_execute` does before it records the event: the signer. -/
def Ics20Withdrawal.checksBeforeEvent (act : Ics20Withdrawal) (bridgeAddress : Address) :
    BaseM TransactionContext := do
  let context ← getTransactionContext
  wrapErr "failed to verify that return address has permitted base prefix"
    (ensureBasePrefix act.returnAddress)
  wrapErr "failed to verify that bridge address address has permitted base prefix"
    (ensureBasePrefix bridgeAddress)
  pure context

/-- Whether a withdrawal gets as far as its event. -/
def Action.ReachesEvent (s : State) : Action → Prop
  | .bridgeUnlock act => isOk (BridgeUnlock.checksBeforeEvent act s.base) = true
  | .bridgeTransfer act => isOk (BridgeTransfer.checksBeforeEvent act s.base) = true
  | .ics20Withdrawal act => ∃ b ∈ act.bridgeAddress,
      isOk (Ics20Withdrawal.checksBeforeEvent act b s.base) = true
  | _ => False

/-- The error of the check before its event that a withdrawal fails. -/
def Action.FailsBeforeEvent (s : State) (e : Report) : Action → Prop
  | .bridgeUnlock act => ∃ t, BridgeUnlock.checksBeforeEvent act s.base = .error e t
  | .bridgeTransfer act => ∃ t, BridgeTransfer.checksBeforeEvent act s.base = .error e t
  | .ics20Withdrawal act => ∃ b ∈ act.bridgeAddress, ∃ t,
      Ics20Withdrawal.checksBeforeEvent act b s.base = .error e t
  | _ => False

/-- What `Ics20Withdrawal::check_and_execute` does after the event. -/
def Ics20Withdrawal.executeAfterEvent (act : Ics20Withdrawal) (context : TransactionContext) :
    BaseM Unit := do
  let target ← wrapErr "failed establishing which account to withdraw funds from"
    (establishWithdrawalTarget act context.addressBytes)
  let timestamp ← wrapErr "failed to get block timestamp" (tryReads Base.getBlockTimestamp)
  let packet ← wrapErr "failed converting the withdrawal action into IBC packet"
    (createIbcPacket act)
  let host ← reads Base.hostInfo
  wrapErr "packet failed send check"
    (tryReads fun s => ext.ibcSendPacketCheck packet host timestamp s.ibcStore)
  wrapErr "failed to decrease sender or bridge balance"
    (decreaseBalance target act.denom.toIbcPrefixed act.amount)
  escrow act
  writeIbc (ext.ibcSendPacketExecute packet)

/-- The record of an event between the checks and the rest of a handler. -/
def withEvent {α : Type} (p : Withdrawal) (blockNum : ℕ) (checks : BaseM α) (rest : α → BaseM Unit) :
    BaseM Unit := do
  let a ← checks
  wrapErr "withdrawal event already processed" (checkAndSetWithdrawalEvent p.1 p.2 blockNum)
  rest a

theorem BridgeUnlock.checkAndExecute_eq (act : BridgeUnlock) :
    BridgeUnlock.checkAndExecute act =
      withEvent (act.bridgeAddress.bytes, act.rollupWithdrawalEventId) act.rollupBlockNumber
        (BridgeUnlock.checksBeforeEvent act)
        (fun transfer => executeTransfer transfer act.bridgeAddress.bytes) := by
  simp only [BridgeUnlock.checkAndExecute, withEvent, BridgeUnlock.checksBeforeEvent, bind_assoc,
    pure_bind]

theorem BridgeTransfer.checkAndExecute_eq (act : BridgeTransfer) :
    BridgeTransfer.checkAndExecute act =
      withEvent (act.bridgeAddress.bytes, act.rollupWithdrawalEventId) act.rollupBlockNumber
        (BridgeTransfer.checksBeforeEvent act)
        (fun asset => executeBridgeLock (BridgeTransfer.lock act asset)) := by
  simp only [BridgeTransfer.checkAndExecute, withEvent, BridgeTransfer.checksBeforeEvent, bind_assoc,
    pure_bind]

theorem Ics20Withdrawal.checkAndExecute_eq {act : Ics20Withdrawal} {b : Address}
    {memo : Ics20WithdrawalFromRollup} (hb : act.bridgeAddress = some b)
    (hmemo : ext.parseWithdrawalMemo act.memo = some memo) :
    Ics20Withdrawal.checkAndExecute act =
      withEvent (b.bytes, memo.rollupWithdrawalEventId) memo.rollupBlockNumber
        (Ics20Withdrawal.checksBeforeEvent act b)
        (Ics20Withdrawal.executeAfterEvent act) := by
  simp only [Ics20Withdrawal.checkAndExecute, checkWithdrawalMemo, hb, hmemo, require, withEvent,
    Ics20Withdrawal.checksBeforeEvent, Ics20Withdrawal.executeAfterEvent, bind_assoc, pure_bind]

omit ext in
/-- The record of an event is the only part of a handler that is rejected as already processed. -/
theorem withEvent_rejected_iff {α : Type} {p : Withdrawal} {n : ℕ} {checks : BaseM α}
    {rest : α → BaseM Unit} {s : Base} (hstate : Keeps Eq checks) (hchecks : Fails OtherError checks)
    (hrest : ∀ a, Fails OtherError (rest a)) :
    (∃ e t, withEvent p n checks rest s = .error e t ∧ AlreadyProcessed e) ↔
      isOk (checks s) = true ∧ (s.withdrawalEvent p.1 p.2).isSome = true := by
  unfold withEvent
  simp only [bind_eq_error, mapErr_eq_error]
  cases hrun : checks s with
  | error e t =>
    simp only [isOk, Bool.false_eq_true, false_and, iff_false, reduceCtorEq, exists_false, or_false]
    rintro ⟨e', t', heq, hprocessed⟩
    obtain ⟨rfl, rfl⟩ := EStateM.Result.error.inj heq
    exact hchecks s t e hrun hprocessed
  | ok a t =>
    obtain rfl : s = t := hstate.of_ok hrun
    simp only [isOk, true_and, reduceCtorEq, false_or, EStateM.Result.ok.injEq]
    constructor
    · rintro ⟨e, t', ⟨_, _, ⟨rfl, rfl⟩, ⟨e', herr, rfl⟩ | ⟨_, q, -, herr⟩⟩, hprocessed⟩
      · by_contra hnone
        rw [Bool.not_eq_true, Option.isSome_eq_false_iff, Option.isNone_iff_eq_none] at hnone
        have hok := checkAndSetWithdrawalEvent_eq_ok (n := n) (u := ()) |>.mpr ⟨hnone, rfl⟩
        rw [hok] at herr
        cases herr
      · exact absurd hprocessed (hrest _ _ _ _ herr)
    · intro hsome
      obtain ⟨m, hm⟩ := Option.isSome_iff_exists.mp hsome
      have herr : checkAndSetWithdrawalEvent p.1 p.2 n s = .error
          ["withdrawal event ID " ++ p.2 ++ " used by block number " ++ toString m] s := by
        simp only [checkAndSetWithdrawalEvent, bind_eq_error, reads_eq_error, reads_eq_ok, false_or]
        refine ⟨_, s, ⟨rfl, rfl⟩, ?_⟩
        rw [hm]
        exact fail_eq_error.mpr ⟨rfl, rfl⟩
      exact ⟨_, s, ⟨a, s, ⟨rfl, rfl⟩, .inl ⟨_, herr, rfl⟩⟩, rfl⟩

/-! ## The checks around an event -/

omit ext in
theorem otherError_getTransactionContext : Fails OtherError getTransactionContext := by
  refine fails_tryReads fun s e h => ?_
  split at h
  · cases h
  · cases h
    exact otherError_cons (by decide) _

theorem otherError_checkTransfer (transfer : Transfer) (source : AddressBytes) :
    Fails OtherError (checkTransfer transfer source) := by
  have hwithdrawer : Fails OtherError (checkWithdrawer source) := by
    refine Fails.bind (fails_reads _) fun isBridge => Fails.ite ?_ (fails_pure _)
    refine Fails.bind otherError_getTransactionContext fun _ => Fails.bind (fails_reads _) fun _ => ?_
    refine Fails.bind (fails_require (otherError_cons (by decide) _)) fun _ => ?_
    exact fails_ensure (otherError_cons (by decide) _)
  refine Fails.bind (fails_mapErr (otherError_cons (by decide)) _) fun _ => ?_
  refine Fails.bind hwithdrawer fun _ => Fails.bind (fails_reads _) fun _ => ?_
  exact fails_ensure (otherError_cons (by decide) _)

theorem otherError_executeTransfer (transfer : Transfer) (source : AddressBytes) :
    Fails OtherError (executeTransfer transfer source) :=
  Fails.bind (fails_mapErr (otherError_cons (by decide)) _) fun _ =>
    fails_mapErr (otherError_cons (by decide)) _

omit ext in
theorem otherError_checkBridgeUnlock (act : BridgeUnlock) :
    Fails OtherError (checkBridgeUnlock act) :=
  Fails.bind (fails_mapErr (otherError_cons (by decide)) _) fun _ =>
    fails_mapErr (otherError_cons (by decide)) _

theorem otherError_executeBridgeLock (lock : BridgeLock) :
    Fails OtherError (executeBridgeLock lock) := by
  have hasset : Fails OtherError (depositAsset lock.asset) := by
    unfold depositAsset
    cases lock.asset with
    | tracePrefixed trace => exact fails_pure _
    | ibcPrefixed ibc =>
      exact Fails.bind (fails_reads _) fun _ => fails_require (otherError_cons (by decide) _)
  refine Fails.bind otherError_getTransactionContext fun _ => Fails.bind (fails_reads _) fun _ => ?_
  refine Fails.bind (fails_require (otherError_cons (by decide) _)) fun _ => ?_
  refine Fails.bind hasset fun _ => Fails.bind (otherError_checkTransfer _ _) fun _ => ?_
  refine Fails.bind (otherError_executeTransfer _ _) fun _ => ?_
  exact Fails.bind (fails_writes _) fun _ => fails_writes _

theorem otherError_executeAfterEvent (act : Ics20Withdrawal) (context : TransactionContext) :
    Fails OtherError (Ics20Withdrawal.executeAfterEvent act context) := by
  refine Fails.bind (fails_mapErr (otherError_cons (by decide)) _) fun _ => ?_
  refine Fails.bind (fails_mapErr (otherError_cons (by decide)) _) fun _ => ?_
  refine Fails.bind (fails_mapErr (otherError_cons (by decide)) _) fun _ => ?_
  refine Fails.bind (fails_reads _) fun _ => ?_
  refine Fails.bind (fails_mapErr (otherError_cons (by decide)) _) fun _ => ?_
  refine Fails.bind (fails_mapErr (otherError_cons (by decide)) _) fun _ => ?_
  refine Fails.bind (Fails.ite ?_ (fails_pure _)) fun _ => fails_writes _
  refine Fails.bind (fails_reads _) fun _ => ?_
  exact Fails.bind (fails_require (otherError_cons (by decide) _)) fun _ => fails_writes _

theorem BridgeUnlock.checksBeforeEvent_state (act : BridgeUnlock) :
    Keeps Eq (BridgeUnlock.checksBeforeEvent act) := by
  have hwithdrawer (source : AddressBytes) : Keeps Eq (checkWithdrawer source) := by
    refine Keeps.bind (by simp) fun _ => Keeps.ite ?_ (by simp)
    refine Keeps.bind (by simp) fun _ => Keeps.bind (by simp) fun _ => ?_
    exact Keeps.bind (by simp) fun _ => by simp
  have htransfer (transfer : Transfer) (source : AddressBytes) :
      Keeps Eq (checkTransfer transfer source) :=
    Keeps.bind (by simp) fun _ => Keeps.bind (hwithdrawer _) fun _ => Keeps.bind (by simp) fun _ =>
      by simp
  refine Keeps.bind (Keeps.bind (by simp) fun _ => by simp) fun _ => ?_
  refine Keeps.bind (by simp) fun _ => Keeps.bind (by simp) fun _ => Keeps.bind (by simp) fun _ => ?_
  exact Keeps.bind (htransfer _ _) fun _ => keeps_pure _

omit ext in
theorem BridgeTransfer.checksBeforeEvent_state (act : BridgeTransfer) :
    Keeps Eq (BridgeTransfer.checksBeforeEvent act) := by
  refine Keeps.bind (Keeps.bind (by simp) fun _ => by simp) fun _ => ?_
  refine Keeps.bind (by simp) fun _ => Keeps.bind (by simp) fun _ => ?_
  exact Keeps.bind (keeps_ensure _ _) fun _ => keeps_pure _

omit ext in
theorem Ics20Withdrawal.checksBeforeEvent_state (act : Ics20Withdrawal) (b : Address) :
    Keeps Eq (Ics20Withdrawal.checksBeforeEvent act b) := by
  refine Keeps.bind (by simp) fun _ => Keeps.bind (by simp) fun _ => ?_
  exact Keeps.bind ((keeps_ensureBasePrefix _).mapErr _) fun _ => keeps_pure _

theorem BridgeUnlock.checksBeforeEvent_otherError (act : BridgeUnlock) :
    Fails OtherError (BridgeUnlock.checksBeforeEvent act) := by
  refine Fails.bind (otherError_checkBridgeUnlock act) fun _ => Fails.bind (fails_reads _) fun _ => ?_
  refine Fails.bind (fails_ensure (otherError_cons (by decide) _)) fun _ => ?_
  refine Fails.bind (fails_mapErr (otherError_cons (by decide)) _) fun _ => ?_
  exact Fails.bind (otherError_checkTransfer _ _) fun _ => fails_pure _

omit ext in
theorem BridgeTransfer.checksBeforeEvent_otherError (act : BridgeTransfer) :
    Fails OtherError (BridgeTransfer.checksBeforeEvent act) := by
  refine Fails.bind (otherError_checkBridgeUnlock _) fun _ => ?_
  refine Fails.bind (fails_mapErr (otherError_cons (by decide)) _) fun _ => ?_
  refine Fails.bind (fails_mapErr (otherError_cons (by decide)) _) fun _ => ?_
  exact Fails.bind (fails_ensure (otherError_cons (by decide) _)) fun _ => fails_pure _

omit ext in
theorem Ics20Withdrawal.checksBeforeEvent_otherError (act : Ics20Withdrawal) (b : Address) :
    Fails OtherError (Ics20Withdrawal.checksBeforeEvent act b) := by
  refine Fails.bind otherError_getTransactionContext fun _ => ?_
  refine Fails.bind (fails_mapErr (otherError_cons (by decide)) _) fun _ => ?_
  exact Fails.bind (fails_mapErr (otherError_cons (by decide)) _) fun _ => fails_pure _

/-! ## When a withdrawal is rejected -/

/-- The action fails with the error that its withdrawal event was used before. -/
def Action.RejectedAsProcessed (act : Action) (s : State) : Prop :=
  ∃ e t, Action.checkAndExecute act s = .error e t ∧ AlreadyProcessed e

omit ext in
theorem onBase_error_iff {x : BaseM Unit} {s : State} {P : Report → Prop} :
    (∃ e t, onBase x s = .error e t ∧ P e) ↔ ∃ e b, x s.base = .error e b ∧ P e := by
  unfold onBase
  constructor
  · rintro ⟨e, t, h, hP⟩
    obtain ⟨b, hb, -⟩ := zoom_eq_error.mp h
    exact ⟨e, b, hb, hP⟩
  · rintro ⟨e, b, h, hP⟩
    exact ⟨e, _, zoom_eq_error.mpr ⟨b, h, rfl⟩, hP⟩

/-- A withdrawal is rejected as already processed exactly when it gets as far as its event and the
event is recorded. -/
theorem Action.rejected_iff {act : Action} {p : Withdrawal} (hact : Action.withdrawal act = some p)
    (s : State) :
    Action.RejectedAsProcessed act s ↔
      Action.ReachesEvent s act ∧ (s.base.withdrawalEvent p.1 p.2).isSome = true := by
  unfold Action.RejectedAsProcessed
  cases act with
  | bridgeUnlock act =>
    obtain rfl := Option.some.inj hact
    rw [Action.checkAndExecute, onBase_error_iff, BridgeUnlock.checkAndExecute_eq]
    exact withEvent_rejected_iff (BridgeUnlock.checksBeforeEvent_state act)
      (BridgeUnlock.checksBeforeEvent_otherError act) fun _ => otherError_executeTransfer _ _
  | bridgeTransfer act =>
    obtain rfl := Option.some.inj hact
    rw [Action.checkAndExecute, onBase_error_iff, BridgeTransfer.checkAndExecute_eq]
    exact withEvent_rejected_iff (BridgeTransfer.checksBeforeEvent_state act)
      (BridgeTransfer.checksBeforeEvent_otherError act) fun _ => otherError_executeBridgeLock _
  | ics20Withdrawal act =>
    simp only [Action.withdrawal, Ics20Withdrawal.event] at hact
    split at hact
    · rename_i b memo hb hmemo
      obtain rfl := Option.some.inj hact
      rw [Action.checkAndExecute, onBase_error_iff, Ics20Withdrawal.checkAndExecute_eq hb hmemo]
      rw [withEvent_rejected_iff (Ics20Withdrawal.checksBeforeEvent_state act b)
        (Ics20Withdrawal.checksBeforeEvent_otherError act b) (otherError_executeAfterEvent act)]
      simp only [Action.ReachesEvent, hb, Option.mem_some_iff, exists_eq_left']
    · cases hact
  | _ => cases hact

omit ext in
theorem onBase_withEvent_of_error {α : Type} {p : Withdrawal} {n : ℕ} {checks : BaseM α}
    {rest : α → BaseM Unit} {s : State} {e : Report} {b : Base} (h : checks s.base = .error e b) :
    ∃ t, onBase (withEvent p n checks rest) s = .error e t := by
  have herror : withEvent p n checks rest s.base = .error e b := bind_eq_error.mpr (Or.inl h)
  exact ⟨_, zoom_eq_error.mpr ⟨b, herror, rfl⟩⟩

/-- A withdrawal that does not get as far as its event fails with the error of the check that failed. -/
theorem Action.error_of_not_reachesEvent {act : Action} {p : Withdrawal}
    (hact : Action.withdrawal act = some p) {s : State} (h : ¬Action.ReachesEvent s act) :
    ∃ e t, Action.FailsBeforeEvent s e act ∧ Action.checkAndExecute act s = .error e t := by
  cases act with
  | bridgeUnlock act =>
    obtain ⟨e, b, hfails⟩ := exists_error_of_not_isOk h
    obtain ⟨t, ht⟩ := onBase_withEvent_of_error hfails
    exact ⟨e, t, ⟨b, hfails⟩, by rw [Action.checkAndExecute, BridgeUnlock.checkAndExecute_eq, ht]⟩
  | bridgeTransfer act =>
    obtain ⟨e, b, hfails⟩ := exists_error_of_not_isOk h
    obtain ⟨t, ht⟩ := onBase_withEvent_of_error hfails
    exact ⟨e, t, ⟨b, hfails⟩, by rw [Action.checkAndExecute, BridgeTransfer.checkAndExecute_eq, ht]⟩
  | ics20Withdrawal act =>
    simp only [Action.withdrawal, Ics20Withdrawal.event] at hact
    split at hact
    · rename_i bridge memo hb hmemo
      have hchecks : ¬isOk (Ics20Withdrawal.checksBeforeEvent act bridge s.base) = true :=
        fun hok => h ⟨bridge, hb, hok⟩
      obtain ⟨e, b, hfails⟩ := exists_error_of_not_isOk hchecks
      obtain ⟨t, ht⟩ := onBase_withEvent_of_error hfails
      exact ⟨e, t, ⟨bridge, hb, b, hfails⟩,
        by rw [Action.checkAndExecute, Ics20Withdrawal.checkAndExecute_eq hb hmemo, ht]⟩
    · cases hact
  | _ => cases hact

/-- A withdrawal whose event is recorded does not succeed. -/
theorem Action.not_ok_of_recorded {act : Action} {p : Withdrawal} {s s' : State} {u : Unit}
    {c : TransactionContext} (hact : Action.withdrawal act = some p)
    (hc : s.base.ephemeral.transactionContext = some c)
    (hrecorded : (s.base.withdrawalEvent p.1 p.2).isSome = true) :
    Action.checkAndExecute act s ≠ .ok u s' := by
  intro h
  have hevent := (Action.checkAndExecute_does hc h).event
  rw [Action.effect_event h, hact] at hevent
  obtain ⟨hnone, -⟩ := hevent
  rw [hnone] at hrecorded
  cases hrecorded

variable [UpgradeCodec] [TransactionCodec] [BlockCodec]

/-- In every run, every pair of a bridge account and an event id is used by one withdrawal at most,
and distinct pairs have distinct keys.  Inside any transaction, a withdrawal does not succeed if its
pair was used before, and it is rejected as already processed exactly when its pair was used before
and its handler's earlier checks pass; if one of these fails, the withdrawal is rejected with its error. -/
theorem withdrawals_onlyOnce {handler : UpgradesHandler} {l : List Withdrawal} {s : State}
    (hrun : Run handler l s) :
    l.Nodup ∧
    (∀ p q : Withdrawal, bridgeAccountWithdrawalEvent p.1 p.2 = bridgeAccountWithdrawalEvent q.1 q.2 →
      p = q) ∧
    ∀ (tx : Transaction) (k : ℕ) (t : State) (act : Action) (p : Withdrawal),
      Executing tx s k t → tx.actions.inner[k]? = some act → Action.withdrawal act = some p →
      (p ∈ l ++ withdrawalsOf (tx.actions.inner.take k) → ∀ u t',
        Action.checkAndExecute act (t.withContext (contextAt tx k)) ≠ .ok u t') ∧
      (Action.RejectedAsProcessed act (t.withContext (contextAt tx k)) ↔
        Action.ReachesEvent (t.withContext (contextAt tx k)) act ∧
          p ∈ l ++ withdrawalsOf (tx.actions.inner.take k)) ∧
      (¬Action.ReachesEvent (t.withContext (contextAt tx k)) act → ∃ e t',
        Action.FailsBeforeEvent (t.withContext (contextAt tx k)) e act ∧
          Action.checkAndExecute act (t.withContext (contextAt tx k)) = .error e t') := by
  obtain ⟨hrecords, hnodup⟩ := hrun.records
  refine ⟨hnodup, fun p q h => ?_, fun tx k t act p hexec hget hact => ?_⟩
  · exact Prod.ext_iff.mpr (bridgeAccountWithdrawalEvent_injective h)
  · have ht : (t.withContext (contextAt tx k)).base.Records
        (l ++ withdrawalsOf (tx.actions.inner.take k)) :=
      (hexec.records hrecords hnodup).1.of_bridge rfl
    refine ⟨fun hmem u t' => ?_, ?_, Action.error_of_not_reachesEvent hact⟩
    · exact Action.not_ok_of_recorded hact rfl ((ht p.1 p.2).mpr hmem)
    · rw [Action.rejected_iff hact, ht p.1 p.2]

end

section

open TestUtils

/-- Alice unlocks from her bridge account under the event id `e`. -/
def unlockTransaction (nonce : ℕ) (toAddress : Address) : Transaction :=
  signedTransaction aliceKey nonce (.bridgeUnlock
    { toAddress := toAddress
      amount := 1
      feeAsset := .tracePrefixed nria
      bridgeAddress := aliceAddress
      memo := ""
      rollupBlockNumber := 1
      rollupWithdrawalEventId := "e" })

/-- The event id `e` of alice's bridge account is used. -/
def unlocked : State := after (unlockTransaction 1 carolAddress) bridges

set_option maxRecDepth 10000 in
theorem run_unlocked : Run withoutUpgrades [(aliceAddress.bytes, "e")] unlocked :=
  run_bridges.after (unlockTransaction 1 carolAddress) (by decide +kernel)

/-- The state in which the second unlock runs. -/
def unlocking (toAddress : Address) : State :=
  { base := final (prepareTransaction (unlockTransaction 2 toAddress) (unlocked.withEvents []).base)
    oracle := unlocked.oracle }

set_option maxRecDepth 10000 in
/-- A second unlock under the same event id is rejected as already processed. -/
theorem withdrawals_onlyOnce_unlock :
    Action.RejectedAsProcessed (unlockTransaction 2 carolAddress).actions.inner[0]
      ((unlocking carolAddress).withContext (contextAt (unlockTransaction 2 carolAddress) 0)) := by
  have hexec : Executing (unlockTransaction 2 carolAddress) unlocked 0 (unlocking carolAddress) :=
    Executing.start rfl (eq_ok_of_isOk (by decide +kernel))
  have hreaches : Action.ReachesEvent ((unlocking carolAddress).withContext
      (contextAt (unlockTransaction 2 carolAddress) 0))
      (unlockTransaction 2 carolAddress).actions.inner[0] := by
    change isOk (BridgeUnlock.checksBeforeEvent _ _) = true
    decide +kernel
  have hrejected := (withdrawals_onlyOnce run_unlocked).2.2 _ 0 _ _ (aliceAddress.bytes, "e") hexec
    rfl rfl
  exact hrejected.2.1.mpr ⟨hreaches, by simp⟩

/-- An address whose prefix is not that of the chain. -/
def foreignAddress : Address := { bytes := carolAddress.bytes, hrp := "other" }

set_option maxRecDepth 10000 in
/-- An unlock under a used event id to an address with another prefix is rejected for the prefix. -/
theorem unlock_rejected_otherwise :
    ∃ (l : List Withdrawal) (s t : State) (tx : Transaction) (act : Action) (p : Withdrawal),
      Run withoutUpgrades l s ∧ Executing tx s 0 t ∧ tx.actions.inner[0]? = some act ∧
        Action.withdrawal act = some p ∧ p ∈ l ∧
        ¬Action.RejectedAsProcessed act (t.withContext (contextAt tx 0)) := by
  have hexec : Executing (unlockTransaction 2 foreignAddress) unlocked 0 (unlocking foreignAddress) :=
    Executing.start rfl (eq_ok_of_isOk (by decide +kernel))
  refine ⟨_, _, _, _, _, (aliceAddress.bytes, "e"), run_unlocked, hexec, rfl, rfl, by simp, ?_⟩
  rw [Action.rejected_iff (p := (aliceAddress.bytes, "e")) rfl]
  rintro ⟨hreaches, -⟩
  have hchecks : isOk (BridgeUnlock.checksBeforeEvent _ ((unlocking foreignAddress).withContext
      (contextAt (unlockTransaction 2 foreignAddress) 0)).base) = true := hreaches
  revert hchecks
  decide +kernel

end

end Astria.Sequencer
