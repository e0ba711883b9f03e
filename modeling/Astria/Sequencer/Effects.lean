import Astria.Sequencer.Transaction
import Astria.Sequencer.ActionHandler.Ics20Spec

/-!
# The effect of an action

One statement for all kinds of actions: an action that succeeds has the effect that
`Action.effect` computes from the state before it, and then pays its fee.  The invariants of
the funds are derived from this and from nothing else of the handlers.

Results:
* `Action.checkAndExecute_does`: the handler of every action has its effect;
* `checkAndPayFees_pays`: the fee of an action is taken from the signer and recorded;
* `executeAction_ok`: an action of a transaction runs its handler and pays its fee;
* `executeActions_invariant`: what every action of a transaction keeps is kept by all of them.
-/

namespace Astria.Sequencer

open Astria.Core Astria.Lib Exec

section

variable [ext : External]

/-! ## Effects by kind -/

/-- The trace form of the asset of a deposit. -/
def Assets.depositTrace (assets : Assets) : Denom → Option TracePrefixed
  | .tracePrefixed trace => some trace
  | .ibcPrefixed ibc => assets.ibcAssets ibc

/-- The effect of a lock signed under the context `c`. -/
def lockEffect (s : Base) (c : TransactionContext) (lock : BridgeLock) : Effect :=
  { accounts := .move c.addressBytes lock.toAddress.bytes lock.asset.toIbcPrefixed lock.amount
    deposit := do
      let rollupId ← s.bridge.rollupId lock.toAddress.bytes
      let trace ← s.assets.depositTrace lock.asset
      some (lockDeposit lock c rollupId trace) }

/-- The effect of an action under a state. -/
def Action.effect (s : Base) (c : TransactionContext) : Action → Effect
  | .transfer act =>
    { accounts :=
        .move c.addressBytes act.toAddress.bytes act.asset.toIbcPrefixed act.amount }
  | .bridgeLock act => lockEffect s c act
  | .bridgeUnlock act =>
    match s.bridge.ibcAsset act.bridgeAddress.bytes with
    | some asset =>
      { event := some (act.bridgeAddress.bytes, act.rollupWithdrawalEventId)
        accounts := .move act.bridgeAddress.bytes act.toAddress.bytes asset act.amount }
    | none => {}
  | .bridgeTransfer act =>
    match s.bridge.ibcAsset act.bridgeAddress.bytes with
    | some asset =>
      { lockEffect s c (BridgeTransfer.lock act asset) with
        event := some (act.bridgeAddress.bytes, act.rollupWithdrawalEventId) }
    | none => {}
  | .ics20Withdrawal act => Ics20Withdrawal.effect act c.addressBytes
  | .ibc msg => IbcRelay.effect s msg
  | .rollupDataSubmission _ | .validatorUpdate _ | .sudoAddressChange _ | .ibcSudoChange _
  | .ibcRelayerChange _ | .feeAssetChange _ | .initBridgeAccount _ | .bridgeSudoChange _
  | .feeChange _ | .recoverIbcClient _ | .currencyPairsChange _ | .marketsChange _ => {}

/-! ## Moves -/

omit ext in
theorem Base.canMove_iff {s : Base} {a b : AddressBytes} {i : IbcPrefixed} {n : ℕ} :
    s.CanMove a b i n ↔ Ledger.Fits u128Max (.move a b i n) s.balance := by
  unfold Base.CanMove
  rw [Base.balance_putAccountBalance_eq]
  constructor
  · rintro ⟨hle, hmax⟩
    refine ⟨?_, ?_⟩
    · rintro e ⟨⟩
      exact hle
    · rintro e ⟨⟩
      exact hmax
  · intro h
    exact ⟨h.covered _ rfl, h.below _ rfl⟩

omit ext in
/-- Moving an amount between two accounts is one posting. -/
theorem Base.move_does {s : Base} {a b : AddressBytes} {i : IbcPrefixed} {n : ℕ}
    (h : s.CanMove a b i n) : s.Does { accounts := .move a b i n } (s.move a b i n) := by
  refine ⟨rfl, Base.canMove_iff.mp h, ?_, Ledger.fits_empty _ _, rfl, by simp; rfl, rfl, rfl⟩
  unfold Base.move
  simp only [Base.balance_putAccountBalance_eq]
  rfl

omit ext in
theorem depositAsset_eq_ok {asset : Denom} {s s' : Base} {trace : TracePrefixed} :
    depositAsset asset s = .ok trace s' ↔ s.assets.depositTrace asset = some trace ∧ s' = s := by
  unfold depositAsset Assets.depositTrace
  cases asset with
  | tracePrefixed t => simp [eq_comm]
  | ibcPrefixed ibc =>
    simp only [bind_eq_ok, reads_eq_ok, require_eq_ok, Base.mapIbcToTracePrefixedAsset, and_assoc,
      exists_and_left, exists_eq_left]

/-- A lock has its effect. -/
theorem executeBridgeLock_does {lock : BridgeLock} {s s' : Base} {u : Unit}
    {c : TransactionContext} (hc : s.ephemeral.transactionContext = some c)
    (h : executeBridgeLock lock s = .ok u s') : s.Does (lockEffect s c lock) s' := by
  obtain ⟨c', rollupId, trace, hc', hid, htrace, -, hmove, rfl⟩ := executeBridgeLock_eq_ok h
  obtain rfl : c = c' := Option.some.inj (hc.symm.trans hc')
  have hdeposit : (lockEffect s c lock).deposit = some (lockDeposit lock c rollupId trace) := by
    simp [lockEffect, hid, (depositAsset_eq_ok.mp htrace).1]
  have hdoes := Base.move_does hmove
  exact ⟨hdoes.event, hdoes.fits, hdoes.balance, hdoes.escrowFits, hdoes.escrow,
    by rw [hdeposit]; rfl, hdoes.blockFees, hdoes.transactionContext⟩

omit ext in
/-- An event that is recorded first goes along with an effect that records none. -/
theorem Base.Does.after_event {s s' : Base} {e : Effect} {a : AddressBytes} {i : String} {n : ℕ}
    (hnone : s.withdrawalEvent a i = none) (hevent : e.event = none)
    (h : (s.putWithdrawalEvent a i n).Does e s') : s.Does { e with event := some (a, i) } s' := by
  refine ⟨⟨hnone, n, fun b j => ?_⟩, h.fits, h.balance, h.escrowFits, h.escrow, h.deposits,
    h.blockFees, h.transactionContext⟩
  have hs' := h.event
  unfold Base.RecordsEvent at hs'
  rw [hevent] at hs'
  rw [hs', Base.withdrawalEvent_putWithdrawalEvent]

/-! ## Every action -/

/-- The kinds of actions that leave the funds as they are. -/
def ActionKind.leavesFunds : ActionKind → Bool
  | .rollupDataSubmission | .validatorUpdate | .sudoAddressChange | .ibcSudoChange
  | .ibcRelayerChange | .feeAssetChange | .feeChange | .recoverIbcClient | .currencyPairsChange
  | .marketsChange => true
  | .transfer | .ibcRelay | .ics20Withdrawal | .initBridgeAccount | .bridgeLock | .bridgeUnlock
  | .bridgeSudoChange | .bridgeTransfer => false

/-- The administrative actions but validator updates and changes of markets, and the submission of rollup
data, keep what their writes keep. -/
theorem Action.checkAndExecute_keepsNonMarket {R : Base → Base → Prop} [IsPreorder Base R]
    (hR : NonMarketWrites R) {act : Action} {s s' : State} {u : Unit}
    (hact : ActionKind.leavesFunds act.kind = true) (hkind : act.kind ≠ .validatorUpdate)
    (hmarkets : act.kind ≠ .marketsChange)
    (h : Action.checkAndExecute act s = .ok u s') : R s.base s'.base := by
  have hbase {x : BaseM Unit} (hx : Keeps R x) (hok : onBase x s = .ok u s') :
      R s.base s'.base := by
    obtain ⟨b, hb, rfl⟩ := onBase_eq_ok.mp hok
    exact hx.of_ok hb
  cases act with
  | rollupDataSubmission act =>
    rw [Action.checkAndExecute, pure_eq_ok] at h
    rw [h.2]
    exact refl_of R _
  | validatorUpdate act => exact absurd rfl hkind
  | sudoAddressChange act => exact hbase (SudoAddressChange.checkAndExecute_keeps hR act) h
  | ibcSudoChange act => exact hbase (IbcSudoChange.checkAndExecute_keeps hR act) h
  | ibcRelayerChange act => exact hbase (IbcRelayerChange.checkAndExecute_keeps hR act) h
  | feeAssetChange act => exact hbase (FeeAssetChange.checkAndExecute_keeps hR act) h
  | feeChange act => exact hbase (FeeChange.checkAndExecute_keeps hR act) h
  | recoverIbcClient act => exact hbase (RecoverIbcClient.checkAndExecute_keeps hR act) h
  | marketsChange act => exact absurd rfl hmarkets
  | currencyPairsChange act =>
    rw [CurrencyPairsChange.checkAndExecute_base h]
    exact refl_of R _
  | transfer act => cases hact
  | ibc act => cases hact
  | ics20Withdrawal act => cases hact
  | initBridgeAccount act => cases hact
  | bridgeLock act => cases hact
  | bridgeUnlock act => cases hact
  | bridgeSudoChange act => cases hact
  | bridgeTransfer act => cases hact

/-- The administrative actions but validator updates, and the submission of rollup data, keep what
their writes keep. -/
theorem Action.checkAndExecute_keepsSettings {R : Base → Base → Prop} [IsPreorder Base R]
    (hR : SettingsWrites R) {act : Action} {s s' : State} {u : Unit}
    (hact : ActionKind.leavesFunds act.kind = true) (hkind : act.kind ≠ .validatorUpdate)
    (h : Action.checkAndExecute act s = .ok u s') : R s.base s'.base := by
  by_cases hmarkets : act.kind = .marketsChange
  · cases act with
    | marketsChange act =>
      obtain ⟨b, hb, rfl⟩ := onBase_eq_ok.mp h
      exact (MarketsChange.checkAndExecute_keeps hR act).of_ok hb
    | _ => cases hmarkets
  · exact Action.checkAndExecute_keepsNonMarket hR.nonMarket hact hkind hmarkets h

/-- The administrative actions and the submission of rollup data keep what their writes keep. -/
theorem Action.checkAndExecute_keepsAdmin {R : Base → Base → Prop} [IsPreorder Base R]
    (hR : AdminWrites R) {act : Action} {s s' : State} {u : Unit}
    (hact : ActionKind.leavesFunds act.kind = true) (h : Action.checkAndExecute act s = .ok u s') :
    R s.base s'.base := by
  by_cases hkind : act.kind = .validatorUpdate
  · cases act with
    | validatorUpdate act =>
      obtain ⟨b, hb, rfl⟩ := onBase_eq_ok.mp h
      exact (ValidatorUpdate.checkAndExecute_keeps hR.validators act).of_ok hb
    | _ => cases hkind
  · exact Action.checkAndExecute_keepsSettings hR.settings hact hkind h

theorem Action.effect_of_leavesFunds {act : Action} (hact : ActionKind.leavesFunds act.kind = true) (s : Base)
    (c : TransactionContext) : Action.effect s c act = {} := by
  cases act <;> first | rfl | cases hact

omit ext in
/-- The configuration of bridge accounts moves no funds. -/
theorem Base.configures_does {s s' : Base} (haccounts : s'.accounts = s.accounts)
    (hevents : s'.bridge.withdrawalEvents = s.bridge.withdrawalEvents) (hibc : s'.ibc = s.ibc)
    (heph : s'.ephemeral = s.ephemeral) : s.Does {} s' := by
  have hbalance : s'.balance = s.balance := by
    unfold Base.balance
    rw [haccounts]
  have hescrow : s'.ibcChannelBalance = s.ibcChannelBalance := by
    unfold Base.ibcChannelBalance
    rw [hibc]
  refine ⟨?_, Ledger.fits_empty _ _, hbalance, Ledger.fits_empty _ _, hescrow, ?_, ?_, ?_⟩
  · change s'.withdrawalEvent = s.withdrawalEvent
    unfold Base.withdrawalEvent
    rw [hevents]
  · rw [heph, Option.toList_none, List.append_nil]
  · rw [heph]
  · rw [heph]

/-- The handler of every action has its effect. -/
theorem Action.checkAndExecute_does {act : Action} {s s' : State} {u : Unit}
    {c : TransactionContext} (hc : s.base.ephemeral.transactionContext = some c)
    (h : Action.checkAndExecute act s = .ok u s') :
    s.base.Does (Action.effect s.base c act) s'.base := by
  cases hact : ActionKind.leavesFunds act.kind with
  | true =>
    rw [Action.effect_of_leavesFunds hact]
    exact Base.SameFunds.does (Action.checkAndExecute_keepsAdmin adminWrites_sameFunds hact h)
  | false =>
    cases act with
    | transfer act =>
      obtain ⟨b, hb, rfl⟩ := onBase_eq_ok.mp h
      obtain ⟨c', hc', -, hmove, rfl⟩ := Transfer.checkAndExecute_eq_ok hb
      obtain rfl : c = c' := Option.some.inj (hc.symm.trans hc')
      exact Base.move_does hmove
    | bridgeLock act =>
      obtain ⟨b, hb, rfl⟩ := onBase_eq_ok.mp h
      obtain ⟨c', -, -, -, hlock⟩ := BridgeLock.checkAndExecute_eq_ok hb
      exact executeBridgeLock_does hc hlock
    | bridgeUnlock act =>
      obtain ⟨b, hb, rfl⟩ := onBase_eq_ok.mp h
      obtain ⟨asset, hasset, -, -, hevent, hmove, rfl⟩ := BridgeUnlock.checkAndExecute_eq_ok hb
      simp only [Action.effect, hasset]
      exact Base.Does.after_event hevent rfl (Base.move_does hmove)
    | bridgeTransfer act =>
      obtain ⟨b, hb, rfl⟩ := onBase_eq_ok.mp h
      obtain ⟨asset, hasset, -, hevent, hlock⟩ := BridgeTransfer.checkAndExecute_eq_ok hb
      simp only [Action.effect, hasset]
      exact Base.Does.after_event hevent rfl (executeBridgeLock_does hc hlock)
    | ics20Withdrawal act =>
      obtain ⟨b, hb, rfl⟩ := onBase_eq_ok.mp h
      obtain ⟨c', hc', -, hdoes⟩ := Ics20Withdrawal.checkAndExecute_does hb
      obtain rfl : c = c' := Option.some.inj (hc.symm.trans hc')
      exact hdoes
    | ibc msg =>
      obtain ⟨b, hb, rfl⟩ := onBase_eq_ok.mp h
      exact executeIbcRelay_does hb
    | initBridgeAccount act =>
      obtain ⟨b, hb, rfl⟩ := onBase_eq_ok.mp h
      obtain ⟨c', -, -, rfl⟩ := InitBridgeAccount.checkAndExecute_eq_ok hb
      exact Base.configures_does rfl rfl rfl rfl
    | bridgeSudoChange act =>
      obtain ⟨b, hb, rfl⟩ := onBase_eq_ok.mp h
      obtain ⟨c', -, -, rfl⟩ := BridgeSudoChange.checkAndExecute_eq_ok hb
      cases act.newSudoAddress <;> cases act.newWithdrawerAddress <;>
        exact Base.configures_does rfl rfl rfl rfl
    | rollupDataSubmission act => cases hact
    | validatorUpdate act => cases hact
    | sudoAddressChange act => cases hact
    | ibcSudoChange act => cases hact
    | ibcRelayerChange act => cases hact
    | feeAssetChange act => cases hact
    | feeChange act => cases hact
    | recoverIbcClient act => cases hact
    | currencyPairsChange act => cases hact
    | marketsChange act => cases hact

/-! ## Fees -/

/-- The fee that is recorded for an action. -/
def feeRecord (act : Action) (c : TransactionContext) (fee : IbcPrefixed × ℕ) : Fee :=
  { actionName := act.kind.fullName
    asset := .ibcPrefixed fee.1
    amount := fee.2
    positionInTransaction := c.positionInTransaction }

/-- The signer pays a fee. -/
def feePosting (c : TransactionContext) (fee : Option (IbcPrefixed × ℕ)) :
    Posting AddressBytes IbcPrefixed :=
  { debit := fee.map fun f => { account := c.addressBytes, asset := f.1, amount := f.2 } }

/-- `s'` is `s` after the fee of an action was paid and recorded. -/
structure Base.Pays (s : Base) (act : Action) (c : TransactionContext)
    (fee : Option (IbcPrefixed × ℕ)) (s' : Base) : Prop where
  fits : Ledger.Fits u128Max (feePosting c fee) s.balance
  balance : s'.balance = Ledger.post (feePosting c fee) s.balance
  blockFees :
    s'.ephemeral.blockFees = s.ephemeral.blockFees ++ (fee.map (feeRecord act c)).toList
  bridge : s'.bridge = s.bridge
  escrow : s'.ibcChannelBalance = s.ibcChannelBalance
  deposits : s'.ephemeral.deposits = s.ephemeral.deposits
  transactionContext : s'.ephemeral.transactionContext = s.ephemeral.transactionContext

/-- Fees are taken from the signer and recorded. -/
theorem checkAndPayFees_pays {act : Action} {s s' : Base} {u : Unit} {c : TransactionContext}
    (hc : s.ephemeral.transactionContext = some c) (h : checkAndPayFees act s = .ok u s') :
    s.Pays act c (feeOf s act) s' := by
  rcases checkAndPayFees_eq_ok h with ⟨hfee, rfl⟩ | ⟨c', asset, amount, hc', hfee, hle, rfl⟩
  · rw [hfee]
    exact ⟨Ledger.fits_empty _ _, rfl, by simp, rfl, rfl, rfl, rfl⟩
  · obtain rfl : c = c' := Option.some.inj (hc.symm.trans hc')
    rw [hfee]
    refine ⟨⟨?_, ?_⟩, ?_, rfl, rfl, rfl, rfl, rfl⟩
    · rintro e ⟨⟩
      exact hle
    · rintro e ⟨⟩
    · exact Base.balance_putAccountBalance_eq _ _ _ _

/-! ## The actions of a transaction -/

/-- Every action but a relayed IBC message is executed and pays its fee. -/
theorem executeAction_eq {act : Action} (hact : act.kind ≠ .ibcRelay) (source : AddressBytes) :
    executeAction source act = wrapErr (ActionKind.executionContext act.kind) (do
      Action.checkAndExecute act
      onBase (checkAndPayFees act)) := by
  cases act <;> first | rfl | exact absurd rfl hact

/-- An action runs its handler and then pays its fee; a relayed IBC message does not come to its fee. -/
theorem executeAction_parts {source : AddressBytes} {act : Action} {s s' : State} {u : Unit}
    (h : executeAction source act s = .ok u s') :
    ∃ t, Action.checkAndExecute act s = .ok () t ∧
      (act.kind = .ibcRelay ∧ s' = t ∨
        ∃ b, checkAndPayFees act t.base = .ok u b ∧ s' = { t with base := b }) := by
  by_cases hkind : act.kind = .ibcRelay
  · cases act with
    | ibc msg =>
      simp only [executeAction, bind_eq_ok, mapErr_eq_ok] at h
      obtain ⟨_, t, hrelayer, hmsg⟩ := h
      obtain ⟨b, hb, rfl⟩ := onBase_eq_ok.mp hrelayer
      simp only [bind_eq_ok, reads_eq_ok, ensure_eq_ok, and_assoc, exists_and_left,
        exists_eq_left] at hb
      obtain ⟨-, rfl⟩ := hb
      exact ⟨s', hmsg, .inl ⟨rfl, rfl⟩⟩
    | _ => cases hkind
  · rw [executeAction_eq hkind] at h
    simp only [mapErr_eq_ok, bind_eq_ok] at h
    obtain ⟨_, t, hact, hfees⟩ := h
    obtain ⟨b, hb, rfl⟩ := onBase_eq_ok.mp hfees
    exact ⟨t, hact, .inr ⟨b, hb, rfl⟩⟩

/-- An action runs its handler and pays its fee; a relayed IBC message has no fee. -/
theorem executeAction_ok {source : AddressBytes} {act : Action} {s s' : State} {u : Unit}
    {c : TransactionContext} (hc : s.base.ephemeral.transactionContext = some c)
    (h : executeAction source act s = .ok u s') :
    ∃ t, Action.checkAndExecute act s = .ok () t ∧ t.base.Pays act c (feeOf t.base act) s'.base ∧
      s'.oracle = t.oracle := by
  obtain ⟨t, hact, ⟨hkind, rfl⟩ | ⟨b, hb, rfl⟩⟩ := executeAction_parts h
  · cases act with
    | ibc msg =>
      have hnone : feeOf s'.base (.ibc msg) = none := by
        unfold feeOf
        cases s'.base.fees.components (Action.ibc msg).kind <;> rfl
      refine ⟨s', hact, ?_, rfl⟩
      rw [hnone]
      exact ⟨Ledger.fits_empty _ _, rfl, by simp, rfl, rfl, rfl, rfl⟩
    | _ => cases hkind
  · have hctx := (Action.checkAndExecute_does hc hact).transactionContext
    exact ⟨t, hact, checkAndPayFees_pays (hctx.trans hc) hb, rfl⟩

/-- The state in which an action of a transaction runs: its context is put first. -/
def State.withContext (c : TransactionContext) (s : State) : State :=
  { s with base := s.base.putTransactionContext c }

/-- The actions of a transaction run one after the other, each under its own context. -/
theorem executeActions_cons_ok {source : AddressBytes} {id : TransactionId} {act : Action}
    {rest : List Action} {position : ℕ} {s s' : State} {u : Unit} :
    executeActions source id (act :: rest) position s = .ok u s' ↔
      ∃ t, executeAction source act (s.withContext
          { addressBytes := source, transactionId := id, positionInTransaction := position }) =
            .ok () t ∧
        executeActions source id rest (position + 1) t = .ok u s' := by
  rw [executeActions, bind_eq_ok]
  constructor
  · rintro ⟨_, t, hput, h⟩
    obtain ⟨b, hb, rfl⟩ := onBase_eq_ok.mp hput
    rw [writes_eq_ok] at hb
    subst hb
    rw [bind_eq_ok] at h
    obtain ⟨_, r, hact, hrest⟩ := h
    exact ⟨r, hact, hrest⟩
  · rintro ⟨t, hact, hrest⟩
    exact ⟨(), _, onBase_eq_ok.mpr ⟨_, rfl, rfl⟩, bind_eq_ok.mpr ⟨(), t, hact, hrest⟩⟩

/-- What every action of a transaction keeps is kept by all of them. -/
theorem executeActions_invariant {I : State → Prop} {source : AddressBytes} {id : TransactionId}
    {acts : List Action} {position : ℕ} {s s' : State} {u : Unit}
    (hstep : ∀ act ∈ acts, ∀ c : TransactionContext, c.addressBytes = source →
      c.transactionId = id → ∀ t r, I t →
      executeAction source act (t.withContext c) = .ok () r → I r)
    (hs : I s) (h : executeActions source id acts position s = .ok u s') : I s' := by
  induction acts generalizing position s with
  | nil =>
    rw [executeActions, pure_eq_ok] at h
    exact h.2 ▸ hs
  | cons act rest ih =>
    obtain ⟨t, hact, hrest⟩ := executeActions_cons_ok.mp h
    exact ih (fun a ha => hstep a (List.mem_cons_of_mem _ ha))
      (hstep act List.mem_cons_self _ rfl rfl s t hs hact) hrest

/-! ## The frame of a transaction -/

/-- What the checks before the first action leave: everything but nonces, the last transaction
ids and the context. -/
structure Base.SamePrepared (s s' : Base) : Prop where
  balance : s'.balance = s.balance
  bridge : s'.bridge = s.bridge
  escrow : s'.ibcChannelBalance = s.ibcChannelBalance
  deposits : s'.ephemeral.deposits = s.ephemeral.deposits
  blockFees : s'.ephemeral.blockFees = s.ephemeral.blockFees
  assets : s'.assets = s.assets
  prefixes : s'.prefixes = s.prefixes

instance : IsPreorder Base Base.SamePrepared where
  refl _ := ⟨rfl, rfl, rfl, rfl, rfl, rfl, rfl⟩
  trans _ _ _ h h' :=
    ⟨h'.balance.trans h.balance, h'.bridge.trans h.bridge, h'.escrow.trans h.escrow,
      h'.deposits.trans h.deposits, h'.blockFees.trans h.blockFees, h'.assets.trans h.assets,
      h'.prefixes.trans h.prefixes⟩

variable [codec : TransactionCodec]

theorem prepareTransaction_keeps (tx : Transaction) :
    Keeps Base.SamePrepared (prepareTransaction tx) := by
  have hcosts : Keeps Base.SamePrepared (checkBalanceForTotalFeesAndTransfers tx) := by
    refine Keeps.bind (by simp) fun costs => Keeps.forEach (fun cost => ?_) costs
    exact Keeps.bind (by simp) fun _ => by simp
  refine Keeps.bind (keeps_writes fun _ => ⟨rfl, rfl, rfl, rfl, rfl, rfl, rfl⟩) fun _ => ?_
  refine Keeps.bind (by simp) fun _ => Keeps.bind (by simp) fun _ => Keeps.bind (by simp) fun _ => ?_
  refine Keeps.bind (by simp) fun _ => Keeps.bind (hcosts.mapErr _) fun _ => ?_
  refine Keeps.bind (by simp) fun isBridge => ?_
  have hnonce (n : ℕ) : Keeps Base.SamePrepared (do
      let next ← (require (checkedAdd u32Max n 1)
        ["overflow occurred incrementing stored nonce"] : BaseM ℕ)
      writes (Base.putAccountNonce (signer tx) next)) :=
    Keeps.bind (by simp) fun _ => keeps_writes fun _ => ⟨rfl, rfl, rfl, rfl, rfl, rfl, rfl⟩
  refine Keeps.ite ?_ (hnonce _)
  exact Keeps.bind (keeps_writes fun _ => ⟨rfl, rfl, rfl, rfl, rfl, rfl, rfl⟩) fun _ => hnonce _

/-- A transaction that succeeds has run its actions between its preparation and the removal of
its context; neither of the two touches the funds. -/
theorem executeTransaction_run {tx : Transaction} {s s' : State} {events : List Event}
    (h : executeTransaction tx s = (.ok events, s')) :
    ∃ t r, s.base.SamePrepared t.base ∧ t.oracle = s.oracle ∧
      executeActions (signer tx) (transactionId tx) tx.actions.inner 0 t = .ok () r ∧
      r.base.SamePrepared s'.base ∧ s'.oracle = r.oracle := by
  obtain ⟨-, b, r, hb, hacts, rfl⟩ := executeTransaction_parts h
  have hstart : s.base.SamePrepared (s.withEvents []).base := ⟨rfl, rfl, rfl, rfl, rfl, rfl, rfl⟩
  exact ⟨{ base := b, oracle := s.oracle }, r,
    trans_of _ hstart ((prepareTransaction_keeps tx).of_ok hb), rfl, hacts,
    ⟨rfl, rfl, rfl, rfl, rfl, rfl, rfl⟩, rfl⟩

end

end Astria.Sequencer
