import Astria.Sequencer.Transaction
import Astria.Sequencer.ActionHandler.Ics20Spec

/-!
# Lack of funds

The reports with which an action fails because an account does not have what is taken from it, and
what they say about the balances.  Every other failure has another report.

Results:
* one `..._lacks` lemma for each handler that takes funds: it raises such a report only if the
  account that it takes from does not have the amount;
* `checkAndPayFees_lacks`: the payment of a fee does so only if the signer does not have the fee;
* `InitBridgeAccount.checkAndExecute_otherReport`, `BridgeSudoChange.checkAndExecute_otherReport`: the
  handlers of the other actions that pay a fee never do.
-/

namespace Astria.Sequencer

open Astria.Core Astria.Lib Exec

/-! ## Reports -/

/-- The text of `decrease_balance`. -/
def insufficientFunds : String :=
  "subtracting from account balance failed due to insufficient funds"

/-- The report of a fee that the signer cannot pay. -/
def lacksFee : Report := ["failed to decrease balance for fee payment", insufficientFunds]

/-- The reports of the handlers about an account that does not have what is taken from it. -/
def lacksFunds : List Report :=
  [["insufficient funds for transfer"],
    ["failed decreasing `from` account balance", insufficientFunds],
    ["failed to decrease sender or bridge balance", insufficientFunds]]

/-- A report is not about a lack of funds. -/
def OtherReport (e : Report) : Prop := e ≠ lacksFee ∧ e ∉ lacksFunds

/-- What the reports about a lack of funds start with. -/
def fundsContexts : List String :=
  ["failed to decrease balance for fee payment", "insufficient funds for transfer",
    "failed decreasing `from` account balance", "failed to decrease sender or bridge balance"]

theorem otherReport_cons {context : String} (h : context ∉ fundsContexts) (e : Report) :
    OtherReport (context :: e) := by
  simp only [fundsContexts, List.mem_cons, List.not_mem_nil, or_false, not_or] at h
  simp [OtherReport, lacksFee, lacksFunds, h]

theorem ensure_otherReport {p : Prop} [Decidable p] {text : String} (h : text ∉ fundsContexts) :
    Fails OtherReport (ensure p [text] : BaseM Unit) :=
  fails_ensure (otherReport_cons h [])

theorem require_otherReport {α : Type} {o : Option α} {text : String}
    (h : text ∉ fundsContexts) : Fails OtherReport (require o [text] : BaseM α) :=
  fails_require (otherReport_cons h [])

theorem wrapErr_otherReport {α : Type} {context : String} (h : context ∉ fundsContexts)
    (x : BaseM α) : Fails OtherReport (wrapErr context x) :=
  fails_mapErr (fun e => otherReport_cons h e) x

theorem decreaseBalance_eq_error {a : AddressBytes} {i : IbcPrefixed} {n : ℕ} {s s' : Base}
    {e : Report} (h : decreaseBalance a i n s = .error e s') :
    e = [insufficientFunds] ∧ s.balance a i < n := by
  simp only [decreaseBalance, bind_eq_error, reads_eq_error, reads_eq_ok, require_eq_error,
    writes_eq_error, and_assoc, exists_and_left, exists_eq_left, and_false, exists_false,
    or_false, false_or] at h
  obtain ⟨hsub, he, -⟩ := h
  unfold checkedSub at hsub
  split_ifs at hsub with hle
  exact ⟨he, Nat.lt_of_not_le hle⟩

/-! ## Checks -/

theorem getTransactionContext_otherReport : Fails OtherReport getTransactionContext := by
  refine fails_tryReads fun s e h => ?_
  cases hc : s.ephemeral.transactionContext with
  | none =>
    simp only [hc, Except.error.injEq] at h
    subst h
    exact otherReport_cons (by decide) []
  | some c =>
    simp only [hc] at h
    cases h

theorem checkWithdrawer_otherReport (source : AddressBytes) :
    Fails OtherReport (checkWithdrawer source) := by
  refine Fails.bind (fails_reads _) fun isBridge => Fails.ite ?_ (fails_pure _)
  refine Fails.bind getTransactionContext_otherReport fun _ => ?_
  refine Fails.bind (fails_reads _) fun _ => ?_
  exact Fails.bind (require_otherReport (by decide)) fun _ => ensure_otherReport (by decide)

theorem depositAsset_otherReport (asset : Denom) : Fails OtherReport (depositAsset asset) := by
  cases asset with
  | tracePrefixed trace => exact fails_pure _
  | ibcPrefixed ibc =>
    exact Fails.bind (fails_reads _) fun _ => require_otherReport (by decide)

theorem checkBridgeUnlock_otherReport (unlock : BridgeUnlock) :
    Fails OtherReport (checkBridgeUnlock unlock) :=
  Fails.bind (wrapErr_otherReport (by decide) _) fun _ => wrapErr_otherReport (by decide) _

/-! ## Transfers -/

section

variable [ext : External] {s s' : Base} {e : Report}

theorem checkTransfer_lacks {act : Transfer} {source : AddressBytes} (he : ¬OtherReport e)
    (h : checkTransfer act source s = .error e s') :
    e ∈ lacksFunds ∧ s.balance source act.asset.toIbcPrefixed < act.amount := by
  obtain ⟨_, -, hwithdrawer⟩ := (wrapErr_otherReport (by decide) _).check_error (by simp) he h
  obtain ⟨_, t, hw, hbalance⟩ := (checkWithdrawer_otherReport source).bind_error he hwithdrawer
  obtain ⟨rfl, -⟩ := checkWithdrawer_eq_ok.mp hw
  simp only [bind_eq_error, reads_eq_error, reads_eq_ok, ensure_eq_error, and_assoc,
    exists_and_left, exists_eq_left, false_or] at hbalance
  obtain ⟨hle, rfl, -⟩ := hbalance
  exact ⟨by simp [lacksFunds], Nat.lt_of_not_le hle⟩

theorem executeTransfer_lacks {act : Transfer} {source : AddressBytes} (he : ¬OtherReport e)
    (h : executeTransfer act source s = .error e s') :
    e ∈ lacksFunds ∧ s.balance source act.asset.toIbcPrefixed < act.amount := by
  rcases bind_eq_error.mp h with h | ⟨_, t, -, h⟩
  · obtain ⟨e', hdecrease, rfl⟩ := mapErr_eq_error.mp h
    obtain ⟨rfl, hlt⟩ := decreaseBalance_eq_error hdecrease
    exact ⟨by simp [lacksFunds], hlt⟩
  · obtain ⟨e', -, rfl⟩ := mapErr_eq_error.mp h
    exact absurd (otherReport_cons (by decide) e') he

/-- The check and the execution of a transfer look at the same balance. -/
theorem checkedTransfer_lacks {act : Transfer} {source : AddressBytes} (he : ¬OtherReport e)
    (h : (checkTransfer act source >>= fun _ => executeTransfer act source) s = .error e s') :
    e ∈ lacksFunds ∧ s.balance source act.asset.toIbcPrefixed < act.amount := by
  rcases bind_eq_error.mp h with hcheck | ⟨_, t, ht, hexec⟩
  · exact checkTransfer_lacks he hcheck
  · obtain ⟨-, -, -, rfl⟩ := checkTransfer_eq_ok.mp ht
    exact executeTransfer_lacks he hexec

theorem Transfer.checkAndExecute_lacks {act : Transfer} {c : TransactionContext}
    (hc : s.ephemeral.transactionContext = some c) (he : ¬OtherReport e)
    (h : Transfer.checkAndExecute act s = .error e s') :
    e ∈ lacksFunds ∧ s.balance c.addressBytes act.asset.toIbcPrefixed < act.amount := by
  obtain ⟨c', t, hc', hbridge⟩ := getTransactionContext_otherReport.bind_error he h
  obtain ⟨hc', rfl⟩ := getTransactionContext_eq_ok.mp hc'
  obtain rfl : c = c' := Option.some.inj (hc.symm.trans hc')
  obtain ⟨_, -, hensure⟩ := (fails_reads _).check_error (by simp) he hbridge
  obtain ⟨_, -, hmove⟩ := (ensure_otherReport (by decide)).check_error (by simp) he hensure
  exact checkedTransfer_lacks he hmove

/-! ## Locks -/

theorem executeBridgeLock_lacks {lock : BridgeLock} {c : TransactionContext}
    (hc : s.ephemeral.transactionContext = some c) (he : ¬OtherReport e)
    (h : executeBridgeLock lock s = .error e s') :
    e ∈ lacksFunds ∧ s.balance c.addressBytes lock.asset.toIbcPrefixed < lock.amount := by
  obtain ⟨c', t, hc', hid⟩ := getTransactionContext_otherReport.bind_error he h
  obtain ⟨hc', rfl⟩ := getTransactionContext_eq_ok.mp hc'
  obtain rfl : c = c' := Option.some.inj (hc.symm.trans hc')
  obtain ⟨_, -, hrequire⟩ := (fails_reads _).check_error (by simp) he hid
  obtain ⟨rollupId, -, hasset⟩ :=
    (require_otherReport (by decide)).check_error (by simp) he hrequire
  obtain ⟨trace, t', htrace, hmove⟩ :=
    (depositAsset_otherReport lock.asset).bind_error he hasset
  obtain rfl := depositAsset_state htrace
  rcases bind_eq_error.mp hmove with hcheck | ⟨_, q, hq, hexec⟩
  · exact checkTransfer_lacks he hcheck
  · obtain ⟨-, -, -, rfl⟩ := checkTransfer_eq_ok.mp hq
    rcases bind_eq_error.mp hexec with hexec | ⟨_, r, -, hwrites⟩
    · exact executeTransfer_lacks he hexec
    · simp at hwrites

theorem BridgeLock.checkAndExecute_lacks {act : BridgeLock} {c : TransactionContext}
    (hc : s.ephemeral.transactionContext = some c) (he : ¬OtherReport e)
    (h : BridgeLock.checkAndExecute act s = .error e s') :
    e ∈ lacksFunds ∧ s.balance c.addressBytes act.asset.toIbcPrefixed < act.amount := by
  obtain ⟨c', t, hc', hbridge⟩ := getTransactionContext_otherReport.bind_error he h
  obtain ⟨hc', rfl⟩ := getTransactionContext_eq_ok.mp hc'
  obtain ⟨_, -, hensure⟩ := (fails_reads _).check_error (by simp) he hbridge
  obtain ⟨_, -, hprefix⟩ := (ensure_otherReport (by decide)).check_error (by simp) he hensure
  obtain ⟨_, -, hasset⟩ := (wrapErr_otherReport (by decide) _).check_error (by simp) he hprefix
  obtain ⟨_, -, hallowed⟩ := (wrapErr_otherReport (by decide) _).check_error (by simp) he hasset
  obtain ⟨_, -, hlock⟩ := (ensure_otherReport (by decide)).check_error (by simp) he hallowed
  exact executeBridgeLock_lacks hc he hlock

/-! ## Unlocks and bridge transfers -/

theorem BridgeUnlock.checkAndExecute_lacks {act : BridgeUnlock} (he : ¬OtherReport e)
    (h : BridgeUnlock.checkAndExecute act s = .error e s') :
    ∃ asset, s.bridge.ibcAsset act.bridgeAddress.bytes = some asset ∧
      e ∈ lacksFunds ∧ s.balance act.bridgeAddress.bytes asset < act.amount := by
  obtain ⟨_, t, ht, hbridge⟩ := (checkBridgeUnlock_otherReport act).bind_error he h
  have hsame : t = s := by
    simp only [checkBridgeUnlock, bind_eq_ok, mapErr_eq_ok, ensureBasePrefix_eq_ok] at ht
    obtain ⟨_, q, ⟨-, rfl⟩, -, rfl⟩ := ht
    rfl
  subst hsame
  obtain ⟨_, -, hensure⟩ := (fails_reads _).check_error (by simp) he hbridge
  obtain ⟨_, -, hstored⟩ := (ensure_otherReport (by decide)).check_error (by simp) he hensure
  obtain ⟨asset, hasset, hcheck⟩ :=
    (wrapErr_otherReport (by decide) _).check_error (by simp) he hstored
  simp only [mapErr_eq_ok, tryReads_eq_ok, Base.getBridgeAccountIbcAsset_eq_ok] at hasset
  refine ⟨asset, hasset.1, ?_⟩
  rcases bind_eq_error.mp hcheck with hcheck | ⟨_, q, hq, hevent⟩
  · exact checkTransfer_lacks he hcheck
  · obtain ⟨-, -, hle, rfl⟩ := checkTransfer_eq_ok.mp hq
    obtain ⟨_, r, hr, hexec⟩ := (wrapErr_otherReport (by decide) _).bind_error he hevent
    obtain ⟨-, rfl⟩ := checkAndSetWithdrawalEvent_eq_ok.mp (mapErr_eq_ok.mp hr)
    exact executeTransfer_lacks he hexec

theorem BridgeTransfer.checkAndExecute_lacks {act : BridgeTransfer} {c : TransactionContext}
    (hc : s.ephemeral.transactionContext = some c) (he : ¬OtherReport e)
    (h : BridgeTransfer.checkAndExecute act s = .error e s') :
    ∃ asset, s.bridge.ibcAsset act.bridgeAddress.bytes = some asset ∧
      e ∈ lacksFunds ∧ s.balance c.addressBytes asset < act.amount := by
  obtain ⟨_, t, ht, hfrom⟩ :=
    (checkBridgeUnlock_otherReport (BridgeTransfer.unlock act)).bind_error he h
  have hsame : t = s := by
    simp only [checkBridgeUnlock, bind_eq_ok, mapErr_eq_ok, ensureBasePrefix_eq_ok] at ht
    obtain ⟨_, q, ⟨-, rfl⟩, -, rfl⟩ := ht
    rfl
  subst hsame
  obtain ⟨asset, hasset, hto⟩ :=
    (wrapErr_otherReport (by decide) _).check_error (by simp) he hfrom
  simp only [mapErr_eq_ok, tryReads_eq_ok, Base.getBridgeAccountIbcAsset_eq_ok] at hasset
  obtain ⟨_, -, hensure⟩ := (wrapErr_otherReport (by decide) _).check_error (by simp) he hto
  obtain ⟨_, -, hevent⟩ := (ensure_otherReport (by decide)).check_error (by simp) he hensure
  obtain ⟨_, r, hr, hlock⟩ := (wrapErr_otherReport (by decide) _).bind_error he hevent
  obtain ⟨-, rfl⟩ := checkAndSetWithdrawalEvent_eq_ok.mp (mapErr_eq_ok.mp hr)
  have hc' : (t.putWithdrawalEvent act.bridgeAddress.bytes act.rollupWithdrawalEventId
      act.rollupBlockNumber).ephemeral.transactionContext = some c := hc
  exact ⟨asset, hasset.1, executeBridgeLock_lacks hc' he hlock⟩

/-! ## Withdrawals over IBC -/

theorem checkWithdrawalMemo_otherReport (act : Ics20Withdrawal) :
    Fails OtherReport (checkWithdrawalMemo act) := by
  unfold checkWithdrawalMemo
  cases act.bridgeAddress with
  | none => exact fails_pure _
  | some b =>
    refine Fails.bind (wrapErr_otherReport (by decide) _) fun _ => ?_
    refine Fails.bind (require_otherReport (by decide)) fun _ => ?_
    exact wrapErr_otherReport (by decide) _

theorem escrow_otherReport (act : Ics20Withdrawal) : Fails OtherReport (escrow act) := by
  refine Fails.ite ?_ (fails_pure _)
  refine Fails.bind (fails_reads _) fun _ => ?_
  exact Fails.bind (require_otherReport (by decide)) fun _ => fails_writes _

theorem Ics20Withdrawal.checkAndExecute_lacks {act : Ics20Withdrawal} {c : TransactionContext}
    (hc : s.ephemeral.transactionContext = some c) (he : ¬OtherReport e)
    (h : Ics20Withdrawal.checkAndExecute act s = .error e s') :
    e ∈ lacksFunds ∧ s.balance (Ics20Withdrawal.target act c.addressBytes)
      act.denom.toIbcPrefixed < act.amount := by
  obtain ⟨c', t, hc', hprefix⟩ := getTransactionContext_otherReport.bind_error he h
  obtain ⟨hc', rfl⟩ := getTransactionContext_eq_ok.mp hc'
  obtain rfl : c = c' := Option.some.inj (hc.symm.trans hc')
  obtain ⟨_, -, hmemo⟩ := (wrapErr_otherReport (by decide) _).check_error (by simp) he hprefix
  obtain ⟨_, q, hq, htarget⟩ := (checkWithdrawalMemo_otherReport act).bind_error he hmemo
  have hbalance : q.balance = t.balance := (checkWithdrawalMemo_does hq).1.balance
  obtain ⟨target, q', hq', htime⟩ := (wrapErr_otherReport (by decide) _).bind_error he htarget
  obtain ⟨rfl, rfl, -⟩ := establishWithdrawalTarget_ok (mapErr_eq_ok.mp hq')
  obtain ⟨_, -, hpacket⟩ := (wrapErr_otherReport (by decide) _).check_error (by simp) he htime
  obtain ⟨packet, r, hr, hhost⟩ := (wrapErr_otherReport (by decide) _).bind_error he hpacket
  obtain rfl := createIbcPacket_state (mapErr_eq_ok.mp hr)
  obtain ⟨_, -, hsend⟩ := (fails_reads _).check_error (by simp) he hhost
  obtain ⟨_, -, hdebit⟩ := (wrapErr_otherReport (by decide) _).check_error (by simp) he hsend
  rcases bind_eq_error.mp hdebit with hdebit | ⟨_, r, -, hescrow⟩
  · obtain ⟨e', hdecrease, rfl⟩ := mapErr_eq_error.mp hdebit
    obtain ⟨rfl, hlt⟩ := decreaseBalance_eq_error hdecrease
    rw [hbalance] at hlt
    exact ⟨by simp [lacksFunds], hlt⟩
  · have hother : Fails OtherReport (escrow act >>= fun _ =>
        writeIbc (ext.ibcSendPacketExecute packet)) :=
      Fails.bind (escrow_otherReport act) fun _ => fails_writes _
    exact absurd (hother _ _ _ hescrow) he

/-! ## Actions that take nothing -/

omit ext in
theorem ensureOptionalPrefix_otherReport {context : String} (h : context ∉ fundsContexts)
    (a : Option Address) : Fails OtherReport (ensureOptionalPrefix context a) := by
  cases a with
  | none => exact fails_pure _
  | some a => exact wrapErr_otherReport h _

theorem InitBridgeAccount.checkAndExecute_otherReport (act : InitBridgeAccount) :
    Fails OtherReport (InitBridgeAccount.checkAndExecute act) := by
  refine Fails.bind getTransactionContext_otherReport fun c => ?_
  refine Fails.bind (ensureOptionalPrefix_otherReport (by decide) _) fun _ => ?_
  refine Fails.bind (ensureOptionalPrefix_otherReport (by decide) _) fun _ => ?_
  refine Fails.bind (fails_reads _) fun _ => Fails.bind (ensure_otherReport (by decide)) fun _ => ?_
  refine Fails.bind (fails_writes _) fun _ => Fails.bind (fails_writes _) fun _ => ?_
  exact Fails.bind (fails_writes _) fun _ => fails_writes _

omit ext in
theorem BridgeSudoChange.checkAndExecute_otherReport (act : BridgeSudoChange) :
    Fails OtherReport (BridgeSudoChange.checkAndExecute act) := by
  refine Fails.bind getTransactionContext_otherReport fun c => ?_
  refine Fails.bind (wrapErr_otherReport (by decide) _) fun _ => ?_
  refine Fails.bind (ensureOptionalPrefix_otherReport (by decide) _) fun _ => ?_
  refine Fails.bind (ensureOptionalPrefix_otherReport (by decide) _) fun _ => ?_
  refine Fails.bind (fails_reads _) fun _ => ?_
  refine Fails.bind (require_otherReport (by decide)) fun _ => ?_
  refine Fails.bind (ensure_otherReport (by decide)) fun _ => ?_
  cases act.newSudoAddress <;> cases act.newWithdrawerAddress <;> simp [Fails]

/-! ## Fees -/

omit ext in
theorem feesNotFound_otherContext (kind : ActionKind) :
    kind.name ++ " fees not found, so this action is disabled" ∉ fundsContexts := by
  cases kind <;> decide

/-- The payment of a fee fails for lack of funds only if the signer does not have the fee. -/
theorem checkAndPayFees_lacks {act : Action} {c : TransactionContext}
    (hc : s.ephemeral.transactionContext = some c) (he : ¬OtherReport e)
    (h : checkAndPayFees act s = .error e s') :
    e = lacksFee ∧
      ∃ fee, feeOf s act = some fee ∧ s.balance c.addressBytes fee.1 < fee.2 := by
  obtain ⟨components, hcomponents, hrequire⟩ := (fails_reads _).check_error (by simp) he h
  obtain ⟨hcomponents, -⟩ := reads_eq_ok.mp hcomponents
  obtain ⟨fees, hfees, hpay⟩ :=
    (require_otherReport (feesNotFound_otherContext act.kind)).check_error (by simp) he hrequire
  have hsome : s.fees.components act.kind = some fees := by
    rw [← hcomponents]
    exact (require_eq_ok.mp hfees).1
  cases hasset : feeAsset act with
  | none => simp [hasset] at hpay
  | some denom =>
    simp only [hasset] at hpay
    obtain ⟨_, -, hensure⟩ := (fails_reads _).check_error (by simp) he hpay
    obtain ⟨_, -, hcontext⟩ := (ensure_otherReport (by decide)).check_error (by simp) he hensure
    obtain ⟨c', t, hc', hwrite⟩ := getTransactionContext_otherReport.bind_error he hcontext
    obtain ⟨hc', rfl⟩ := getTransactionContext_eq_ok.mp hc'
    obtain rfl : c = c' := Option.some.inj (hc.symm.trans hc')
    obtain ⟨_, q, hq, hdebit⟩ := (fails_writes _).bind_error he hwrite
    obtain rfl := (writes_eq_ok.mp hq)
    obtain ⟨e', hdecrease, rfl⟩ := mapErr_eq_error.mp hdebit
    obtain ⟨rfl, hlt⟩ := decreaseBalance_eq_error hdecrease
    exact ⟨rfl, (denom.toIbcPrefixed, totalFees fees act), by simp [feeOf, hsome, hasset], hlt⟩

end

end Astria.Sequencer
