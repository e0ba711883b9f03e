import Astria.Sequencer.ActionHandler.LackOfFunds
import Astria.Sequencer.Authorization

/-!
# The costs of a transaction

A transaction is checked against the balances of its signer before its first action: the fees and the
transferred values of all its actions are added up by asset, whichever account an action takes its
value from.

Results:
* `getTotalTransactionCost_eq`: what is reported for an asset is the sum over the actions, where the
  sum fits in 128 bits;
* `Executing.charge`: an action takes from the signer what it is charged for, less what it takes from
  another account;
* `executeAction_lacksFunds`: an action that fails for lack of funds is not covered by its account;
* `executeTransaction_costs`: what leaves the account of the signer is what was reported, less what was
  taken from other accounts or credited to the signer, and no action lacks the funds of the signer;
* `costs_differ`: it is not what was reported in general, and a sum that does not fit is not covered.
-/

namespace Astria.Sequencer

open Astria.Core Astria.Lib Exec

/-! ## Reported costs -/

/-- What a map of costs has for an asset. -/
def costIn (i : IbcPrefixed) (costs : Costs) : ℕ := (costs.lookup i).getD 0

/-- What a charge amounts to in an asset. -/
def chargeIn (i : IbcPrefixed) (charge : Option (IbcPrefixed × ℕ)) : ℕ :=
  charge.elim 0 fun c => if i = c.1 then c.2 else 0

/-- A cost is added without loss where the sum fits. -/
theorem costIn_addCost {i asset : IbcPrefixed} {amount : ℕ} {costs : Costs}
    (hfit : costIn i costs + chargeIn i (some (asset, amount)) ≤ u128Max) :
    costIn i (addCost asset amount costs) = costIn i costs + chargeIn i (some (asset, amount)) := by
  unfold costIn chargeIn at *
  simp only [Option.elim_some] at *
  induction costs with
  | nil =>
    rw [addCost, List.lookup_cons]
    by_cases hi : i = asset
    · simp [hi]
    · have hne : (i == asset) = false := by simpa using hi
      simp [hi, hne]
  | cons cost rest ih =>
    obtain ⟨a, total⟩ := cost
    rw [addCost]
    by_cases ha : a = asset
    · subst ha
      rw [if_pos rfl]
      by_cases hi : i = a
      · subst hi
        simp only [List.lookup_cons, beq_self_eq_true, Option.getD_some, if_true] at hfit ⊢
        exact min_eq_left hfit
      · have hne : (i == a) = false := by simpa using hi
        simp [List.lookup_cons, hne, hi]
    · rw [if_neg ha]
      by_cases hi : i = a
      · subst hi
        simp [ha]
      · have hne : (i == a) = false := by simpa using hi
        simp only [List.lookup_cons, hne] at hfit ⊢
        exact ih hfit

section

variable [ext : External]

/-- What an action transfers, if that can be told. -/
def transferred (s : Base) (act : Action) : Option (IbcPrefixed × ℕ) :=
  match transferOf s act with
  | .ok transfer => transfer
  | .error _ => none

/-- The fees of a list of actions in an asset. -/
def feesIn (s : Base) (i : IbcPrefixed) (acts : List Action) : ℕ :=
  (acts.map fun act => chargeIn i (feeOf s act)).sum

/-- The transferred values of a list of actions in an asset. -/
def transfersIn (s : Base) (i : IbcPrefixed) (acts : List Action) : ℕ :=
  (acts.map fun act => chargeIn i (transferred s act)).sum

/-- The exact cost of a list of actions in an asset. -/
def exactCost (s : Base) (i : IbcPrefixed) (acts : List Action) : ℕ :=
  feesIn s i acts + transfersIn s i acts

theorem costIn_getFeesForTransaction {s : Base} {i : IbcPrefixed} {acts : List Action}
    {costs costs' : Costs} (hfit : costIn i costs + feesIn s i acts ≤ u128Max)
    (h : getFeesForTransaction s acts costs = .ok costs') :
    costIn i costs' = costIn i costs + feesIn s i acts := by
  induction acts generalizing costs with
  | nil =>
    rw [getFeesForTransaction, Except.ok.injEq] at h
    rw [h]
    rfl
  | cons act rest ih =>
    have hcons : feesIn s i (act :: rest) = chargeIn i (feeOf s act) + feesIn s i rest := by
      simp [feesIn]
    rw [getFeesForTransaction] at h
    cases hfees : s.fees.components act.kind with
    | none =>
      rw [hfees] at h
      cases h
    | some fees =>
      cases hasset : feeAsset act with
      | none =>
        have hnone : feeOf s act = none := by simp [feeOf, hasset]
        rw [hcons, hnone] at hfit ⊢
        simp only [hfees, hasset] at h
        have hzero : chargeIn i none = 0 := rfl
        rw [hzero, Nat.zero_add] at hfit ⊢
        exact ih hfit h
      | some denom =>
        have hsome : feeOf s act = some (denom.toIbcPrefixed, totalFees fees act) := by
          simp [feeOf, hfees, hasset]
        rw [hcons, hsome] at hfit ⊢
        simp only [hfees, hasset] at h
        have hadd : costIn i (addCost denom.toIbcPrefixed (totalFees fees act) costs) =
            costIn i costs + chargeIn i (some (denom.toIbcPrefixed, totalFees fees act)) :=
          costIn_addCost (by omega)
        rw [ih (by omega) h]
        omega

theorem costIn_addTotalTransfers {s : Base} {i : IbcPrefixed} {acts : List Action}
    {costs costs' : Costs} (hfit : costIn i costs + transfersIn s i acts ≤ u128Max)
    (h : addTotalTransfers s acts costs = .ok costs') :
    costIn i costs' = costIn i costs + transfersIn s i acts := by
  induction acts generalizing costs with
  | nil =>
    rw [addTotalTransfers, Except.ok.injEq] at h
    rw [h]
    rfl
  | cons act rest ih =>
    have hcons : transfersIn s i (act :: rest) =
        chargeIn i (transferred s act) + transfersIn s i rest := by
      simp [transfersIn]
    rw [addTotalTransfers] at h
    rw [hcons] at hfit ⊢
    unfold transferred at hfit ⊢
    cases htransfer : transferOf s act with
    | error e =>
      rw [htransfer] at h
      cases h
    | ok transfer =>
      simp only [htransfer] at h hfit ⊢
      cases transfer with
      | none =>
        have hzero : chargeIn i none = 0 := rfl
        rw [hzero, Nat.zero_add] at hfit ⊢
        exact ih hfit h
      | some x =>
        obtain ⟨asset, amount⟩ := x
        have hadd : costIn i (addCost asset amount costs) =
            costIn i costs + chargeIn i (some (asset, amount)) := costIn_addCost (by omega)
        rw [ih (by omega) h]
        omega

theorem exactCost_append (s : Base) (i : IbcPrefixed) (acts acts' : List Action) :
    exactCost s i (acts ++ acts') = exactCost s i acts + exactCost s i acts' := by
  unfold exactCost feesIn transfersIn
  rw [List.map_append, List.sum_append, List.map_append, List.sum_append]
  omega

theorem exactCost_singleton (s : Base) (i : IbcPrefixed) (act : Action) :
    exactCost s i [act] = chargeIn i (feeOf s act) + chargeIn i (transferred s act) := by
  simp [exactCost, feesIn, transfersIn]

/-- What is reported for an asset is the sum over the actions, where the sum fits in 128 bits. -/
theorem getTotalTransactionCost_eq {tx : Transaction} {s : Base} {costs : Costs} {i : IbcPrefixed}
    (hfit : exactCost s i tx.actions.inner ≤ u128Max)
    (h : getTotalTransactionCost tx s = .ok costs) :
    costIn i costs = exactCost s i tx.actions.inner := by
  unfold getTotalTransactionCost at h
  unfold exactCost at hfit ⊢
  cases hfees : getFeesForTransaction s tx.actions.inner [] with
  | error e =>
    rw [hfees] at h
    cases h
  | ok fees =>
    rw [hfees] at h
    cases htransfers : addTotalTransfers s tx.actions.inner fees with
    | error e =>
      simp only [htransfers] at h
      cases h
    | ok total =>
      simp only [htransfers, Except.ok.injEq] at h
      subst h
      have hstart : costIn i [] = 0 := rfl
      have hfees' := costIn_getFeesForTransaction (i := i) (by omega) hfees
      rw [costIn_addTotalTransfers (by omega) htransfers]
      omega

/-! ## What an action takes -/

/-- The account that an action takes its value from. -/
def Action.source (signer : AddressBytes) : Action → Option AddressBytes
  | .transfer _ | .bridgeLock _ | .bridgeTransfer _ => some signer
  | .bridgeUnlock act => some act.bridgeAddress.bytes
  | .ics20Withdrawal act => some (Ics20Withdrawal.target act signer)
  | _ => none

/-- An action debits its source with what it transfers. -/
theorem Action.effect_debit (s : Base) (c : TransactionContext) (act : Action) :
    (Action.effect s c act).accounts.debit = (Action.source c.addressBytes act).bind fun a =>
      (transferred s act).map fun x => { account := a, asset := x.1, amount := x.2 } := by
  cases act with
  | bridgeUnlock act =>
    simp only [Action.effect, Action.source, transferred, transferOf, Base.getBridgeAccountIbcAsset]
    cases s.bridge.ibcAsset act.bridgeAddress.bytes <;> rfl
  | bridgeTransfer act =>
    simp only [Action.effect, Action.source, transferred, transferOf, Base.getBridgeAccountIbcAsset]
    cases s.bridge.ibcAsset act.bridgeAddress.bytes <;> rfl
  | ibc msg => exact IbcRelay.effect_debit s msg
  | _ => rfl

/-- What an action takes from another account than the signer's. -/
def elsewhereIn (s : Base) (signer : AddressBytes) (i : IbcPrefixed) (act : Action) : ℕ :=
  if Action.source signer act = some signer then 0 else chargeIn i (transferred s act)

/-- What an action debits the signer is what it transfers, less what it takes elsewhere. -/
theorem Action.effect_debit_signer (s : Base) (c : TransactionContext) (i : IbcPrefixed)
    (act : Action) :
    Ledger.amountOn c.addressBytes i (Action.effect s c act).accounts.debit +
      elsewhereIn s c.addressBytes i act = chargeIn i (transferred s act) := by
  rw [Action.effect_debit]
  unfold elsewhereIn Ledger.amountOn chargeIn
  cases transferred s act with
  | none => cases Action.source c.addressBytes act <;> simp
  | some x =>
    cases hsource : Action.source c.addressBytes act with
    | none => simp
    | some a =>
      by_cases ha : a = c.addressBytes
      · simp [ha]
      · have hne : c.addressBytes ≠ a := Ne.symm ha
        simp [ha, hne]

omit ext in
theorem feePosting_debit (c : TransactionContext) (fee : Option (IbcPrefixed × ℕ))
    (i : IbcPrefixed) : Ledger.amountOn c.addressBytes i (feePosting c fee).debit = chargeIn i fee := by
  cases fee with
  | none => rfl
  | some f => simp [feePosting, Ledger.amountOn, chargeIn]

/-! ## Lack of funds -/

/-- A report of an action is about an account `signer` that does not have what is taken from it, by the
handler or as the fee. -/
def FailsForFunds (signer : AddressBytes) (act : Action) (e : Report) : Prop :=
  feeAsset act ≠ none ∧ (e = ActionKind.executionContext act.kind :: lacksFee ∨
    Action.source signer act = some signer ∧
      ∃ report ∈ lacksFunds, e = ActionKind.executionContext act.kind :: report)

/-- The handler of an action that pays a fee fails for lack of funds only if the account that it takes
from does not have what it transfers. -/
theorem Action.checkAndExecute_lacks {act : Action} {s s' : State} {c : TransactionContext}
    {e : Report} (hc : s.base.ephemeral.transactionContext = some c) (hfee : feeAsset act ≠ none)
    (he : ¬OtherReport e) (h : Action.checkAndExecute act s = .error e s') :
    e ∈ lacksFunds ∧ ∃ a asset amount, Action.source c.addressBytes act = some a ∧
      transferred s.base act = some (asset, amount) ∧ s.base.balance a asset < amount := by
  have hbase {x : BaseM Unit} (hx : onBase x s = .error e s') : ∃ b, x s.base = .error e b := by
    obtain ⟨b, hb, -⟩ := zoom_eq_error.mp hx
    exact ⟨b, hb⟩
  cases act with
  | transfer act =>
    obtain ⟨b, hb⟩ := hbase h
    obtain ⟨hreport, hlt⟩ := Transfer.checkAndExecute_lacks hc he hb
    exact ⟨hreport, _, _, _, rfl, rfl, hlt⟩
  | bridgeLock act =>
    obtain ⟨b, hb⟩ := hbase h
    obtain ⟨hreport, hlt⟩ := BridgeLock.checkAndExecute_lacks hc he hb
    exact ⟨hreport, _, _, _, rfl, rfl, hlt⟩
  | ics20Withdrawal act =>
    obtain ⟨b, hb⟩ := hbase h
    obtain ⟨hreport, hlt⟩ := Ics20Withdrawal.checkAndExecute_lacks hc he hb
    exact ⟨hreport, _, _, _, rfl, rfl, hlt⟩
  | bridgeUnlock act =>
    obtain ⟨b, hb⟩ := hbase h
    obtain ⟨asset, hasset, hreport, hlt⟩ := BridgeUnlock.checkAndExecute_lacks he hb
    refine ⟨hreport, _, asset, act.amount, rfl, ?_, hlt⟩
    simp [transferred, transferOf, Base.getBridgeAccountIbcAsset, hasset]
  | bridgeTransfer act =>
    obtain ⟨b, hb⟩ := hbase h
    obtain ⟨asset, hasset, hreport, hlt⟩ := BridgeTransfer.checkAndExecute_lacks hc he hb
    refine ⟨hreport, _, asset, act.amount, rfl, ?_, hlt⟩
    simp [transferred, transferOf, Base.getBridgeAccountIbcAsset, hasset]
  | initBridgeAccount act =>
    obtain ⟨b, hb⟩ := hbase h
    exact absurd (InitBridgeAccount.checkAndExecute_otherReport act _ _ _ hb) he
  | bridgeSudoChange act =>
    obtain ⟨b, hb⟩ := hbase h
    exact absurd (BridgeSudoChange.checkAndExecute_otherReport act _ _ _ hb) he
  | rollupDataSubmission act => cases h
  | _ => exact absurd rfl hfee

/-! ## Settings that the charges depend on -/

theorem transferred_congr {s s' : Base} (h : s'.bridge.ibcAsset = s.bridge.ibcAsset) (act : Action) :
    transferred s' act = transferred s act := by
  unfold transferred transferOf Base.getBridgeAccountIbcAsset
  rw [h]

theorem feeOf_congr {s s' : Base} (h : s'.fees = s.fees) (act : Action) :
    feeOf s' act = feeOf s act := by
  unfold feeOf
  rw [h]

/-- The fees are set as they were. -/
def Base.SameFees (s s' : Base) : Prop := s'.fees = s.fees

instance : IsPreorder Base Base.SameFees where
  refl _ := rfl
  trans _ _ _ h h' := h'.trans h

theorem fundsWrites_sameFees : FundsWrites Base.SameFees := by
  constructor <;> intros <;> rfl

theorem validatorWrites_sameFees : ValidatorWrites Base.SameFees := by
  constructor <;> intros <;> rfl

omit ext in
theorem configWrites_sameFees : ConfigWrites Base.SameFees := by
  constructor <;> intros <;> rfl

omit ext in
theorem transactionWrites_sameFees : TransactionWrites Base.SameFees := by
  constructor <;> intros <;> rfl

/-- Whether the actions of a group are open to everyone. -/
def groupIsGeneral : Group → Bool
  | .bundleableGeneral | .unbundleableGeneral => true
  | .bundleableSudo | .unbundleableSudo => false

omit ext in
/-- Only the actions of the general groups pay fees. -/
theorem groupIsGeneral_of_feeAsset {act : Action} {denom : Denom} (h : feeAsset act = some denom) :
    groupIsGeneral act.group = true := by
  cases act <;> first | rfl | cases h

/-- No action of the general groups sets a fee. -/
theorem Action.checkAndExecute_sameFees {act : Action} {s s' : State} {u : Unit}
    (hgroup : groupIsGeneral act.group = true) (h : Action.checkAndExecute act s = .ok u s') :
    s.base.SameFees s'.base := by
  cases hconfig : ActionKind.configuresBridge act.kind with
  | true => exact Action.checkAndExecute_keepsConfig configWrites_sameFees hconfig h
  | false =>
    cases hleaves : ActionKind.leavesFunds act.kind with
    | false => exact Action.checkAndExecute_keepsMoves fundsWrites_sameFees hconfig hleaves h
    | true =>
      cases act with
      | rollupDataSubmission act =>
        rw [Action.checkAndExecute, pure_eq_ok] at h
        rw [h.2]
        exact refl_of Base.SameFees _
      | validatorUpdate act =>
        obtain ⟨b, hb, rfl⟩ := onBase_eq_ok.mp h
        exact (ValidatorUpdate.checkAndExecute_keeps validatorWrites_sameFees act).of_ok hb
      | transfer act => cases hleaves
      | ibc msg => cases hleaves
      | ics20Withdrawal act => cases hleaves
      | initBridgeAccount act => cases hleaves
      | bridgeLock act => cases hleaves
      | bridgeUnlock act => cases hleaves
      | bridgeSudoChange act => cases hleaves
      | bridgeTransfer act => cases hleaves
      | _ => cases hgroup

/-- What a transaction costs depends on the fees and on the assets of the bridge accounts. -/
theorem getTotalTransactionCost_congr {s s' : Base} (hfees : s'.fees = s.fees)
    (hasset : s'.bridge.ibcAsset = s.bridge.ibcAsset) (tx : Transaction) :
    getTotalTransactionCost tx s' = getTotalTransactionCost tx s := by
  have hfor (acts : List Action) (costs : Costs) :
      getFeesForTransaction s' acts costs = getFeesForTransaction s acts costs := by
    induction acts generalizing costs with
    | nil => rfl
    | cons act rest ih => simp only [getFeesForTransaction, hfees, ih]
  have htransfers (acts : List Action) (costs : Costs) :
      addTotalTransfers s' acts costs = addTotalTransfers s acts costs := by
    induction acts generalizing costs with
    | nil => rfl
    | cons act rest ih =>
      have hsame : transferOf s' act = transferOf s act := by
        unfold transferOf Base.getBridgeAccountIbcAsset
        rw [hasset]
      simp only [addTotalTransfers, hsame, ih]
  unfold getTotalTransactionCost
  simp only [hfor, htransfers]

/-! ## Along a transaction -/

section

variable [codec : TransactionCodec]

/-- A transaction that is prepared has a signer with the reported costs. -/
theorem prepareTransaction_covered {tx : Transaction} {s s' : Base} {u : Unit}
    (h : prepareTransaction tx s = .ok u s') :
    ∃ costs, getTotalTransactionCost tx s = .ok costs ∧
      ∀ i, costIn i costs ≤ s.balance (signer tx) i := by
  unfold prepareTransaction at h
  simp only [bind_eq_ok, writes_eq_ok, tryReads_eq_ok, ensure_eq_ok, reads_eq_ok, mapErr_eq_ok,
    and_assoc, exists_and_left, exists_eq_left, exists_const] at h
  obtain ⟨chainId, -, -, -, _, t, hcheck, -⟩ := h
  unfold checkBalanceForTotalFeesAndTransfers at hcheck
  simp only [bind_eq_ok, mapErr_eq_ok, tryReads_eq_ok, and_assoc, exists_and_left,
    exists_eq_left] at hcheck
  obtain ⟨costs, hcosts, hcheck⟩ := hcheck
  have hfees (c : TransactionContext) : (s.putTransactionContext c).fees = s.fees := rfl
  have hasset (c : TransactionContext) :
      (s.putTransactionContext c).bridge.ibcAsset = s.bridge.ibcAsset := rfl
  rw [getTotalTransactionCost_congr (hfees _) (hasset _)] at hcosts
  rw [forEach_check_eq_ok (P := fun b cost => cost.2 ≤ b.balance (signer tx) cost.1)
    (by simp [and_comm])] at hcheck
  refine ⟨costs, hcosts, fun i => ?_⟩
  unfold costIn
  cases hlookup : costs.lookup i with
  | none => exact Nat.zero_le _
  | some total =>
    have hmem : (i, total) ∈ costs := by
      obtain ⟨before, rest, rfl, -⟩ := List.lookup_eq_some_iff.mp hlookup
      exact List.mem_append_right _ List.mem_cons_self
    exact hcheck.1 _ hmem

/-- The fees are set as before a transaction of a general group. -/
theorem Executing.sameFees {tx : Transaction} {s t : State} {k : ℕ}
    (hgroup : groupIsGeneral tx.actions.group = true) (h : Executing tx s k t) :
    s.base.SameFees t.base := by
  induction h with
  | start hless hprep =>
    have hkeeps := prepareTransaction_keepsAny (R := Base.SameFees) transactionWrites_sameFees tx
    have hstart : s.base.SameFees (s.withEvents []).base := rfl
    exact trans_of Base.SameFees hstart (hkeeps.of_ok hprep)
  | @step k t r act _ hget hact ih =>
    have hcontext : t.base.SameFees (t.withContext (contextAt tx k)).base := rfl
    have hgroup' := tx.actions.sameGroup _ (List.mem_of_getElem? hget)
    have hexecuted := executeAction_keeps fundsWrites_sameFees transactionWrites_sameFees
      (fun _ ht => Action.checkAndExecute_sameFees (hgroup' ▸ hgroup) ht) hact
    exact trans_of Base.SameFees ih (trans_of Base.SameFees hcontext hexecuted)

/-- An action pays the fee that was set before the transaction. -/
theorem Executing.feeOf {tx : Transaction} {s t t' : State} {k : ℕ} {act : Action}
    (h : Executing tx s k t) (hget : tx.actions.inner[k]? = some act)
    (hexec : Action.checkAndExecute act (t.withContext (contextAt tx k)) = .ok () t') :
    feeOf t'.base act = Sequencer.feeOf s.base act := by
  cases hasset : feeAsset act with
  | none => simp [Sequencer.feeOf, hasset]
  | some denom =>
    have hact := groupIsGeneral_of_feeAsset hasset
    have hgroup := tx.actions.sameGroup _ (List.mem_of_getElem? hget)
    have hcontext : t.base.SameFees (t.withContext (contextAt tx k)).base := rfl
    have hexecuted := trans_of Base.SameFees hcontext (Action.checkAndExecute_sameFees hact hexec)
    exact feeOf_congr (trans_of Base.SameFees (h.sameFees (hgroup ▸ hact)) hexecuted) act

/-- An action transfers what it would have transferred before the transaction. -/
theorem Executing.transferred {tx : Transaction} {s t : State} {k : ℕ} {act : Action}
    (h : Executing tx s k t) (hget : tx.actions.inner[k]? = some act) :
    transferred (t.withContext (contextAt tx k)).base act = Sequencer.transferred s.base act := by
  have hk : k < tx.actions.inner.length := (List.getElem?_eq_some_iff.mp hget).1
  have hasset : t.base.bridge.ibcAsset = s.base.bridge.ibcAsset :=
    congrArg BridgeConfig.ibcAsset (h.sameConfig hk)
  exact transferred_congr hasset act

/-- What an action credits to the signer. -/
def creditIn (tx : Transaction) (i : IbcPrefixed) (k : ℕ) (act : Action) (t : State) : ℕ :=
  Ledger.amountOn (signer tx) i
    (Action.effect (t.withContext (contextAt tx k)).base (contextAt tx k) act).accounts.credit

/-- An action takes from the signer what it is charged for, less what it takes elsewhere, and credits
its credits. -/
theorem Executing.charge {tx : Transaction} {s t r : State} {k : ℕ} {act : Action}
    (h : Executing tx s k t) (hget : tx.actions.inner[k]? = some act)
    (hact : executeAction (signer tx) act (t.withContext (contextAt tx k)) = .ok () r)
    (i : IbcPrefixed) :
    r.base.balance (signer tx) i +
        (chargeIn i (Sequencer.feeOf s.base act) + chargeIn i (Sequencer.transferred s.base act)) =
      t.base.balance (signer tx) i + creditIn tx i k act t +
        elsewhereIn s.base (signer tx) i act := by
  obtain ⟨t', hexec, hpays, -⟩ := executeAction_ok (c := contextAt tx k) rfl hact
  have hdoes := Action.checkAndExecute_does (c := contextAt tx k) rfl hexec
  have htransfer := Ledger.post_apply hdoes.fits (signer tx) i
  have hfee := Ledger.post_apply hpays.fits (signer tx) i
  have hdebit := Action.effect_debit_signer (t.withContext (contextAt tx k)).base (contextAt tx k) i act
  have hposting := feePosting_debit (contextAt tx k) (Sequencer.feeOf s.base act) i
  rw [← hdoes.balance] at htransfer
  rw [← hpays.balance, h.feeOf hget hexec] at hfee
  have helsewhere : elsewhereIn (t.withContext (contextAt tx k)).base (signer tx) i act =
      elsewhereIn s.base (signer tx) i act := by
    unfold elsewhereIn
    rw [h.transferred hget]
  rw [h.transferred hget] at hdebit
  change Ledger.amountOn (signer tx) i _ + elsewhereIn _ (signer tx) i act = _ at hdebit
  change Ledger.amountOn (signer tx) i _ = _ at hposting
  have hcredit : Ledger.amountOn (signer tx) i
      (feePosting (contextAt tx k) (Sequencer.feeOf s.base act)).credit = 0 := rfl
  have hstart : (t.withContext (contextAt tx k)).base.balance = t.base.balance := rfl
  rw [hstart] at htransfer
  unfold creditIn
  omega

/-- The signer has lost no more than the actions so far are charged for. -/
theorem Executing.covered {tx : Transaction} {s t : State} {k : ℕ} (h : Executing tx s k t)
    (i : IbcPrefixed) :
    s.base.balance (signer tx) i ≤
      t.base.balance (signer tx) i + exactCost s.base i (tx.actions.inner.take k) := by
  induction h with
  | start hless hprep =>
    have hbalance := ((prepareTransaction_keeps tx).of_ok hprep).balance
    have hstart : (s.withEvents []).base.balance = s.base.balance := rfl
    rw [hbalance, hstart]
    exact Nat.le_add_right _ _
  | @step k t r act hexec hget hact ih =>
    have hcharge := hexec.charge hget hact i
    have htake : tx.actions.inner.take (k + 1) = tx.actions.inner.take k ++ [act] := by
      rw [List.take_add_one, hget, Option.toList_some]
    rw [htake, exactCost_append, exactCost_singleton]
    omega

/-- What the actions from a position on credit to the signer, each in the state in which it runs. -/
def creditsFrom (tx : Transaction) (i : IbcPrefixed) : List Action → ℕ → State → ℕ
  | [], _, _ => 0
  | act :: rest, k, t =>
    creditIn tx i k act t + creditsFrom tx i rest (k + 1)
      (final (executeAction (signer tx) act (t.withContext (contextAt tx k))))

/-- What the actions take from other accounts than the signer's. -/
def takenElsewhere (s : Base) (signer : AddressBytes) (i : IbcPrefixed) (acts : List Action) : ℕ :=
  (acts.map (elsewhereIn s signer i)).sum

/-- The remaining actions take from the signer what they are charged for, less what they take
elsewhere, and credit their credits. -/
theorem Executing.charges {tx : Transaction} {s t r : State} {k : ℕ} {acts : List Action} {u : Unit}
    (h : Executing tx s k t) (hacts : tx.actions.inner.drop k = acts)
    (hrun : executeActions (signer tx) (transactionId tx) acts k t = .ok u r) (i : IbcPrefixed) :
    r.base.balance (signer tx) i + exactCost s.base i acts =
      t.base.balance (signer tx) i + creditsFrom tx i acts k t +
        takenElsewhere s.base (signer tx) i acts := by
  induction acts generalizing k t with
  | nil =>
    rw [executeActions, pure_eq_ok] at hrun
    rw [hrun.2]
    rfl
  | cons act rest ih =>
    obtain ⟨q, hact, hrest⟩ := executeActions_cons_ok.mp hrun
    have hget : tx.actions.inner[k]? = some act := by
      have hhead := congrArg List.head? hacts
      rwa [List.head?_drop, List.head?_cons] at hhead
    have hdrop : tx.actions.inner.drop (k + 1) = rest := by
      rw [← List.tail_drop, hacts, List.tail_cons]
    have hcharge := h.charge hget hact i
    have hlater := ih (h.step hget hact) hdrop hrest
    have hcons : exactCost s.base i (act :: rest) =
        exactCost s.base i [act] + exactCost s.base i rest := exactCost_append s.base i [act] rest
    have hcredits : creditsFrom tx i (act :: rest) k t =
        creditIn tx i k act t + creditsFrom tx i rest (k + 1) q := by
      have hfinal : final (executeAction (signer tx) act (t.withContext (contextAt tx k))) = q := by
        have hok : executeAction (signer tx) act (t.withContext (contextAt tx k)) = .ok () q := hact
        rw [hok]
        rfl
      rw [creditsFrom, hfinal]
    have helsewhere : takenElsewhere s.base (signer tx) i (act :: rest) =
        elsewhereIn s.base (signer tx) i act + takenElsewhere s.base (signer tx) i rest := by
      simp [takenElsewhere]
    rw [hcons, exactCost_singleton, hcredits, helsewhere]
    omega

/-- The state in which the first action of a transaction runs. -/
def prepared (tx : Transaction) (s : State) : State :=
  { base := final (prepareTransaction tx (s.withEvents []).base), oracle := s.oracle }

/-- What a transaction credits to its own signer. -/
def credited (tx : Transaction) (s : State) (i : IbcPrefixed) : ℕ :=
  creditsFrom tx i tx.actions.inner 0 (prepared tx s)

/-- A transaction that executes an action was prepared. -/
theorem Executing.prepared {tx : Transaction} {s t : State} {k : ℕ} (h : Executing tx s k t) :
    ∃ b, prepareTransaction tx (s.withEvents []).base = .ok () b := by
  induction h with
  | start _ hprep => exact ⟨_, hprep⟩
  | step _ _ _ ih => exact ih

/-- The signer has what the next action is charged for, where the costs of the transaction fit. -/
theorem Executing.funded {tx : Transaction} {s t : State} {k : ℕ} {act : Action}
    (h : Executing tx s k t) (hget : tx.actions.inner[k]? = some act) {i : IbcPrefixed}
    (hfit : exactCost s.base i tx.actions.inner ≤ u128Max) :
    chargeIn i (Sequencer.feeOf s.base act) + chargeIn i (Sequencer.transferred s.base act) ≤
      t.base.balance (signer tx) i := by
  obtain ⟨b, hprep⟩ := h.prepared
  obtain ⟨costs, hcosts, hcovered⟩ := prepareTransaction_covered hprep
  have hfees : (s.withEvents []).base.fees = s.base.fees := rfl
  have hasset : (s.withEvents []).base.bridge.ibcAsset = s.base.bridge.ibcAsset := rfl
  rw [getTotalTransactionCost_congr hfees hasset] at hcosts
  have hreported := getTotalTransactionCost_eq hfit hcosts
  have hbalance : costIn i costs ≤ s.base.balance (signer tx) i := hcovered i
  have hsofar := h.covered i
  have hk : k < tx.actions.inner.length := (List.getElem?_eq_some_iff.mp hget).1
  have hsplit : tx.actions.inner =
      tx.actions.inner.take k ++ ([act] ++ tx.actions.inner.drop (k + 1)) := by
    obtain ⟨hk, hact⟩ := List.getElem?_eq_some_iff.mp hget
    rw [List.singleton_append, ← hact, ← List.drop_eq_getElem_cons hk, List.take_append_drop]
  have hsum := congrArg (exactCost s.base i) hsplit
  rw [exactCost_append, exactCost_append, exactCost_singleton] at hsum
  omega

/-- No action fails for lack of funds of the signer, where the costs of the transaction fit. -/
theorem Executing.not_failsForFunds {tx : Transaction} {s t r : State} {k : ℕ} {act : Action}
    {e : Report} (h : Executing tx s k t) (hget : tx.actions.inner[k]? = some act)
    (hfit : ∀ i, exactCost s.base i tx.actions.inner ≤ u128Max)
    (hact : executeAction (signer tx) act (t.withContext (contextAt tx k)) = .error e r) :
    ¬FailsForFunds (signer tx) act e := by
  rintro ⟨hfee, hreport⟩
  have hkind : act.kind ≠ .ibcRelay := by
    intro hkind
    cases act <;> first | exact hfee rfl | cases hkind
  rw [executeAction_eq hkind] at hact
  obtain ⟨e', hfails, rfl⟩ := mapErr_eq_error.mp hact
  have hreport : e' = lacksFee ∨
      Action.source (signer tx) act = some (signer tx) ∧ e' ∈ lacksFunds := by
    simpa using hreport
  have he : ¬OtherReport e' := by
    rintro ⟨hlacksFee, hlacksFunds⟩
    rcases hreport with heq | ⟨-, hmem⟩
    · exact hlacksFee heq
    · exact hlacksFunds hmem
  have hfunded (i : IbcPrefixed) := h.funded hget (hfit i)
  rcases bind_eq_error.mp hfails with hhandler | ⟨_, t', hexec, hfees⟩
  · -- the handler fails: what it takes from the signer is covered
    obtain ⟨hmem, a, asset, amount, hsource, htransferred, hlt⟩ :=
      Action.checkAndExecute_lacks (c := contextAt tx k) rfl hfee he hhandler
    rcases hreport with rfl | ⟨hsigner, -⟩
    · exact absurd hmem (by decide)
    · obtain rfl : a = signer tx := Option.some.inj (hsource.symm.trans hsigner)
      rw [h.transferred hget] at htransferred
      have hcovered := hfunded asset
      have hcharge : chargeIn asset (Sequencer.transferred s.base act) = amount := by
        simp [htransferred, chargeIn]
      have hbalance : t.base.balance (signer tx) asset < amount := hlt
      omega
  · -- the fee fails: what the handler took and the fee are covered together
    obtain ⟨b, hb, -⟩ := zoom_eq_error.mp hfees
    have hdoes := Action.checkAndExecute_does (c := contextAt tx k) rfl hexec
    have hcontext : t'.base.ephemeral.transactionContext = some (contextAt tx k) :=
      hdoes.transactionContext
    obtain ⟨-, fee, hfee', hlt⟩ := checkAndPayFees_lacks hcontext he hb
    rw [h.feeOf hget hexec] at hfee'
    have hcovered := hfunded fee.1
    have hcharge : chargeIn fee.1 (Sequencer.feeOf s.base act) = fee.2 := by
      simp [hfee', chargeIn]
    have htransfer := Ledger.post_apply hdoes.fits (signer tx) fee.1
    rw [← hdoes.balance] at htransfer
    have hdebit := Action.effect_debit_signer (t.withContext (contextAt tx k)).base
      (contextAt tx k) fee.1 act
    rw [h.transferred hget] at hdebit
    change Ledger.amountOn (signer tx) fee.1 _ + _ = _ at hdebit
    have hstart : (t.withContext (contextAt tx k)).base.balance = t.base.balance := rfl
    rw [hstart] at htransfer
    have hbalance : t'.base.balance (signer tx) fee.1 < fee.2 := hlt
    omega

/-- What leaves the signer's own account in a successful transaction is what was reported on the state
before it, less what the transaction credits to the signer and what it takes from other accounts, in
every asset whose costs fit in 128 bits.  A transaction that executes an action has passed the check of
the balances; if its costs fit, the action does not fail for lack of funds of the signer. -/
theorem executeTransaction_costs (tx : Transaction) (s : State) :
    (∀ events s', executeTransaction tx s = (.ok events, s') →
      ∃ costs, getTotalTransactionCost tx s.base = .ok costs ∧
        ∀ i, exactCost s.base i tx.actions.inner ≤ u128Max →
          (s.base.balance (signer tx) i : ℤ) - s'.base.balance (signer tx) i =
            costIn i costs - credited tx s i -
              takenElsewhere s.base (signer tx) i tx.actions.inner) ∧
      ((∀ i, exactCost s.base i tx.actions.inner ≤ u128Max) →
        ∀ k t act e r, Executing tx s k t → tx.actions.inner[k]? = some act →
          executeAction (signer tx) act (t.withContext (contextAt tx k)) = .error e r →
          ¬FailsForFunds (signer tx) act e) := by
  constructor
  · intro events s' h
    obtain ⟨hless, b, r, hb, hacts, rfl⟩ := executeTransaction_parts h
    have hfees : (s.withEvents []).base.fees = s.base.fees := rfl
    have hasset : (s.withEvents []).base.bridge.ibcAsset = s.base.bridge.ibcAsset := rfl
    obtain ⟨costs, hcosts, -⟩ := prepareTransaction_covered hb
    rw [getTotalTransactionCost_congr hfees hasset] at hcosts
    refine ⟨costs, hcosts, fun i hfit => ?_⟩
    have hcharges := (Executing.start hless hb).charges List.drop_zero hacts i
    have hreported := getTotalTransactionCost_eq hfit hcosts
    have hprepared : Sequencer.prepared tx s = { base := b, oracle := s.oracle } := by
      unfold Sequencer.prepared
      rw [hb]
      rfl
    have hbalance : b.balance = s.base.balance := ((prepareTransaction_keeps tx).of_ok hb).balance
    unfold credited
    rw [hprepared]
    have hfinal (l : List Event) : (State.withEvents l { r with
        base := r.base.deleteCurrentTransactionContext }).base.balance = r.base.balance := rfl
    rw [hfinal]
    change _ = b.balance (signer tx) i + _ + _ at hcharges
    rw [hbalance] at hcharges
    omega
  · intro hfit k t act e r h hget hact
    exact h.not_failsForFunds hget hfit hact

end

end

/-! ## Two transactions -/

section

open TestUtils

/-- Alice's account becomes a bridge account whose withdrawer is bob. -/
def delegateToBob : Transaction :=
  signedTransaction aliceKey 0 (.initBridgeAccount
    { rollupId := { inner := List.Vector.replicate 32 7 }
      asset := .tracePrefixed nria
      feeAsset := .tracePrefixed nria
      sudoAddress := none
      withdrawerAddress := some bobAddress })

def delegated : State := after delegateToBob genesis

/-- Bob unlocks 5 from alice's bridge account. -/
def unlockForCarol : Transaction :=
  signedTransaction bobKey 0 (.bridgeUnlock
    { toAddress := carolAddress
      amount := 5
      feeAsset := .tracePrefixed nria
      bridgeAddress := aliceAddress
      memo := ""
      rollupBlockNumber := 1
      rollupWithdrawalEventId := "e" })

/-- A genesis in which alice has as much as an account can have. -/
def richGenesisState : GenesisAppState :=
  { testGenesisState with
    accounts := [{ address := aliceAddress, balance := u128Max, balance_le := le_rfl }] }

def rich : State :=
  { base := final (initChain richGenesisState [] "test" Base.empty), oracle := Oracle.empty }

/-- Alice transfers all she has. -/
def allOfAlice : Action :=
  .transfer
    { toAddress := tedAddress
      amount := u128Max
      asset := .tracePrefixed nria
      feeAsset := .tracePrefixed nria }

def transferAll : Transaction := signedTransaction aliceKey 0 allOfAlice

/-- The report of a transaction that fails. -/
def reportOf {α : Type} : Except Report α → Option Report
  | .ok _ => none
  | .error e => some e

theorem eq_error_of_reportOf {α : Type} {x : Except Report α} {e : Report}
    (h : reportOf x = some e) : x = .error e := by
  cases x with
  | ok a => cases h
  | error e' => exact congrArg Except.error (Option.some.inj h)

set_option maxRecDepth 10000 in
theorem run_delegated : Run withoutUpgrades [] delegated :=
  run_genesis.after delegateToBob (by decide +kernel)

set_option maxRecDepth 10000 in
theorem run_rich : Run withoutUpgrades [] rich := by
  have hok : isOk (initChain richGenesisState [] "test" Base.empty) = true := by decide +kernel
  exact Run.genesis (eq_ok_of_isOk hok)

set_option maxRecDepth 10000 in
/-- Bob's unlock succeeds. -/
theorem unlockForCarol_ok : ∃ events,
    executeTransaction unlockForCarol delegated = (.ok events, after unlockForCarol delegated) := by
  have hok : (executeTransaction unlockForCarol delegated).1.isOk = true := by decide +kernel
  unfold after
  cases hexec : executeTransaction unlockForCarol delegated with
  | mk result t =>
    rw [hexec] at hok
    cases result with
    | ok events => exact ⟨events, rfl⟩
    | error e => cases hok

set_option maxRecDepth 10000 in
theorem unlockForCarol_exactCost :
    exactCost delegated.base nria.toIbcPrefixed unlockForCarol.actions.inner = 17 := by
  decide +kernel

set_option maxRecDepth 10000 in
/-- Bob pays the fee of 12 for his unlock, and is charged the 5 that alice's bridge account pays. -/
theorem executeTransaction_costs_unlock :
    ∃ costs, getTotalTransactionCost unlockForCarol delegated.base = .ok costs ∧
      costIn nria.toIbcPrefixed costs = 17 ∧
      (delegated.base.balance bobAddress.bytes nria.toIbcPrefixed : ℤ) -
        (after unlockForCarol delegated).base.balance bobAddress.bytes nria.toIbcPrefixed = 12 := by
  obtain ⟨events, hexec⟩ := unlockForCarol_ok
  obtain ⟨costs, hcosts, hbalance⟩ :=
    (executeTransaction_costs unlockForCarol delegated).1 events _ hexec
  have hexact := unlockForCarol_exactCost
  have hfit := hexact.trans_le (show 17 ≤ u128Max by decide)
  have hsigner : signer unlockForCarol = bobAddress.bytes := by decide +kernel
  have hcredited : credited unlockForCarol delegated nria.toIbcPrefixed = 0 := by decide +kernel
  have htaken : takenElsewhere delegated.base (signer unlockForCarol) nria.toIbcPrefixed
      unlockForCarol.actions.inner = 5 := by decide +kernel
  have hreported := (getTotalTransactionCost_eq hfit hcosts).trans hexact
  have hnria := hbalance nria.toIbcPrefixed hfit
  rw [hreported, hcredited, htaken, hsigner] at hnria
  exact ⟨costs, hcosts, hreported, hnria⟩

set_option maxRecDepth 10000 in
/-- What leaves the signer's account is not what was reported in general, and the signer may lack the
fee of a transfer that passes the check of the balances. -/
theorem costs_differ :
    Run withoutUpgrades [] delegated ∧ Run withoutUpgrades [] rich ∧
      (¬∀ events s', executeTransaction unlockForCarol delegated = (.ok events, s') →
        ∃ costs, getTotalTransactionCost unlockForCarol delegated.base = .ok costs ∧
          ∀ i, (delegated.base.balance (signer unlockForCarol) i : ℤ) -
            s'.base.balance (signer unlockForCarol) i = costIn i costs) ∧
      isOk (checkBalanceForTotalFeesAndTransfers transferAll rich.base) = true ∧
      ∃ e, (executeTransaction transferAll rich).1 = .error ("failed executing transaction" :: e) ∧
        FailsForFunds (signer transferAll) allOfAlice e := by
  refine ⟨run_delegated, run_rich, fun hclaim => ?_, by decide +kernel, ?_⟩
  · obtain ⟨events, hexec⟩ := unlockForCarol_ok
    obtain ⟨costs, hcosts, hbalance⟩ := hclaim events _ hexec
    have hexact := unlockForCarol_exactCost
    have hfit := hexact.trans_le (show 17 ≤ u128Max by decide)
    have hbefore : delegated.base.balance (signer unlockForCarol) nria.toIbcPrefixed = 10 ^ 19 := by
      decide +kernel
    have hafter : (after unlockForCarol delegated).base.balance (signer unlockForCarol)
        nria.toIbcPrefixed = 10 ^ 19 - 12 := by decide +kernel
    have hnria := hbalance nria.toIbcPrefixed
    rw [(getTotalTransactionCost_eq hfit hcosts).trans hexact, hbefore, hafter] at hnria
    omega
  · have hreport : reportOf (executeTransaction transferAll rich).1 = some
        ("failed executing transaction" :: ActionKind.executionContext .transfer :: lacksFee) := by
      decide +kernel
    exact ⟨_, eq_error_of_reportOf hreport, by simp [feeAsset, allOfAlice], Or.inl rfl⟩

end

end Astria.Sequencer
