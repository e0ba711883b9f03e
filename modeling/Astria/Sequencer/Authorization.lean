import Astria.Sequencer.Withdrawals

/-!
# Authorization

What a transaction may take, and from whom: funds from its signer and from the bridge accounts whose
withdrawer its signer is, and nothing from anyone else.  The record of a withdrawal event is held to
the same rule by unlocks and by withdrawals over IBC, but not by bridge transfers.

Results:
* `executeAction_debits`: the account that an action debits is the signer or a bridge account of
  which the signer is the withdrawer;
* `executeTransaction_debits`: so are those that a transaction debits;
* `authorized_iff`: a transaction is authorized exactly if the signer is the withdrawer of the
  source of each of its bridge transfers.
-/

namespace Astria.Sequencer

open Astria.Core Astria.Lib Exec

section

variable [ext : External]

/-! ## What is authorized -/

omit ext in
/-- `a` is a bridge account whose withdrawer is `source`. -/
def Base.IsWithdrawerOf (s : Base) (source a : AddressBytes) : Prop :=
  (s.bridge.rollupId a).isSome = true ∧ s.bridge.withdrawerAddress a = some source

omit ext in
theorem Base.IsWithdrawerOf.of_sameConfig {s s' : Base} {source a : AddressBytes}
    (h : s.SameConfig s') : s'.IsWithdrawerOf source a ↔ s.IsWithdrawerOf source a := by
  have hid : s'.bridge.rollupId = s.bridge.rollupId := congrArg BridgeConfig.rollupId h
  have hw : s'.bridge.withdrawerAddress = s.bridge.withdrawerAddress :=
    congrArg BridgeConfig.withdrawerAddress h
  unfold Base.IsWithdrawerOf
  rw [hid, hw]

/-- Only the signer and the bridge accounts of which it is the withdrawer lose funds, and withdrawal
events are recorded for the latter only; `s` is the state before the transaction. -/
structure Authorized (source : AddressBytes) (s s' : Base) : Prop where
  debits : ∀ a i, s'.balance a i < s.balance a i → a = source ∨ s.IsWithdrawerOf source a
  events : ∀ a i, s.withdrawalEvent a i = none → (s'.withdrawalEvent a i).isSome = true →
    s.IsWithdrawerOf source a

/-! ## One action -/

/-- The account that an action debits. -/
theorem Action.checkAndExecute_debits {act : Action} {s s' : State} {u : Unit}
    {c : TransactionContext} (hs : s.base.WellConfigured)
    (hc : s.base.ephemeral.transactionContext = some c)
    (h : Action.checkAndExecute act s = .ok u s') :
    ∀ e ∈ (Action.effect s.base c act).accounts.debit,
      e.account = c.addressBytes ∨ s.base.IsWithdrawerOf c.addressBytes e.account := by
  have hid {a : AddressBytes} {asset : IbcPrefixed} (ha : s.base.bridge.ibcAsset a = some asset) :
      (s.base.bridge.rollupId a).isSome = true := by rw [← hs.ibcAsset, ha, Option.isSome_some]
  cases act with
  | transfer act =>
    rintro e ⟨⟩
    exact .inl rfl
  | bridgeLock act =>
    rintro e ⟨⟩
    exact .inl rfl
  | bridgeUnlock act =>
    obtain ⟨b, hb, rfl⟩ := onBase_eq_ok.mp h
    obtain ⟨asset, hasset, -, hwithdrawer, -⟩ := BridgeUnlock.checkAndExecute_eq_ok hb
    obtain ⟨c', hc', hw⟩ := hwithdrawer (hid hasset)
    obtain rfl : c = c' := Option.some.inj (hc.symm.trans hc')
    simp only [Action.effect, hasset]
    rintro e ⟨⟩
    exact .inr ⟨hid hasset, hw⟩
  | bridgeTransfer act =>
    obtain ⟨b, hb, rfl⟩ := onBase_eq_ok.mp h
    obtain ⟨asset, hasset, -⟩ := BridgeTransfer.checkAndExecute_eq_ok hb
    simp only [Action.effect, hasset]
    rintro e ⟨⟩
    exact .inl rfl
  | ics20Withdrawal act =>
    obtain ⟨b, hb, rfl⟩ := onBase_eq_ok.mp h
    obtain ⟨c', hc', hwithdrawer, -⟩ := Ics20Withdrawal.checkAndExecute_does hb
    obtain rfl : c = c' := Option.some.inj (hc.symm.trans hc')
    rintro e ⟨⟩
    change Ics20Withdrawal.target act c.addressBytes = _ ∨
      s.base.IsWithdrawerOf _ (Ics20Withdrawal.target act c.addressBytes)
    unfold Ics20Withdrawal.target
    cases hbridge : act.bridgeAddress with
    | none => exact .inl rfl
    | some b =>
      have hw := hwithdrawer b hbridge
      refine .inr ⟨?_, hw⟩
      change (s.base.bridge.rollupId b.bytes).isSome = true
      rw [← hs.withdrawerAddress, hw, Option.isSome_some]
  | ibc msg =>
    have hnone : (Action.effect s.base c (.ibc msg)).accounts.debit = none :=
      IbcRelay.effect_debit s.base msg
    intro e he
    rw [hnone] at he
    cases he
  | _ => rintro e ⟨⟩

/-- An action with its fee takes nothing from any other account. -/
theorem executeAction_debits {source : AddressBytes} {act : Action} {s s' : State} {u : Unit}
    {c : TransactionContext} (hs : s.base.WellConfigured)
    (hc : s.base.ephemeral.transactionContext = some c) (hsource : c.addressBytes = source)
    (h : executeAction source act s = .ok u s') {a : AddressBytes} (ha : a ≠ source)
    (hbridge : ¬s.base.IsWithdrawerOf source a) (i : IbcPrefixed) :
    s.base.balance a i ≤ s'.base.balance a i := by
  subst hsource
  obtain ⟨t, hexec, hpays, -⟩ := executeAction_ok hc h
  have hdoes := Action.checkAndExecute_does hc hexec
  have haction : s.base.balance a i ≤ t.base.balance a i := by
    rw [hdoes.balance]
    refine Ledger.le_post_of_ne (fun e he heq => ?_) i _
    rcases Action.checkAndExecute_debits hs hc hexec e he with hsigner | hwithdrawer
    · exact ha (heq.trans hsigner)
    · exact hbridge (heq ▸ hwithdrawer)
  have hfee : t.base.balance a i ≤ s'.base.balance a i := by
    rw [hpays.balance]
    refine Ledger.le_post_of_ne (fun e he heq => ?_) i _
    obtain ⟨f, -, rfl⟩ := Option.map_eq_some_iff.mp he
    exact ha heq
  exact haction.trans hfee

/-- The withdrawal of an action other than a bridge transfer is from a bridge account of which the
signer is the withdrawer. -/
theorem executeAction_withdrawer {source : AddressBytes} {act : Action} {s s' : State} {u : Unit}
    {c : TransactionContext} {p : Withdrawal} (hs : s.base.WellConfigured)
    (hc : s.base.ephemeral.transactionContext = some c)
    (hact : Action.withdrawal act = some p) (hkind : act.kind ≠ .bridgeTransfer)
    (h : executeAction source act s = .ok u s') : s.base.IsWithdrawerOf c.addressBytes p.1 := by
  obtain ⟨t, hexec, -, -⟩ := executeAction_ok hc h
  cases act with
  | bridgeUnlock act =>
    obtain ⟨b, hb, rfl⟩ := onBase_eq_ok.mp hexec
    obtain ⟨asset, hasset, -, hwithdrawer, -⟩ := BridgeUnlock.checkAndExecute_eq_ok hb
    obtain rfl := Option.some.inj hact
    have hid : (s.base.bridge.rollupId act.bridgeAddress.bytes).isSome = true := by
      rw [← hs.ibcAsset, hasset, Option.isSome_some]
    obtain ⟨c', hc', hw⟩ := hwithdrawer hid
    obtain rfl : c = c' := Option.some.inj (hc.symm.trans hc')
    exact ⟨hid, hw⟩
  | ics20Withdrawal act =>
    obtain ⟨b, hb, rfl⟩ := onBase_eq_ok.mp hexec
    obtain ⟨c', hc', hwithdrawer, -⟩ := Ics20Withdrawal.checkAndExecute_does hb
    obtain rfl : c = c' := Option.some.inj (hc.symm.trans hc')
    simp only [Action.withdrawal, Ics20Withdrawal.event] at hact
    split at hact
    · rename_i b memo hbridge _
      obtain rfl := Option.some.inj hact
      have hw := hwithdrawer b hbridge
      refine ⟨?_, hw⟩
      change (s.base.bridge.rollupId b.bytes).isSome = true
      rw [← hs.withdrawerAddress, hw, Option.isSome_some]
    · cases hact
  | bridgeTransfer act => exact absurd rfl hkind
  | _ => cases hact

/-! ## Inside a transaction -/

section

variable [TransactionCodec]

/-- The bridge accounts are configured as before the transaction as long as there is an action to
execute: an action that configures comes alone. -/
theorem Executing.sameConfig {tx : Transaction} {s t : State} {k : ℕ} (h : Executing tx s k t)
    (hk : k < tx.actions.inner.length) : s.base.SameConfig t.base := by
  induction h with
  | start hless hprep => exact .of_bridge ((prepareTransaction_keeps tx).of_ok hprep).bridge
  | step hexec hget hact ih =>
    rename_i j q r act
    have hact' : ActionKind.configuresBridge act.kind = false := by
      by_contra hconfigures
      rw [Bool.not_eq_false] at hconfigures
      rw [Actions.eq_singleton_of_configures (List.mem_of_getElem? hget) hconfigures] at hk
      rw [List.length_singleton] at hk
      omega
    have hcontext : q.base.SameConfig (q.withContext (contextAt tx j)).base := rfl
    exact trans_of Base.SameConfig (ih (by omega))
      (trans_of Base.SameConfig hcontext (executeAction_sameConfig hact' hact))

/-- Inside a transaction no account is debited but the signer and the bridge accounts of which it
is the withdrawer. -/
theorem Executing.debits {tx : Transaction} {s t : State} {k : ℕ} (hs : s.base.WellConfigured)
    (h : Executing tx s k t) {a : AddressBytes} (ha : a ≠ signer tx)
    (hbridge : ¬s.base.IsWithdrawerOf (signer tx) a) (i : IbcPrefixed) :
    s.base.balance a i ≤ t.base.balance a i := by
  induction h with
  | start hless hprep =>
    rw [((prepareTransaction_keeps tx).of_ok hprep).balance]
    exact le_rfl
  | step hexec hget hact ih =>
    rename_i j q r act
    have hq : (q.withContext (contextAt tx j)).base.WellConfigured :=
      (hexec.wellConfigured hs).of_bridge rfl
    have hconfig : s.base.SameConfig (q.withContext (contextAt tx j)).base :=
      hexec.sameConfig (List.getElem?_eq_some_iff.mp hget).1
    have hbridge' : ¬(q.withContext (contextAt tx j)).base.IsWithdrawerOf (signer tx) a := by
      rwa [Base.IsWithdrawerOf.of_sameConfig hconfig]
    exact ih.trans (executeAction_debits hq rfl rfl hact ha hbridge' i)

/-- Inside a transaction every withdrawal but a bridge transfer is from a bridge account of which
the signer is the withdrawer. -/
theorem Executing.withdrawer {tx : Transaction} {s t : State} {k : ℕ} (hs : s.base.WellConfigured)
    (h : Executing tx s k t) {j : ℕ} {act : Action} {p : Withdrawal} (hj : j < k)
    (hget : tx.actions.inner[j]? = some act) (hact : Action.withdrawal act = some p)
    (hkind : act.kind ≠ .bridgeTransfer) : s.base.IsWithdrawerOf (signer tx) p.1 := by
  induction h with
  | start => exact absurd hj (Nat.not_lt_zero j)
  | step hexec hget' hexecuted ih =>
    rename_i m q r act'
    by_cases hlt : j < m
    · exact ih hlt
    · obtain rfl : j = m := by omega
      obtain rfl : act = act' := Option.some.inj (hget.symm.trans hget')
      have hq : (q.withContext (contextAt tx j)).base.WellConfigured :=
        (hexec.wellConfigured hs).of_bridge rfl
      have hconfig : s.base.SameConfig (q.withContext (contextAt tx j)).base :=
        hexec.sameConfig (List.getElem?_eq_some_iff.mp hget').1
      rw [← Base.IsWithdrawerOf.of_sameConfig hconfig]
      exact executeAction_withdrawer (c := contextAt tx j) hq rfl hact hkind hexecuted

/-! ## The whole transaction -/

/-- The signer is the withdrawer of the source of each bridge transfer of a transaction. -/
def WithdrawsOwnBridges (tx : Transaction) (s : Base) : Prop :=
  ∀ act ∈ tx.actions.inner, ∀ transfer, act = .bridgeTransfer transfer →
    s.IsWithdrawerOf (signer tx) transfer.bridgeAddress.bytes

/-- A transaction takes nothing from any account but the signer and the bridge accounts of which
it is the withdrawer. -/
theorem executeTransaction_debits {tx : Transaction} {s s' : State} {events : List Event}
    (hs : s.base.WellConfigured) (h : executeTransaction tx s = (.ok events, s'))
    (a : AddressBytes) (i : IbcPrefixed) (hlt : s'.base.balance a i < s.base.balance a i) :
    a = signer tx ∨ s.base.IsWithdrawerOf (signer tx) a := by
  obtain ⟨r, hexec, rfl⟩ := executeTransaction_executing h
  by_contra hne
  rw [not_or] at hne
  exact absurd (hexec.debits hs hne.1 hne.2 i) (Nat.not_le.mpr hlt)

variable [UpgradeCodec] [BlockCodec]

/-- A transaction that succeeds in a run is authorized exactly if its signer is the withdrawer of
the source of each of its bridge transfers. -/
theorem authorized_iff {handler : UpgradesHandler} {l : List Withdrawal} {s s' : State}
    {tx : Transaction} {events : List Event} (hrun : Run handler l s)
    (h : executeTransaction tx s = (.ok events, s')) :
    Authorized (signer tx) s.base s'.base ↔ WithdrawsOwnBridges tx s.base := by
  have hs := hrun.wellConfigured
  obtain ⟨hrecords, hnodup⟩ := hrun.records
  obtain ⟨hrecords', hnodup'⟩ := (hrun.transaction h).records
  have hnew (a : AddressBytes) (i : String) (hp : (a, i) ∈ withdrawalsOf tx.actions.inner) :
      s.base.withdrawalEvent a i = none := by
    rw [← Option.not_isSome_iff_eq_none, hrecords]
    exact fun hmem => (List.nodup_append.mp hnodup').2.2 _ hmem _ hp rfl
  constructor
  · intro hauth act hact transfer htransfer
    have hp : (transfer.bridgeAddress.bytes, transfer.rollupWithdrawalEventId) ∈
        withdrawalsOf tx.actions.inner :=
      List.mem_filterMap.mpr ⟨act, hact, by rw [htransfer]; rfl⟩
    have hsome := (hrecords' transfer.bridgeAddress.bytes transfer.rollupWithdrawalEventId).mpr
      (List.mem_append_right l hp)
    exact hauth.events _ _ (hnew _ _ hp) hsome
  · intro hown
    refine ⟨executeTransaction_debits hs h, fun a i hnone hsome => ?_⟩
    have hmem : (a, i) ∈ withdrawalsOf tx.actions.inner := by
      rcases List.mem_append.mp ((hrecords' a i).mp hsome) with hold | hnew'
      · rw [← hrecords, hnone] at hold
        cases hold
      · exact hnew'
    obtain ⟨act, hact, hwithdrawal⟩ := List.mem_filterMap.mp hmem
    by_cases hkind : act.kind = .bridgeTransfer
    · cases act with
      | bridgeTransfer transfer =>
        obtain ⟨rfl, rfl⟩ := Prod.mk.inj (Option.some.inj hwithdrawal)
        exact hown _ hact transfer rfl
      | _ => cases hkind
    · obtain ⟨r, hexec, rfl⟩ := executeTransaction_executing h
      obtain ⟨j, hj, hget⟩ := List.mem_iff_getElem.mp hact
      exact hexec.withdrawer hs hj (List.getElem?_eq_some_iff.mpr ⟨hj, hget⟩) hwithdrawal hkind

end

end

section

open TestUtils

set_option maxRecDepth 10000 in
/-- A bridge transfer that bob, the withdrawer of its source, signs is authorized. -/
theorem authorized_iff_withdrawer :
    Authorized bobAddress.bytes bridges.base
      (after (bridgeTransferTransaction bobKey 1) bridges).base := by
  have hok : (executeTransaction (bridgeTransferTransaction bobKey 1) bridges).1.isOk = true := by
    decide +kernel
  have hsigner : signer (bridgeTransferTransaction bobKey 1) = bobAddress.bytes := by decide +kernel
  have hown : WithdrawsOwnBridges (bridgeTransferTransaction bobKey 1) bridges.base := by
    intro act hact transfer htransfer
    obtain rfl := List.mem_singleton.mp hact
    obtain rfl := Action.bridgeTransfer.inj htransfer
    exact ⟨by decide +kernel, by decide +kernel⟩
  cases hexec : executeTransaction (bridgeTransferTransaction bobKey 1) bridges with
  | mk result t =>
    rw [hexec] at hok
    cases result with
    | error e => cases hok
    | ok events =>
      have hauthorized := (authorized_iff run_bridges hexec).mpr hown
      rw [hsigner] at hauthorized
      unfold after
      rw [hexec]
      exact hauthorized

set_option maxRecDepth 10000 in
/-- Carol, who is the withdrawer of no bridge account, signs a bridge transfer from bob's: it
succeeds and records a withdrawal event of bob's bridge account. -/
theorem bridgeTransfer_unauthorized :
    Run withoutUpgrades [] bridges ∧
      (executeTransaction (bridgeTransferTransaction carolKey 0) bridges).1.isOk = true ∧
      ¬Authorized (signer (bridgeTransferTransaction carolKey 0)) bridges.base
        (executeTransaction (bridgeTransferTransaction carolKey 0) bridges).2.base := by
  refine ⟨run_bridges, by decide +kernel, fun hauthorized => ?_⟩
  have hnone : bridges.base.withdrawalEvent bobAddress.bytes "e" = none := by decide +kernel
  have hsome : ((executeTransaction (bridgeTransferTransaction carolKey 0)
      bridges).2.base.withdrawalEvent bobAddress.bytes "e").isSome = true := by decide +kernel
  obtain ⟨-, hwithdrawer⟩ := hauthorized.events _ _ hnone hsome
  revert hwithdrawer
  decide +kernel

end

end Astria.Sequencer
