import Astria.Sequencer.Effects

/-!
# What a transaction leaves

A relation between states that is kept by every write of a group of handlers is kept by the
handlers, and so by whole transactions.  Each invariant that does not need to know what an action
does, but only what it cannot reach, is derived from here.

Results:
* `Action.checkAndExecute_keeps`: the handlers keep what their writes keep;
* `executeTransaction_keeps`: so does a transaction, successful or not.
-/

namespace Astria.Sequencer

open Astria.Core Astria.Lib Exec

/-- Whether an action can configure a bridge account. -/
def ActionKind.configuresBridge : ActionKind → Bool
  | .initBridgeAccount | .bridgeSudoChange => true
  | _ => false

section

variable [ext : External]

/-- `R` is kept by the configuration of bridge accounts. -/
structure ConfigWrites (R : Base → Base → Prop) : Prop where
  rollupId : ∀ a id s, R s (s.putBridgeAccountRollupId a id)
  ibcAsset : ∀ a asset s, R s (s.putBridgeAccountIbcAsset a asset)
  sudoAddress : ∀ a a' s, R s (s.putBridgeAccountSudoAddress a a')
  withdrawerAddress : ∀ a a' s, R s (s.putBridgeAccountWithdrawerAddress a a')

/-- `R` is kept by what happens around the actions of a transaction. -/
structure TransactionWrites (R : Base → Base → Prop) : Prop where
  context : ∀ c s, R s (s.putTransactionContext c)
  deleteContext : ∀ s : Base, R s s.deleteCurrentTransactionContext
  lastTransactionId : ∀ a id s, R s (s.putLastTransactionId a id)
  nonce : ∀ a n s, R s (s.putAccountNonce a n)
  blockFees : ∀ fee s, R s (s.addFeeToBlockFees fee)
  events : ∀ (events : List Event) (s : Base), R s { s with ephemeral.events := events }

variable {R : Base → Base → Prop} [IsPreorder Base R]

/-! ## Withdrawals over IBC -/

theorem Ics20Withdrawal.checkAndExecute_keeps (hR : FundsWrites R) (act : Ics20Withdrawal) :
    Keeps R (Ics20Withdrawal.checkAndExecute act) := by
  have hmemo : Keeps R (checkWithdrawalMemo act) := by
    unfold checkWithdrawalMemo
    cases act.bridgeAddress with
    | none => exact keeps_pure _
    | some b =>
      refine Keeps.bind (by simp) fun _ => Keeps.bind (by simp) fun _ => ?_
      exact (keeps_checkAndSetWithdrawalEvent hR.withdrawalEvent _ _ _).mapErr _
  have htarget (source : AddressBytes) : Keeps R (establishWithdrawalTarget act source) := by
    unfold establishWithdrawalTarget
    cases act.bridgeAddress with
    | none =>
      exact Keeps.bind (keeps_reads _) fun _ => Keeps.bind (keeps_ensure _ _) fun _ => keeps_pure _
    | some b =>
      refine Keeps.bind (keeps_reads _) fun _ => Keeps.bind (keeps_require _ _) fun _ => ?_
      exact Keeps.bind (keeps_ensure _ _) fun _ => keeps_pure _
  have hpacket : Keeps R (createIbcPacket act) := by
    refine Keeps.bind (Keeps.ite ?_ (by simp)) fun _ => by simp
    exact Keeps.bind (by simp) fun _ => Keeps.bind (by simp) fun _ => by simp
  have hescrow : Keeps R (escrow act) := by
    refine Keeps.ite ?_ (by simp)
    refine Keeps.bind (by simp) fun _ => Keeps.bind (by simp) fun _ => ?_
    exact keeps_writes fun _ => hR.channelBalance _ _ _ _
  refine Keeps.bind (by simp) fun _ => Keeps.bind (by simp) fun _ => Keeps.bind hmemo fun _ => ?_
  refine Keeps.bind ((htarget _).mapErr _) fun _ => Keeps.bind (by simp) fun _ => ?_
  refine Keeps.bind (hpacket.mapErr _) fun _ => Keeps.bind (by simp) fun _ => ?_
  refine Keeps.bind (by simp) fun _ => ?_
  refine Keeps.bind ((keeps_decreaseBalance hR.balance _ _ _).mapErr _) fun _ => ?_
  exact Keeps.bind hescrow fun _ => keeps_writeIbc hR.ibcComponent _

/-! ## Relayed messages -/

theorem parsePacketTransfer_keepsAny (party : FungibleTokenPacketData → String)
    (partyContext denomContext : String → String) (packet : Packet) :
    Keeps R (parsePacketTransfer party partyContext denomContext packet) := by
  intro s
  rw [← parsePacketTransfer_keeps party partyContext denomContext packet s]
  exact refl_of R s

theorem emitDeposit_keeps (hR : FundsWrites R) (b : Address) (dest : String) (asset : TracePrefixed)
    (amount : ℕ) : Keeps R (emitDeposit b dest asset amount) := by
  refine Keeps.bind (by simp) fun _ => Keeps.bind (by simp) fun _ => Keeps.bind (by simp) fun _ => ?_
  refine Keeps.bind (by simp) fun _ => Keeps.bind (by simp) fun _ => ?_
  exact Keeps.bind (keeps_writes fun _ => hR.event _ _) fun _ => keeps_writes fun _ => hR.deposit _ _

theorem receiveTokens_keeps (hR : FundsWrites R) (packet : Packet) :
    Keeps R (receiveTokens packet) := by
  refine Keeps.bind (parsePacketTransfer_keepsAny _ _ _ _) fun t => ?_
  have hdeposit : Keeps R
      (depositIfBridge t.account (receivedAsset t.denom packet) t.amount t.memo) := by
    refine Keeps.bind (by simp) fun _ => Keeps.ite (Keeps.mapErr ?_ _) (by simp)
    refine Keeps.bind (by simp) fun _ => Keeps.bind (by simp) fun _ => ?_
    exact Keeps.bind (by simp) fun _ => emitDeposit_keeps hR _ _ _ _
  have hrelease : Keeps R (releaseOrRegister (receivedAsset t.denom packet)
      (isTransferSourceZone t.denom packet.portOnA packet.chanOnA) packet t.amount) := by
    refine Keeps.ite ((keeps_decreaseIbcChannelBalance hR.channelBalance _ _ _).mapErr _) ?_
    refine Keeps.bind (by simp) fun _ => Keeps.ite (by simp) ?_
    exact keeps_writes fun _ => hR.ibcAsset _ _
  refine Keeps.bind hdeposit fun _ => Keeps.bind hrelease fun _ => ?_
  exact (keeps_increaseBalance hR.balance _ _ _).mapErr _

theorem refundTokens_keeps (hR : FundsWrites R) (packet : Packet) :
    Keeps R (refundTokens packet) := by
  refine Keeps.bind (parsePacketTransfer_keepsAny _ _ _ _) fun t => ?_
  have hdeposit : Keeps R (depositIfFromRollup t.account t.denom t.amount t.memo) := by
    unfold depositIfFromRollup
    cases ext.parseWithdrawalMemo t.memo with
    | none => exact keeps_pure _
    | some memo => exact (emitDeposit_keeps hR _ _ _ _).mapErr _
  have hcredit := (keeps_increaseBalance hR.balance t.account.bytes t.denom.toIbcPrefixed
    t.amount).mapErr ("failed to update user account balance when refunding" :: ·)
  refine Keeps.bind hdeposit fun _ => Keeps.mapErr (Keeps.ite ?_ hcredit) _
  exact Keeps.bind ((keeps_decreaseIbcChannelBalance hR.channelBalance _ _ _).mapErr _) fun _ =>
    hcredit

omit ext in
theorem parseAsset_keepsAny (input : String) : Keeps R (parseAsset input) := by
  intro s
  rw [← parseAsset_keeps input s]
  exact refl_of R s

theorem refundTokensCheck_keeps (packet : Packet) : Keeps R (refundTokensCheck packet) := by
  refine Keeps.bind (by simp) fun _ => Keeps.bind ((parseAsset_keepsAny _).mapErr _) fun _ => ?_
  refine Keeps.ite ?_ (by simp)
  exact Keeps.bind (by simp) fun _ => Keeps.bind (by simp) fun _ => by simp

theorem executeIbcRelay_keeps (hR : FundsWrites R) (msg : IbcRelay) :
    Keeps R (executeIbcRelay msg) := by
  have hibc (x : IbcM Unit) : Keeps R (onIbc x) := keeps_onIbc hR.ibcComponent x
  unfold executeIbcRelay
  refine Keeps.bind (by simp) fun host => ?_
  cases msg with
  | recvPacket packet proof =>
    refine Keeps.bind (by simp) fun _ => Keeps.bind (hibc _) fun _ => Keeps.bind (by simp) fun _ => ?_
    exact Keeps.bind (receiveTokens_keeps hR packet).attempt fun _ => (hibc _).mapErr _
  | acknowledgement packet bytes proof =>
    refine Keeps.bind (by simp) fun ack => ?_
    cases ack with
    | success => exact Keeps.bind (hibc _) fun _ => by simp [acknowledgePacketExecute]
    | error message =>
      refine Keeps.bind (refundTokensCheck_keeps packet) fun _ => Keeps.bind (hibc _) fun _ => ?_
      exact (refundTokens_keeps hR packet).mapErr _
  | timeout packet proof =>
    refine Keeps.bind (refundTokensCheck_keeps packet) fun _ => Keeps.bind (hibc _) fun _ => ?_
    exact (refundTokens_keeps hR packet).mapErr _
  | channel handshake raw => exact Keeps.bind (by simp) fun _ => hibc _
  | other raw => exact hibc _

/-! ## Actions -/

theorem FundsWrites.move (hR : FundsWrites R) (a b : AddressBytes)
    (i : IbcPrefixed) (n : ℕ) (s : Base) : R s (s.move a b i n) :=
  trans_of R (hR.balance _ _ _ _) (hR.balance _ _ _ _)

theorem executeBridgeLock_keepsOk (hR : FundsWrites R) {lock : BridgeLock} {s s' : Base} {u : Unit}
    (h : executeBridgeLock lock s = .ok u s') : R s s' := by
  obtain ⟨c', rollupId, trace, -, -, -, -, -, rfl⟩ := executeBridgeLock_eq_ok h
  exact trans_of R (hR.move _ _ _ _ _) (trans_of R (hR.deposit _ _) (hR.event _ _))

/-- An action that moves funds keeps what its writes keep. -/
theorem Action.checkAndExecute_keepsMoves (hfunds : FundsWrites R) {act : Action} {s s' : State}
    {u : Unit} (hact : ActionKind.configuresBridge act.kind = false)
    (hleaves : ActionKind.leavesFunds act.kind = false)
    (h : Action.checkAndExecute act s = .ok u s') : R s.base s'.base := by
  cases act with
  | transfer act =>
    obtain ⟨b, hb, rfl⟩ := onBase_eq_ok.mp h
    obtain ⟨c, -, -, -, rfl⟩ := Transfer.checkAndExecute_eq_ok hb
    exact hfunds.move _ _ _ _ _
  | bridgeLock act =>
    obtain ⟨b, hb, rfl⟩ := onBase_eq_ok.mp h
    obtain ⟨c, -, -, -, hlock⟩ := BridgeLock.checkAndExecute_eq_ok hb
    exact executeBridgeLock_keepsOk hfunds hlock
  | bridgeUnlock act =>
    obtain ⟨b, hb, rfl⟩ := onBase_eq_ok.mp h
    obtain ⟨asset, -, -, -, -, -, rfl⟩ := BridgeUnlock.checkAndExecute_eq_ok hb
    exact trans_of R (hfunds.withdrawalEvent _ _ _ _) (hfunds.move _ _ _ _ _)
  | bridgeTransfer act =>
    obtain ⟨b, hb, rfl⟩ := onBase_eq_ok.mp h
    obtain ⟨asset, -, -, -, hlock⟩ := BridgeTransfer.checkAndExecute_eq_ok hb
    exact trans_of R (hfunds.withdrawalEvent _ _ _ _) (executeBridgeLock_keepsOk hfunds hlock)
  | ics20Withdrawal act =>
    obtain ⟨b, hb, rfl⟩ := onBase_eq_ok.mp h
    exact (Ics20Withdrawal.checkAndExecute_keeps hfunds act).of_ok hb
  | ibc msg =>
    obtain ⟨b, hb, rfl⟩ := onBase_eq_ok.mp h
    exact (executeIbcRelay_keeps hfunds msg).of_ok hb
  | initBridgeAccount act => cases hact
  | bridgeSudoChange act => cases hact
  | _ => cases hleaves

/-- An action that configures no bridge account and updates no validator keeps what its writes
keep. -/
theorem Action.checkAndExecute_keepsOther (hsettings : SettingsWrites R) (hfunds : FundsWrites R)
    {act : Action} {s s' : State} {u : Unit} (hact : ActionKind.configuresBridge act.kind = false)
    (hkind : act.kind ≠ .validatorUpdate) (h : Action.checkAndExecute act s = .ok u s') :
    R s.base s'.base := by
  cases hleaves : ActionKind.leavesFunds act.kind with
  | true => exact Action.checkAndExecute_keepsSettings hsettings hleaves hkind h
  | false => exact Action.checkAndExecute_keepsMoves hfunds hact hleaves h

/-- An action that configures no bridge account keeps what its writes keep. -/
theorem Action.checkAndExecute_keeps (hadmin : AdminWrites R) (hfunds : FundsWrites R) {act : Action}
    {s s' : State} {u : Unit} (hact : ActionKind.configuresBridge act.kind = false)
    (h : Action.checkAndExecute act s = .ok u s') : R s.base s'.base := by
  by_cases hkind : act.kind = .validatorUpdate
  · exact Action.checkAndExecute_keepsAdmin hadmin (by rw [hkind]; rfl) h
  · exact Action.checkAndExecute_keepsOther hadmin.settings hfunds hact hkind h

/-- An action that configures a bridge account keeps what its writes keep. -/
theorem Action.checkAndExecute_keepsConfig (hR : ConfigWrites R) {act : Action} {s s' : State}
    {u : Unit} (hact : ActionKind.configuresBridge act.kind = true)
    (h : Action.checkAndExecute act s = .ok u s') : R s.base s'.base := by
  cases act with
  | initBridgeAccount act =>
    obtain ⟨b, hb, rfl⟩ := onBase_eq_ok.mp h
    obtain ⟨c, -, -, rfl⟩ := InitBridgeAccount.checkAndExecute_eq_ok hb
    exact trans_of R (trans_of R (trans_of R (hR.rollupId _ _ _) (hR.ibcAsset _ _ _))
      (hR.sudoAddress _ _ _)) (hR.withdrawerAddress _ _ _)
  | bridgeSudoChange act =>
    obtain ⟨b, hb, rfl⟩ := onBase_eq_ok.mp h
    obtain ⟨c, -, -, rfl⟩ := BridgeSudoChange.checkAndExecute_eq_ok hb
    cases act.newSudoAddress <;> cases act.newWithdrawerAddress
    · exact refl_of R _
    · exact hR.withdrawerAddress _ _ _
    · exact hR.sudoAddress _ _ _
    · exact trans_of R (hR.sudoAddress _ _ _) (hR.withdrawerAddress _ _ _)
  | _ => cases hact

/-- Every action keeps what the writes of all the handlers keep. -/
theorem Action.checkAndExecute_keepsAll (hadmin : AdminWrites R) (hfunds : FundsWrites R)
    (hconfig : ConfigWrites R) {act : Action} {s s' : State} {u : Unit}
    (h : Action.checkAndExecute act s = .ok u s') : R s.base s'.base := by
  cases hkind : ActionKind.configuresBridge act.kind with
  | false => exact Action.checkAndExecute_keeps hadmin hfunds hkind h
  | true => exact Action.checkAndExecute_keepsConfig hconfig hkind h

/-! ## Transactions -/

/-- The fee of an action keeps what its two writes keep. -/
theorem checkAndPayFees_keepsOk (hfunds : FundsWrites R) (htx : TransactionWrites R) {act : Action}
    {s s' : Base} {u : Unit} (h : checkAndPayFees act s = .ok u s') : R s s' := by
  rcases checkAndPayFees_eq_ok h with ⟨-, rfl⟩ | ⟨c, asset, amount, -, -, -, rfl⟩
  · exact refl_of R _
  · exact trans_of R (htx.blockFees _ _) (hfunds.balance _ _ _ _)

/-- An action of a transaction keeps what its handler and the payment of its fee keep. -/
theorem executeAction_keeps (hfunds : FundsWrites R) (htx : TransactionWrites R)
    {source : AddressBytes} {act : Action} {s s' : State} {u : Unit}
    (hact : ∀ t, Action.checkAndExecute act s = .ok () t → R s.base t.base)
    (h : executeAction source act s = .ok u s') : R s.base s'.base := by
  obtain ⟨t, hexec, ⟨-, rfl⟩ | ⟨b, hb, rfl⟩⟩ := executeAction_parts h
  · exact hact _ hexec
  · exact trans_of R (hact t hexec) (checkAndPayFees_keepsOk hfunds htx hb)

variable [codec : TransactionCodec]

theorem prepareTransaction_keepsAny (htx : TransactionWrites R) (tx : Transaction) :
    Keeps R (prepareTransaction tx) := by
  have hcosts : Keeps R (checkBalanceForTotalFeesAndTransfers tx) := by
    refine Keeps.bind (by simp) fun costs => Keeps.forEach (fun cost => ?_) costs
    exact Keeps.bind (by simp) fun _ => by simp
  refine Keeps.bind (keeps_writes fun _ => htx.context _ _) fun _ => ?_
  refine Keeps.bind (by simp) fun _ => Keeps.bind (by simp) fun _ => Keeps.bind (by simp) fun _ => ?_
  refine Keeps.bind (by simp) fun _ => Keeps.bind (hcosts.mapErr _) fun _ => ?_
  refine Keeps.bind (by simp) fun isBridge => ?_
  have hnonce (n : ℕ) : Keeps R (do
      let next ← (require (checkedAdd u32Max n 1)
        ["overflow occurred incrementing stored nonce"] : BaseM ℕ)
      writes (Base.putAccountNonce (signer tx) next)) :=
    Keeps.bind (by simp) fun _ => keeps_writes fun _ => htx.nonce _ _ _
  refine Keeps.ite ?_ (hnonce _)
  exact Keeps.bind (keeps_writes fun _ => htx.lastTransactionId _ _ _) fun _ => hnonce _

/-- A transaction keeps what its writes keep, whether it succeeds or fails. -/
theorem executeTransaction_keeps (hadmin : AdminWrites R) (hfunds : FundsWrites R)
    (hconfig : ConfigWrites R) (htx : TransactionWrites R) (tx : Transaction) (s : State) :
    R s.base (executeTransaction tx s).2.base := by
  cases h : executeTransaction tx s with
  | mk result s' =>
    cases result with
    | error e =>
      rw [executeTransaction_error h]
      exact refl_of R _
    | ok events =>
      obtain ⟨-, b, r, hb, hacts, rfl⟩ := executeTransaction_parts h
      have hstart : R s.base b :=
        trans_of R (htx.events [] _) ((prepareTransaction_keepsAny htx tx).of_ok hb)
      have hrun : R s.base r.base := by
        refine executeActions_invariant (I := fun q => R s.base q.base) ?_ hstart hacts
        intro act _ c _ _ q q' hq hact
        refine trans_of R (trans_of R hq (htx.context c _)) ?_
        exact executeAction_keeps hfunds htx (s := q.withContext c)
          (fun _ hexec => Action.checkAndExecute_keepsAll hadmin hfunds hconfig hexec) hact
      exact trans_of R hrun (trans_of R (htx.deleteContext _) (htx.events _ _))

end

end Astria.Sequencer
