import Astria.Sequencer.BridgeConfig
import Astria.Sequencer.Conservation
import Astria.Sequencer.Genesis
import Astria.Sequencer.VoteExtension

/-!
# Runs

The states that the sequencer can be in: the genesis, and whatever the parts of block execution
and the commits lead to, in any order.  A run carries the withdrawals that its transactions have
made.  `Executing` goes inside a transaction, from action to action.

Results:
* `Run.executeBlock`: the execution of a whole block is a run;
* `Run.invariant`: what an invariant of the holdings has to be shown for;
* `Run.wellConfigured`, `Run.inRange`, `Run.named`: three of them;
* `executeTransaction_executing`: a transaction that succeeds has executed all its actions.
-/

namespace Astria.Sequencer

open Astria.Core Astria.Lib Exec

section

variable [ext : External]

/-! ## Withdrawals -/

/-- A bridge account and the id of a withdrawal event. -/
abbrev Withdrawal := AddressBytes × String

/-- The withdrawal that an action makes. -/
def Action.withdrawal : Action → Option Withdrawal
  | .bridgeUnlock act => some (act.bridgeAddress.bytes, act.rollupWithdrawalEventId)
  | .bridgeTransfer act => some (act.bridgeAddress.bytes, act.rollupWithdrawalEventId)
  | .ics20Withdrawal act => Ics20Withdrawal.event act
  | _ => none

/-- The withdrawals of a list of actions. -/
def withdrawalsOf (acts : List Action) : List Withdrawal := acts.filterMap Action.withdrawal

/-- The event that the effect of a successful action records is that of its withdrawal. -/
theorem Action.effect_event {act : Action} {s s' : State} {u : Unit} {c : TransactionContext}
    (h : Action.checkAndExecute act s = .ok u s') :
    (Action.effect s.base c act).event = Action.withdrawal act := by
  cases act with
  | bridgeUnlock act =>
    obtain ⟨b, hb, rfl⟩ := onBase_eq_ok.mp h
    obtain ⟨asset, hasset, -⟩ := BridgeUnlock.checkAndExecute_eq_ok hb
    simp only [Action.effect, Action.withdrawal, hasset]
  | bridgeTransfer act =>
    obtain ⟨b, hb, rfl⟩ := onBase_eq_ok.mp h
    obtain ⟨asset, hasset, -⟩ := BridgeTransfer.checkAndExecute_eq_ok hb
    simp only [Action.effect, Action.withdrawal, hasset]
  | ibc msg =>
    cases msg with
    | recvPacket packet proof =>
      simp only [Action.effect, IbcRelay.effect, Action.withdrawal]
      cases s.base.packetTransfer FungibleTokenPacketData.receiver packet with
      | none => rfl
      | some t =>
        simp only
        split_ifs
        · rfl
        · unfold Base.refusedEffect
          split_ifs <;> rfl
    | acknowledgement packet bytes proof =>
      simp only [Action.effect, IbcRelay.effect, Action.withdrawal]
      cases ext.parseAcknowledgement bytes with
      | none => rfl
      | some ack =>
        cases ack with
        | success => rfl
        | error message =>
          simp only [Base.refundEffect]
          cases s.base.packetTransfer FungibleTokenPacketData.sender packet <;> rfl
    | timeout packet proof =>
      simp only [Action.effect, IbcRelay.effect, Action.withdrawal, Base.refundEffect]
      cases s.base.packetTransfer FungibleTokenPacketData.sender packet <;> rfl
    | channel handshake raw => rfl
    | other raw => rfl
  | _ => rfl

/-- An action of a transaction records its withdrawal, which was not recorded before. -/
theorem executeAction_records {source : AddressBytes} {act : Action} {s s' : State} {u : Unit}
    {c : TransactionContext} (hc : s.base.ephemeral.transactionContext = some c)
    (h : executeAction source act s = .ok u s') :
    s.base.RecordsEvent (Action.withdrawal act) s'.base := by
  obtain ⟨t, hexec, hpays, -⟩ := executeAction_ok hc h
  have hrecords := (Action.checkAndExecute_does hc hexec).event
  have hsame : s'.base.withdrawalEvent = t.base.withdrawalEvent := by
    unfold Base.withdrawalEvent
    rw [hpays.bridge]
  rw [Action.effect_event hexec] at hrecords
  unfold Base.RecordsEvent at hrecords ⊢
  rw [hsame]
  exact hrecords

/-! ## Inside a transaction -/

section

variable [TransactionCodec]

/-- The context of the action at a position. -/
def contextAt (tx : Transaction) (position : ℕ) : TransactionContext :=
  { addressBytes := signer tx
    transactionId := transactionId tx
    positionInTransaction := position }

/-- The state after the first `k` actions of a transaction that runs on `s`. -/
inductive Executing (tx : Transaction) (s : State) : ℕ → State → Prop
  | start {b : Base} : Transaction.checkStateless tx = .ok () →
      prepareTransaction tx (s.withEvents []).base = .ok () b →
      Executing tx s 0 { base := b, oracle := s.oracle }
  | step {k : ℕ} {t r : State} {act : Action} : Executing tx s k t →
      tx.actions.inner[k]? = some act →
      executeAction (signer tx) act (t.withContext (contextAt tx k)) = .ok () r →
      Executing tx s (k + 1) r

/-- The loop over the remaining actions is a sequence of steps. -/
theorem Executing.actions {tx : Transaction} {s t r : State} {k : ℕ} {u : Unit}
    (h : Executing tx s k t)
    (hacts : executeActions (signer tx) (transactionId tx) (tx.actions.inner.drop k) k t = .ok u r) :
    Executing tx s tx.actions.inner.length r := by
  induction hn : tx.actions.inner.length - k generalizing k t with
  | zero =>
    have hle : tx.actions.inner.length ≤ k := by omega
    rw [List.drop_eq_nil_of_le hle, executeActions, pure_eq_ok] at hacts
    obtain ⟨-, rfl⟩ := hacts
    have hlen : k = tx.actions.inner.length := by
      refine le_antisymm ?_ hle
      cases h with
      | start => exact Nat.zero_le _
      | step _ hget _ => exact (List.getElem?_eq_some_iff.mp hget).1
    exact hlen ▸ h
  | succ n ih =>
    have hlt : k < tx.actions.inner.length := by omega
    rw [List.drop_eq_getElem_cons hlt, executeActions_cons_ok] at hacts
    obtain ⟨q, hact, hrest⟩ := hacts
    exact ih (h.step (List.getElem?_eq_getElem hlt) hact) hrest (by omega)

/-- A transaction that succeeds has executed all its actions; what follows only drops the context
and takes the events. -/
theorem executeTransaction_executing {tx : Transaction} {s s' : State} {events : List Event}
    (h : executeTransaction tx s = (.ok events, s')) :
    ∃ r, Executing tx s tx.actions.inner.length r ∧
      s' = { base := { r.base.deleteCurrentTransactionContext with
          ephemeral.events := s.events }, oracle := r.oracle } := by
  obtain ⟨hless, b, r, hb, hacts, rfl⟩ := executeTransaction_parts h
  exact ⟨r, (Executing.start hless hb).actions hacts, rfl⟩

end

/-! ## Runs of the sequencer -/

/-- `object_put(EXECUTION_RESULTS_KEY, ..)`. -/
def State.putExecutionResults (results : List ExecTxResult) (s : State) : State :=
  { s with base.ephemeral.executionResults := some results }

/-- `put_storage_version_by_height`. -/
def State.putStorageVersionByHeight (height version : ℕ) (s : State) : State :=
  { s with
    base.nonverifiable.storageVersionByHeight :=
      Function.update s.base.nonverifiable.storageVersionByHeight height (some version) }

section

variable [UpgradeCodec] [TransactionCodec] [BlockCodec]

/-- The states that the parts of block execution lead to, with the withdrawals of the transactions
on the way. -/
inductive Run (handler : UpgradesHandler) : List Withdrawal → State → Prop
  | genesis {genesis : GenesisAppState} {validators : List ValidatorUpdate} {chainId : String}
      {s : Base} : initChain genesis validators chainId Base.empty = .ok () s →
      Run handler [] { base := s, oracle := Oracle.empty }
  | preExecute {l : List Withdrawal} {s s' : State} {appHash : Bytes32} {block : BlockData}
      {hashes : List Bytes32} : Run handler l s →
      preExecuteTransactions handler.upgrades appHash block s = .ok hashes s' → Run handler l s'
  | prices {l : List Withdrawal} {s s' : State} {info : ExtendedCommitInfoWithMapping} {time : Time}
      {height : ℕ} {r : Unit × List Event} : Run handler l s →
      applyDelta (applyPrices info time height) s = .ok r s' → Run handler l s'
  | transaction {l : List Withdrawal} {s s' : State} {tx : Transaction} {events : List Event} :
      Run handler l s → executeTransaction tx s = (.ok events, s') →
      Run handler (l ++ withdrawalsOf tx.actions.inner) s'
  | postExecute {l : List Withdrawal} {s s' : State} {post : PostExecution} : Run handler l s →
      postExecuteTransactions handler post s = .ok () s' → Run handler l s'
  | executionResults {l : List Withdrawal} {s : State} (results : List ExecTxResult) :
      Run handler l s → Run handler l (s.putExecutionResults results)
  | storageVersion {l : List Withdrawal} {s : State} (height version : ℕ) : Run handler l s →
      Run handler l (s.putStorageVersionByHeight height version)
  | commit {l : List Withdrawal} {s : State} : Run handler l s → Run handler l s.commit

/-- The withdrawals of the transactions of a block that succeed on a state. -/
def blockWithdrawals : List Transaction → State → List Withdrawal
  | [], _ => []
  | tx :: rest, s =>
    match executeTransaction tx s with
    | (.ok _, t) => withdrawalsOf tx.actions.inner ++ blockWithdrawals rest t
    | (.error _, t) => blockWithdrawals rest t

variable {handler : UpgradesHandler}

/-- The transactions of a finalized block are a run, whichever of them fail. -/
theorem Run.finalizeTransactions {l : List Withdrawal} {txs : List Transaction} {s : State}
    (h : Run handler l s) :
    Run handler (l ++ blockWithdrawals txs s) (finalizeTransactions txs s).2 := by
  induction txs generalizing l s with
  | nil =>
    rw [blockWithdrawals, List.append_nil]
    exact h
  | cons tx rest ih =>
    change Run handler _ (Sequencer.finalizeTransactions rest (finalizeTransaction tx s).2).2
    rw [finalizeTransaction_snd, blockWithdrawals]
    cases hexec : executeTransaction tx s with
    | mk result t =>
      cases result with
      | ok events =>
        rw [← List.append_assoc]
        exact ih (h.transaction hexec)
      | error e =>
        obtain rfl := executeTransaction_error hexec
        exact ih h

/-- The execution of a whole block is a run. -/
theorem Run.executeBlock {l : List Withdrawal} {appHash : Bytes32} {block : Block} {s s' : State}
    (h : Run handler l s) (hblock : executeBlock handler appHash block s = .ok () s') :
    ∃ l', Run handler (l ++ l') s' := by
  obtain ⟨hashes, t, hpre, hpost⟩ := executeBlock_ok hblock
  exact ⟨_, ((h.preExecute hpre).finalizeTransactions).postExecute hpost⟩

/-! ## What every run keeps -/

omit [BlockCodec] [UpgradeCodec] in
/-- What every action keeps is kept inside a transaction, if the checks before the first action
keep it. -/
theorem Executing.invariant {I : Base → Prop} {tx : Transaction} {s t : State} {k : ℕ}
    (hprepared : ∀ {b b' : Base}, b.SamePrepared b' → I b → I b')
    (haction : ∀ {t r : State} {act : Action} {c : TransactionContext}, act ∈ tx.actions.inner →
      I t.base → executeAction (signer tx) act (t.withContext c) = .ok () r → I r.base)
    (hs : I s.base) (h : Executing tx s k t) : I t.base := by
  induction h with
  | start hless hprep =>
    have hstart : s.base.SamePrepared (s.withEvents []).base := ⟨rfl, rfl, rfl, rfl, rfl, rfl, rfl⟩
    exact hprepared (trans_of _ hstart ((prepareTransaction_keeps tx).of_ok hprep)) hs
  | step _ hget hact ih => exact haction (List.mem_of_getElem? hget) ih hact

omit [UpgradeCodec] [TransactionCodec] [BlockCodec] ext in
/-- The prices of a block reach nothing but the oracle and the events. -/
theorem applyPrices_sameFunds [BlockCodec] (info : ExtendedCommitInfoWithMapping) (time : Time)
    (height : ℕ) : Keeps State.SameFunds (applyPrices info time height) := by
  refine Keeps.bind (by simp) fun prices => Keeps.forEach (fun price => ?_) _
  exact Keeps.bind ((sameFunds_onOracle _).mapErr _) fun _ =>
    sameFunds_onBase (keeps_writes fun _ => rfl)

/-- An invariant of the holdings is shown for the genesis, for transactions and for the fees at the
end of a block; nothing else touches the holdings. -/
theorem Run.invariant {I : Base → Prop} (hsame : ∀ {b b' : Base}, b.SameHoldings b' → I b → I b')
    (hgenesis : ∀ {genesis : GenesisAppState} {validators : List ValidatorUpdate} {chainId : String}
      {b : Base}, initChain genesis validators chainId Base.empty = .ok () b → I b)
    (htransaction : ∀ {tx : Transaction} {s s' : State} {events : List Event}, I s.base →
      executeTransaction tx s = (.ok events, s') → I s'.base)
    (hpays : ∀ {recipient : AddressBytes} {b b' : Base}, b.PaysBlockFees recipient b' → I b → I b')
    {l : List Withdrawal} {s : State} (h : Run handler l s) : I s.base := by
  induction h with
  | genesis hinit => exact hgenesis hinit
  | preExecute _ hpre ih =>
    have hfunds := (preExecuteTransactions_sameFunds _ _ _).of_ok hpre
    exact hsame (Base.SameFunds.holdings hfunds) ih
  | prices _ hprices ih =>
    have hfunds := (sameFunds_applyDelta (applyPrices_sameFunds _ _ _)).of_ok hprices
    exact hsame (Base.SameFunds.holdings hfunds) ih
  | transaction _ htx ih => exact htransaction ih htx
  | postExecute _ hpost ih =>
    obtain ⟨recipient, -, h⟩ := postExecuteTransactions_pays hpost
    exact hpays h ih
  | @executionResults l s results _ ih =>
    have hsame' : s.base.SameHoldings (s.putExecutionResults results).base := ⟨rfl, rfl, rfl, rfl⟩
    exact hsame hsame' ih
  | @storageVersion l s height version _ ih =>
    have hsame' : s.base.SameHoldings (s.putStorageVersionByHeight height version).base :=
      ⟨rfl, rfl, rfl, rfl⟩
    exact hsame hsame' ih
  | @commit l s _ ih =>
    have hsame' : s.base.SameHoldings s.commit.base := ⟨rfl, rfl, rfl, rfl⟩
    exact hsame hsame' ih

/-! ### Bridge accounts -/

omit ext [UpgradeCodec] [TransactionCodec] [BlockCodec] in
theorem Base.WellConfigured.of_bridge {s s' : Base} (hs : s.WellConfigured)
    (h : s'.bridge = s.bridge) : s'.WellConfigured :=
  (Base.SameConfig.of_bridge h).wellConfigured hs

omit [UpgradeCodec] [BlockCodec] in
theorem Executing.wellConfigured {tx : Transaction} {s t : State} {k : ℕ}
    (hs : s.base.WellConfigured) (h : Executing tx s k t) : t.base.WellConfigured := by
  refine Executing.invariant (I := Base.WellConfigured) (fun hprep hb => hb.of_bridge hprep.bridge)
    (fun {t r act c} _ ht hact => ?_) hs h
  have hcontext : (t.withContext c).base.WellConfigured := ht.of_bridge rfl
  exact executeAction_wellConfigured rfl hcontext hact

/-- In every run the keys of a bridge account are there together or not at all. -/
theorem Run.wellConfigured {l : List Withdrawal} {s : State} (h : Run handler l s) :
    s.base.WellConfigured := by
  refine h.invariant (fun hsame hb => hb.of_bridge hsame.bridge) (fun hinit => ?_)
    (fun hs htx => ?_) (fun hpays hb => hb.of_bridge hpays.bridge)
  · have hempty : Base.empty.WellConfigured := ⟨fun _ => rfl, fun _ => rfl, fun _ => rfl⟩
    exact hempty.of_bridge (initChain_fresh hinit).1
  · obtain ⟨r, hexec, rfl⟩ := executeTransaction_executing htx
    exact (hexec.wellConfigured hs).of_bridge rfl

/-! ### Balances -/

omit [UpgradeCodec] [TransactionCodec] [BlockCodec] in
theorem executeAction_inRange {source : AddressBytes} {act : Action} {s s' : State} {u : Unit}
    {c : TransactionContext} (hc : s.base.ephemeral.transactionContext = some c)
    (hs : s.base.InRange) (h : executeAction source act s = .ok u s') : s'.base.InRange := by
  obtain ⟨t, hexec, hpays, -⟩ := executeAction_ok hc h
  have hdoes := Action.checkAndExecute_does hc hexec
  have ht : Ledger.Bounded u128Max t.base.balance := hdoes.balance ▸ Ledger.Bounded.post hs hdoes.fits
  unfold Base.InRange
  rw [hpays.balance]
  exact Ledger.Bounded.post ht hpays.fits

omit ext [UpgradeCodec] [TransactionCodec] [BlockCodec] in
theorem Base.InRange.of_balance {s s' : Base} (hs : s.InRange) (h : s'.balance = s.balance) :
    s'.InRange := by
  unfold Base.InRange
  rwa [h]

omit [UpgradeCodec] [BlockCodec] in
theorem Executing.inRange {tx : Transaction} {s t : State} {k : ℕ} (hs : s.base.InRange)
    (h : Executing tx s k t) : t.base.InRange := by
  refine Executing.invariant (I := Base.InRange) (fun hprep hb => hb.of_balance hprep.balance)
    (fun {t r act c} _ ht hact => ?_) hs h
  have hcontext : (t.withContext c).base.InRange := ht.of_balance rfl
  exact executeAction_inRange rfl hcontext hact

/-- Balances stay in range. -/
def Base.KeepsInRange (s s' : Base) : Prop := s.InRange → s'.InRange

instance : IsPreorder Base Base.KeepsInRange where
  refl _ := id
  trans _ _ _ h h' := h' ∘ h

omit [UpgradeCodec] [TransactionCodec] [BlockCodec] in
theorem keepsInRange_genesis : GenesisWrites Base.KeepsInRange := by
  refine ⟨fun a i account s hs => ?_, ?_, ?_, ?_, ?_, ?_, ?_, ?_, ?_, ?_, ?_, ?_, ?_, ?_⟩
  · unfold Base.InRange
    rw [Base.balance_putAccountBalance_eq]
    intro b j
    rw [Ledger.set_apply]
    split_ifs
    · exact account.balance_le
    · exact hs b j
  all_goals intros; exact fun hs => hs

omit [UpgradeCodec] [TransactionCodec] [BlockCodec] in
theorem initChain_inRange {genesis : GenesisAppState} {validators : List ValidatorUpdate}
    {chainId : String} {s : Base} (h : initChain genesis validators chainId Base.empty = .ok () s) :
    s.InRange := by
  have hempty : Base.empty.InRange := fun _ _ => Nat.zero_le _
  exact (initChain_keeps keepsInRange_genesis genesis validators chainId).of_ok h hempty

/-- In every run every balance stays within 128 bits. -/
theorem Run.inRange {l : List Withdrawal} {s : State} (h : Run handler l s) : s.base.InRange := by
  refine h.invariant (fun hsame hb => hb.of_balance hsame.balance) (fun hinit => ?_)
    (fun hs htx => ?_) (fun hpays hb => hpays.inRange hb)
  · exact initChain_inRange hinit
  · obtain ⟨r, hexec, rfl⟩ := executeTransaction_executing htx
    exact (hexec.inRange hs).of_balance rfl

/-! ### Names of assets -/

/-- Every registered asset is registered under its own hash. -/
def Assets.Named (assets : Assets) : Prop :=
  ∀ i trace, assets.ibcAssets i = some trace → trace.toIbcPrefixed = i

/-- The registered assets stay under their own hashes. -/
def Base.KeepsNamed (s s' : Base) : Prop := s.assets.Named → s'.assets.Named

instance : IsPreorder Base Base.KeepsNamed where
  refl _ := id
  trans _ _ _ h h' := h' ∘ h

omit [UpgradeCodec] [TransactionCodec] [BlockCodec] in
theorem Base.keepsNamed_putIbcAsset (asset : TracePrefixed) (s : Base) :
    s.KeepsNamed (s.putIbcAsset asset) := by
  intro hs i trace h
  change Function.update s.assets.ibcAssets asset.toIbcPrefixed (some asset) i = some trace at h
  by_cases hi : i = asset.toIbcPrefixed
  · subst hi
    rw [Function.update_self, Option.some.injEq] at h
    rw [h]
  · rw [Function.update_of_ne hi] at h
    exact hs i trace h

omit [UpgradeCodec] [TransactionCodec] [BlockCodec] in
theorem adminWrites_keepsNamed : AdminWrites Base.KeepsNamed := by
  constructor <;> intros <;> exact fun h => h

omit [UpgradeCodec] [TransactionCodec] [BlockCodec] in
theorem fundsWrites_keepsNamed : FundsWrites Base.KeepsNamed where
  balance _ _ _ _ := fun h => h
  withdrawalEvent _ _ _ _ := fun h => h
  channelBalance _ _ _ _ := fun h => h
  deposit _ _ := fun h => h
  event _ _ := fun h => h
  ibcAsset := Base.keepsNamed_putIbcAsset
  ibcComponent _ _ := fun h => h

omit [UpgradeCodec] [TransactionCodec] [BlockCodec] in
theorem configWrites_keepsNamed : ConfigWrites Base.KeepsNamed := by
  constructor <;> intros <;> exact fun h => h

omit [UpgradeCodec] [TransactionCodec] [BlockCodec] in
theorem transactionWrites_keepsNamed : TransactionWrites Base.KeepsNamed := by
  constructor <;> intros <;> exact fun h => h

omit [UpgradeCodec] [TransactionCodec] [BlockCodec] in
theorem keepsNamed_genesis : GenesisWrites Base.KeepsNamed := by
  refine ⟨?_, ?_, ?_, ?_, Base.keepsNamed_putIbcAsset, ?_, ?_, ?_, ?_, ?_, ?_, ?_, ?_, ?_⟩
  all_goals intros; exact fun hs => hs

/-- In every run every registered asset is registered under its own hash. -/
theorem Run.named {l : List Withdrawal} {s : State} (h : Run handler l s) : s.base.assets.Named := by
  refine h.invariant (I := fun b => b.assets.Named) (fun hsame hb => hsame.assets ▸ hb)
    (fun hinit => ?_) (fun {tx s s' events} hs htx => ?_) (fun hpays hb => hpays.assets ▸ hb)
  · have hempty : Base.empty.assets.Named := fun _ _ h => by cases h
    exact (initChain_keeps keepsNamed_genesis _ _ _).of_ok hinit hempty
  · have hkeeps := executeTransaction_keeps adminWrites_keepsNamed fundsWrites_keepsNamed
      configWrites_keepsNamed transactionWrites_keepsNamed tx s
    rw [htx] at hkeeps
    exact hkeeps hs

end

end

/-! ## A run of the test genesis -/

section

open TestUtils

/-- A transaction that succeeds continues a run. -/
theorem Run.after {l : List Withdrawal} {s : State} (h : Run withoutUpgrades l s)
    (tx : Transaction) (hok : (executeTransaction tx s).1.isOk = true) :
    Run withoutUpgrades (l ++ withdrawalsOf tx.actions.inner) (TestUtils.after tx s) := by
  unfold TestUtils.after
  cases hexec : executeTransaction tx s with
  | mk result t =>
    rw [hexec] at hok
    cases result with
    | ok events => exact h.transaction hexec
    | error e => cases hok

theorem run_genesis : Run withoutUpgrades [] genesis := Run.genesis initChain_genesis

set_option maxRecDepth 10000 in
theorem run_bridges : Run withoutUpgrades [] bridges := by
  have halice := run_genesis.after (initBridge aliceKey) (by decide +kernel)
  have hbob := halice.after (initBridge bobKey) (by decide +kernel)
  exact hbob.after setBridgeTransferFees (by decide +kernel)

end

end Astria.Sequencer
