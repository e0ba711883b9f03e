import Astria.Lib.Numbering
import Astria.Sequencer.Replication

/-!
# The nonces of a chain

A transaction is executed only if it carries the nonce of its signer, which is then counted up
(`action_handler/impls/transaction.rs`, lines 174–309).  One that fails counts nothing, and may be executed
in a later block.

Specification: `TransactionRun`, the transactions that the blocks of a chain have executed.

Results:
* `executeTransaction_nonces`: what a transaction that succeeds does to the nonces;
* `TransactionRun.numbered`: the executed transactions of a signer carry the nonces from 0 on, in order;
* `NodeRun.executesOnce`: so on no node a transaction is executed again, and none before its turn.
-/

namespace Astria.Sequencer

open Astria.Core Astria.Lib Exec

/-! ## What counts a nonce -/

/-- The nonces are as they were. -/
def Base.SameNonces (s s' : Base) : Prop := s'.accountNonce = s.accountNonce

instance : IsPreorder Base Base.SameNonces where
  refl _ := rfl
  trans _ _ _ h h' := h'.trans h

theorem Base.SameFunds.sameNonces {s s' : Base} (h : s.SameFunds s') : s.SameNonces s' :=
  congrArg (fun f : Funds => fun a => (f.accounts.nonces a).getD 0) h

theorem Base.accountNonce_putAccountNonce (a : AddressBytes) (nonce : ℕ) (s : Base) :
    (s.putAccountNonce a nonce).accountNonce = Function.update s.accountNonce a nonce := by
  funext a'
  by_cases ha : a' = a
  · subst ha
    simp [Base.accountNonce, Base.putAccountNonce]
  · simp [Base.accountNonce, Base.putAccountNonce, ha]

section

variable [ext : External]

/-- An action and its fee leave the nonces. -/
theorem executeAction_sameNonces {source : AddressBytes} {act : Action} {s s' : State} {u : Unit}
    (h : executeAction source act s = .ok u s') : s.base.SameNonces s'.base := by
  obtain ⟨t, hexec, hpays⟩ := executeAction_parts h
  have hexecuted : s.base.SameNonces t.base :=
    Action.checkAndExecute_keepsAll (by constructor <;> intros <;> rfl)
      (by constructor <;> intros <;> rfl) (by constructor <;> intros <;> rfl) hexec
  rcases hpays with ⟨-, rfl⟩ | ⟨b, hfees, rfl⟩
  · exact hexecuted
  · rcases checkAndPayFees_eq_ok hfees with ⟨-, rfl⟩ | ⟨c, asset, amount, -, -, -, rfl⟩
    · exact hexecuted
    · exact hexecuted

variable [TransactionCodec]

/-- A transaction that is prepared carries the nonce of its signer. -/
theorem prepareTransaction_nonces {tx : Transaction} {s s' : Base} {u : Unit}
    (h : prepareTransaction tx s = .ok u s') :
    s.accountNonce (signer tx) = tx.params.nonce ∧
      s'.accountNonce = Function.update s.accountNonce (signer tx) (tx.params.nonce + 1) := by
  have hcosts : Keeps Base.SameNonces (checkBalanceForTotalFeesAndTransfers tx) := by
    refine Keeps.bind (by simp) fun costs => Keeps.forEach (fun cost => ?_) costs
    exact Keeps.bind (by simp) fun _ => by simp
  unfold prepareTransaction at h
  simp only [bind_eq_ok, writes_eq_ok, tryReads_eq_ok, ensure_eq_ok, reads_eq_ok, mapErr_eq_ok,
    and_assoc, exists_and_left, exists_eq_left, exists_const] at h
  obtain ⟨chainId, -, -, hnonce, _, t, hcheck, hrest⟩ := h
  rw [hnonce] at hrest
  refine ⟨hnonce, ?_⟩
  -- the nonce is counted up last, whether the signer is a bridge account or not
  have hcount {b : Base} (hb : b.accountNonce = t.accountNonce) :
      (b.putAccountNonce (signer tx) (tx.params.nonce + 1)).accountNonce =
        Function.update s.accountNonce (signer tx) (tx.params.nonce + 1) := by
    have ht : t.accountNonce = s.accountNonce := Eq.trans (hcosts.of_ok hcheck) rfl
    rw [Base.accountNonce_putAccountNonce, hb, ht]
  split_ifs at hrest with hbridge
  · simp only [bind_eq_ok, writes_eq_ok, require_eq_ok, checkedAdd_eq_some, and_assoc, exists_and_left,
      exists_eq_left, exists_const] at hrest
    obtain ⟨-, rfl⟩ := hrest
    exact hcount rfl
  · simp only [bind_eq_ok, writes_eq_ok, require_eq_ok, checkedAdd_eq_some, and_assoc, exists_and_left,
      exists_eq_left] at hrest
    obtain ⟨-, rfl⟩ := hrest
    exact hcount rfl

/-- A transaction that succeeds counts the nonce of its signer up. -/
theorem executeTransaction_nonces {tx : Transaction} {s s' : State} {events : List Event}
    (h : executeTransaction tx s = (.ok events, s')) :
    s.base.accountNonce (signer tx) = tx.params.nonce ∧
      s'.base.accountNonce =
        Function.update s.base.accountNonce (signer tx) (tx.params.nonce + 1) := by
  obtain ⟨-, b, r, hb, hacts, rfl⟩ := executeTransaction_parts h
  obtain ⟨hnonce, hcounted⟩ := prepareTransaction_nonces hb
  refine ⟨hnonce, ?_⟩
  have hrun : b.SameNonces r.base := by
    refine executeActions_invariant (I := fun q => b.SameNonces q.base) ?_ (refl_of _ b) hacts
    intro act _ c _ _ q q' hq hact
    have hcontext : q.base.SameNonces (q.withContext c).base := rfl
    exact trans_of _ (trans_of _ hq hcontext) (executeAction_sameNonces hact)
  exact Eq.trans hrun hcounted

/-! ## The transactions of a chain -/

/-- The transactions of a finalized block that succeed. -/
def executedTransactions : List Transaction → State → List Transaction
  | [], _ => []
  | tx :: rest, s =>
    let executed := executedTransactions rest (finalizeTransaction tx s).2
    if (executeTransaction tx s).1.isOk then tx :: executed else executed

/-- The executed transactions of each signer carry its nonces so far. -/
abbrev NoncesOf (txs : List Transaction) (s : Base) : Prop :=
  Numbered signer (fun tx => tx.params.nonce) s.accountNonce txs

/-- The transactions of a block go on with the nonces. -/
theorem finalizeTransactions_nonces {executed txs : List Transaction} {s : State}
    (h : NoncesOf executed s.base) :
    NoncesOf (executed ++ executedTransactions txs s) (finalizeTransactions txs s).2.base := by
  induction txs generalizing executed s with
  | nil =>
    rw [executedTransactions, List.append_nil]
    exact h
  | cons tx rest ih =>
    have hfinal : (finalizeTransactions (tx :: rest) s).2 =
        (finalizeTransactions rest (finalizeTransaction tx s).2).2 := rfl
    rw [hfinal, executedTransactions]
    cases hrun : executeTransaction tx s with
    | mk result s' =>
      have hnext : (finalizeTransaction tx s).2 = s' := by rw [finalizeTransaction_snd, hrun]
      rw [hnext]
      cases result with
      | error e =>
        obtain rfl := executeTransaction_error hrun
        exact ih h
      | ok events =>
        obtain ⟨hnonce, hcounted⟩ := executeTransaction_nonces hrun
        have hall := ih (h.append hnonce hcounted)
        rw [List.append_assoc, List.singleton_append] at hall
        exact hall

variable [UpgradeCodec] [BlockCodec] {handler : UpgradesHandler} {appHash : Bytes32}

/-- The transactions of a block that it executes. -/
def Block.executed (handler : UpgradesHandler) (appHash : Bytes32) (block : Block) (s : State) :
    List Transaction :=
  executedTransactions block.expanded.userSubmittedTransactions
    (final (preExecuteTransactions handler.upgrades appHash block.data s))

/-- Only its transactions count nonces in a block. -/
theorem executeBlock_nonces {executed : List Transaction} {block : Block} {s s' : State} {u : Unit}
    (h : executeBlock handler appHash block s = .ok u s') (hs : NoncesOf executed s.base) :
    NoncesOf (executed ++ block.executed handler appHash s) s'.base := by
  obtain ⟨hashes, t, hpre, hpost⟩ := executeBlock_ok h
  have hstart : s.base.SameNonces t.base := Base.SameFunds.sameNonces
    ((preExecuteTransactions_sameFunds handler.upgrades appHash block.data).of_ok hpre)
  have hexecuted : block.executed handler appHash s =
      executedTransactions block.expanded.userSubmittedTransactions t := by
    unfold Block.executed
    rw [hpre]
    rfl
  have hend := postExecuteTransactions_keeps (R := Base.SameNonces)
    (by constructor <;> intros <;> rfl) hpost
  rw [hexecuted]
  unfold NoncesOf
  rw [hend]
  refine finalizeTransactions_nonces ?_
  unfold NoncesOf
  rw [hstart]
  exact hs

theorem Executes.nonces {executed : List Transaction} {block : Block} {s s' : State}
    (h : Executes handler appHash block s s') (hs : NoncesOf executed s.base) :
    NoncesOf (executed ++ block.executed handler appHash s) s'.base := by
  obtain ⟨t, hok, rfl | ⟨results, rfl⟩⟩ := h
  · exact executeBlock_nonces hok hs
  · have hnonces := executeBlock_nonces hok hs
    exact hnonces

/-- The states after the blocks of a chain, as in `ChainRun`, with the transactions that were executed. -/
inductive TransactionRun (handler : UpgradesHandler) (genesis : Base) : List Transaction → State → Prop
  | genesis (height version : ℕ) :
      TransactionRun handler genesis []
        (State.putStorageVersionByHeight height version { base := genesis, oracle := Oracle.empty }).commit
  | executed {txs : List Transaction} {s t u : State} {appHash : Bytes32} {executed priced : Block}
      (height version : ℕ) : TransactionRun handler genesis txs s → executed.data.height = s.nextHeight →
      AppliesPrices priced s t → Executes handler appHash executed t u →
      TransactionRun handler genesis (txs ++ executed.executed handler appHash t)
        (u.putStorageVersionByHeight height version).commit
  | proposed {txs : List Transaction} {s t u : State} {appHash : Bytes32} {executed priced : Block}
      (height version : ℕ) : TransactionRun handler genesis txs s → executed.data.height = s.nextHeight →
      Executes handler appHash executed s t → AppliesPrices priced t u →
      TransactionRun handler genesis (txs ++ executed.executed handler appHash s)
        (u.putStorageVersionByHeight height version).commit

/-- Every chain has executed some transactions. -/
theorem ChainRun.transactionRun {b : Base} {steps : List ActionStep} {s : State}
    (h : ChainRun handler b steps s) : ∃ txs, TransactionRun handler b txs s := by
  induction h with
  | genesis height version => exact ⟨_, .genesis height version⟩
  | executed height version _ hheight hprices hexec ih =>
    obtain ⟨txs, htxs⟩ := ih
    exact ⟨_, htxs.executed height version hheight hprices hexec⟩
  | proposed height version _ hheight hexec hprices ih =>
    obtain ⟨txs, htxs⟩ := ih
    exact ⟨_, htxs.proposed height version hheight hexec hprices⟩

omit [TransactionCodec] [UpgradeCodec] [BlockCodec] in
/-- Nonces start at 0. -/
theorem initChain_nonces {genesis : GenesisAppState} {validators : List ValidatorUpdate}
    {chainId : String} {b : Base} (h : initChain genesis validators chainId Base.empty = .ok () b) :
    b.accountNonce = fun _ => 0 := by
  have hwrites : GenesisWrites Base.SameNonces := by constructor <;> intros <;> rfl
  exact (initChain_keeps hwrites genesis validators chainId).of_ok h

theorem TransactionRun.numbered {genesis : GenesisAppState} {validators : List ValidatorUpdate}
    {chainId : String} {b : Base} (hgenesis : initChain genesis validators chainId Base.empty = .ok () b)
    {txs : List Transaction} {s : State} (h : TransactionRun handler b txs s) : NoncesOf txs s.base := by
  induction h with
  | genesis height version =>
    change Numbered signer _ b.accountNonce []
    rw [initChain_nonces hgenesis]
    exact .nil
  | executed height version _ _ hprices hexec ih =>
    rw [← hprices.base_eq] at ih
    exact hexec.nonces ih
  | @proposed txs s t u appHash executed priced height version _ _ hexec hprices ih =>
    have hexecuted := hexec.nonces ih
    rw [← hprices.base_eq] at hexecuted
    exact hexecuted

/-- Whatever a node is asked, the transactions that its chain has executed carry the nonces of their signers
from 0 on, in order: none is executed twice, and none before its turn. -/
theorem NodeRun.executesOnce [RootHash] [VoteCrypto] {genesis : InitChain} {parkedMaxTxCount : ℕ}
    {requests : List (Request parkedMaxTxCount)} {node : Node} (hlaws : DataItem.Laws)
    (hlater : handler.EnablesLater) (h : NodeRun handler genesis requests node) :
    ∃ b txs, Sequencer.initChain genesis.genesisState genesis.validators genesis.chainId Base.empty =
        .ok () b ∧
      TransactionRun handler b txs node.storage.latestSnapshot ∧
      NoncesOf txs node.storage.latestSnapshot.base ∧
      (txs.map fun tx => (signer tx, tx.params.nonce)).Nodup := by
  obtain ⟨b, hb, steps, hchain⟩ := h.chainRun hlaws hlater
  obtain ⟨txs, htxs⟩ := hchain.transactionRun
  have hnumbered := htxs.numbered hb
  exact ⟨b, txs, hb, htxs, hnumbered, hnumbered.nodup⟩

end

section

open TestUtils TestProposal

namespace TestNode

set_option maxRecDepth 10000 in
/-- The block with one transaction of alice. -/
theorem executesOnce_committed :
    ∃ b txs, Sequencer.initChain genesisRequest.genesisState genesisRequest.validators
        genesisRequest.chainId Base.empty = .ok () b ∧
      TransactionRun withoutUpgrades b txs (commits processed).storage.latestSnapshot ∧
      NoncesOf txs (commits processed).storage.latestSnapshot.base ∧
      (txs.map fun tx => (signer tx, tx.params.nonce)).Nodup :=
  (commits_run processed_run (by decide +kernel)).executesOnce laws enablesLater

end TestNode

end

end Astria.Sequencer
