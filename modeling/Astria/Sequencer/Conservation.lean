import Astria.Sequencer.TestUtils

/-!
# Conservation of value

Outside of IBC, value only moves: from account to account, from an account to the fees recorded in
the block, and at the end of the block from those to the sudo address.

Results:
* `executeAction_conserves`, `executeTransaction_conserves`: the balances and the recorded fees of
  an asset keep their sum;
* `postExecuteTransactions_pays`: the end of a block credits the sudo address with exactly the
  recorded fees;
* `executeBlock_conserves`, `block_conservesValue`: a block keeps the total of every asset over all
  accounts, and every balance stays within 128 bits.
-/

namespace Astria.Sequencer

open Astria.Core Astria.Lib Exec

/-- A relayed IBC message, or a withdrawal over IBC. -/
def Action.isIbc : Action → Bool
  | .ibc _ | .ics20Withdrawal _ => true
  | _ => false

/-- A transaction none of whose actions goes over IBC. -/
def WithoutIbc (tx : Transaction) : Prop := ∀ act ∈ tx.actions.inner, Action.isIbc act = false

instance (tx : Transaction) : Decidable (WithoutIbc tx) :=
  inferInstanceAs (Decidable (∀ act ∈ tx.actions.inner, Action.isIbc act = false))

section

variable [ext : External]

/-! ## What is conserved -/

/-- The fees of the block by asset. -/
def Base.blockFeeAmounts (s : Base) : List (IbcPrefixed × ℕ) :=
  s.ephemeral.blockFees.map fun fee => (fee.asset.toIbcPrefixed, fee.amount)

/-- The fees recorded in an asset. -/
def Base.recordedFees (s : Base) (asset : IbcPrefixed) : ℕ :=
  Ledger.amountIn asset s.blockFeeAmounts

/-- The balances of an asset together with the fees recorded in it. -/
def Base.totalWithFees (s : Base) (asset : IbcPrefixed) : ℕ :=
  s.totalBalance asset + s.recordedFees asset

/-- No balance leaves the range of 128 bits. -/
def Base.InRange (s : Base) : Prop := Ledger.Bounded u128Max s.balance

/-- The sums of balances and fees are the same, and balances stay in range. -/
structure Base.Conserves (s s' : Base) : Prop where
  total : ∀ asset, s'.totalWithFees asset = s.totalWithFees asset
  inRange : s.InRange → s'.InRange

instance : IsPreorder Base Base.Conserves where
  refl _ := ⟨fun _ => rfl, id⟩
  trans _ _ _ h h' := ⟨fun i => (h'.total i).trans (h.total i), h'.inRange ∘ h.inRange⟩

/-- Balances and fees that are the same are conserved. -/
theorem Base.Conserves.of_eq {s s' : Base} (hbalance : s'.balance = s.balance)
    (hfees : s'.ephemeral.blockFees = s.ephemeral.blockFees) : s.Conserves s' := by
  refine ⟨fun asset => ?_, fun h => ?_⟩
  · unfold Base.totalWithFees Base.totalBalance Base.recordedFees Base.blockFeeAmounts
    rw [hbalance, hfees]
  · unfold Base.InRange
    rwa [hbalance]

/-! ## One action -/

/-- Outside of IBC an action takes from one account what it gives to another. -/
theorem Action.effect_balanced {act : Action} (hact : Action.isIbc act = false) (s : Base)
    (c : TransactionContext) : (Action.effect s c act).accounts.Balanced := by
  cases act with
  | bridgeUnlock act =>
    simp only [Action.effect]
    cases s.bridge.ibcAsset act.bridgeAddress.bytes <;> rfl
  | bridgeTransfer act =>
    simp only [Action.effect]
    cases s.bridge.ibcAsset act.bridgeAddress.bytes <;> rfl
  | ibc msg => cases hact
  | ics20Withdrawal act => cases hact
  | _ => rfl

/-- A balanced effect conserves value. -/
theorem Base.Does.conserves {s s' : Base} {e : Effect} (h : s.Does e s')
    (hbalanced : e.accounts.Balanced) : s.Conserves s' := by
  refine ⟨fun asset => ?_, fun hrange => ?_⟩
  · unfold Base.totalWithFees Base.totalBalance Base.recordedFees Base.blockFeeAmounts
    rw [h.balance, h.blockFees, Ledger.total_post_of_balanced hbalanced h.fits]
  · unfold Base.InRange
    rw [h.balance]
    exact Ledger.Bounded.post hrange h.fits

/-- A fee that is paid is taken from the signer and recorded. -/
theorem Base.Pays.conserves {s s' : Base} {act : Action} {c : TransactionContext}
    {fee : Option (IbcPrefixed × ℕ)} (h : s.Pays act c fee s') : s.Conserves s' := by
  refine ⟨fun asset => ?_, fun hrange => ?_⟩
  · have htotal := Ledger.total_post h.fits asset
    unfold Base.totalWithFees Base.totalBalance Base.recordedFees Base.blockFeeAmounts
    rw [h.balance, h.blockFees, List.map_append, Ledger.amountIn_append]
    cases fee with
    | none =>
      simp only [feePosting, Ledger.amountOf, Option.map_none, Option.elim_none, Option.toList_none,
        List.map_nil, Ledger.amountIn, List.sum_nil] at htotal ⊢
      omega
    | some f =>
      simp only [feePosting, feeRecord, Ledger.amountOf, Ledger.amountIn, Denom.toIbcPrefixed,
        Option.map_some, Option.elim_some, Option.elim_none, Option.toList_some, List.map_cons,
        List.map_nil, List.sum_cons, List.sum_nil] at htotal ⊢
      omega
  · unfold Base.InRange
    rw [h.balance]
    exact Ledger.Bounded.post hrange h.fits

/-- An action outside of IBC, with the payment of its fee, conserves value. -/
theorem executeAction_conserves {source : AddressBytes} {act : Action} {s s' : State} {u : Unit}
    {c : TransactionContext} (hact : Action.isIbc act = false)
    (hc : s.base.ephemeral.transactionContext = some c)
    (h : executeAction source act s = .ok u s') : s.base.Conserves s'.base := by
  obtain ⟨t, hexec, hpays, -⟩ := executeAction_ok hc h
  have hdoes := Action.checkAndExecute_does hc hexec
  exact trans_of Base.Conserves (hdoes.conserves (Action.effect_balanced hact _ _)) hpays.conserves

/-! ## One transaction -/

section

variable [TransactionCodec]

/-- A transaction conserves value, whether it succeeds or fails. -/
theorem executeTransaction_conserves {tx : Transaction} (htx : WithoutIbc tx) (s : State) :
    s.base.Conserves (executeTransaction tx s).2.base := by
  cases h : executeTransaction tx s with
  | mk result s' =>
    cases result with
    | error e =>
      rw [executeTransaction_error h]
      exact refl_of Base.Conserves _
    | ok events =>
      obtain ⟨t, r, hprep, -, hacts, hdone, -⟩ := executeTransaction_run h
      have hrun : t.base.Conserves r.base := by
        refine executeActions_invariant (I := fun q => t.base.Conserves q.base) ?_
          (refl_of Base.Conserves _) hacts
        intro act hmem c _ _ q q' hq hexec
        have hstep : (q.withContext c).base.Conserves q'.base :=
          executeAction_conserves (htx act hmem) rfl hexec
        have hcontext : q.base.Conserves (q.withContext c).base := Base.Conserves.of_eq rfl rfl
        exact trans_of Base.Conserves hq (trans_of Base.Conserves hcontext hstep)
      have hstart := Base.Conserves.of_eq hprep.balance hprep.blockFees
      have hend := Base.Conserves.of_eq hdone.balance hdone.blockFees
      exact trans_of Base.Conserves hstart (trans_of Base.Conserves hrun hend)

/-- The transactions of a block conserve value. -/
theorem finalizeTransactions_conserves {txs : List Transaction} (htxs : ∀ tx ∈ txs, WithoutIbc tx)
    (s : State) : s.base.Conserves (finalizeTransactions txs s).2.base := by
  induction txs generalizing s with
  | nil => exact refl_of Base.Conserves _
  | cons tx rest ih =>
    have hfirst : s.base.Conserves (finalizeTransaction tx s).2.base := by
      rw [finalizeTransaction_snd]
      exact executeTransaction_conserves (htxs tx List.mem_cons_self) s
    exact trans_of Base.Conserves hfirst (ih (fun t ht => htxs t (List.mem_cons_of_mem _ ht)) _)

end

/-! ## The end of the block -/

/-- `s'` is `s` with the recorded fees credited to `recipient`. -/
structure Base.PaysBlockFees (s : Base) (recipient : AddressBytes) (s' : Base) : Prop where
  balance : s'.balance = Ledger.creditAll recipient s.blockFeeAmounts s.balance
  inRange : s.InRange → s'.InRange
  bridge : s'.bridge = s.bridge
  assets : s'.assets = s.assets
  escrow : s'.ibcChannelBalance = s.ibcChannelBalance
  deposits : s'.ephemeral.deposits = s.ephemeral.deposits

/-- The fees are credited one after the other. -/
theorem payBlockFees_pays {recipient : AddressBytes} {fees : List Fee} {s s' : Base} {u : Unit}
    (h : payBlockFees recipient fees s = .ok u s') :
    s'.balance = Ledger.creditAll recipient
        (fees.map fun fee => (fee.asset.toIbcPrefixed, fee.amount)) s.balance ∧
      (s.InRange → s'.InRange) ∧ { s' with accounts := s.accounts } = s := by
  induction fees generalizing s with
  | nil =>
    obtain rfl := forEach_nil_eq_ok.mp h
    exact ⟨rfl, id, rfl⟩
  | cons fee rest ih =>
    obtain ⟨t, hfee, hrest⟩ := forEach_cons_eq_ok.mp h
    rw [mapErr_eq_ok, increaseBalance_eq_ok] at hfee
    obtain ⟨hle, rfl⟩ := hfee
    obtain ⟨hbalance, hrange, hother⟩ := ih hrest
    have hcredit : (s.putAccountBalance recipient fee.asset.toIbcPrefixed
        (s.balance recipient fee.asset.toIbcPrefixed + fee.amount)).balance =
          Ledger.credit recipient fee.asset.toIbcPrefixed fee.amount s.balance :=
      Base.balance_putAccountBalance_eq _ _ _ _
    refine ⟨?_, fun hs => hrange ?_, ?_⟩
    · rw [hbalance, hcredit]
      rfl
    · unfold Base.InRange
      rw [hcredit]
      exact Ledger.Bounded.credit hs hle
    · exact congrArg (fun b : Base => { b with accounts := s.accounts }) hother

/-- `end_block` credits the recipient with the recorded fees. -/
theorem endBlock_pays {recipient : AddressBytes} {updates : List CometbftValidatorUpdate}
    {s s' : Base} (h : endBlock recipient s = .ok updates s') : s.PaysBlockFees recipient s' := by
  simp only [endBlock, bind_eq_ok, mapErr_eq_ok, reads_eq_ok, writes_eq_ok, pure_eq_ok, and_assoc,
    exists_and_left, exists_eq_left] at h
  obtain ⟨_, a, hauth, _, _, p, hpay, -, rfl⟩ := h
  have hsame := authorityEndBlock_sameFunds.of_ok hauth
  obtain ⟨hbalance, hrange, hother⟩ := payBlockFees_pays hpay
  have hbalance' : a.clearBlockValidatorUpdates.balance = s.balance := hsame.balance
  refine ⟨?_, fun hs => hrange ?_, ?_, ?_, ?_, ?_⟩
  · rw [hbalance, hbalance']
    unfold Base.blockFeeAmounts
    rw [← hsame.blockFees]
    rfl
  · unfold Base.InRange
    rwa [hbalance']
  · exact (congrArg Base.bridge hother).trans hsame.bridge
  · exact (congrArg Base.assets hother).trans hsame.assets
  · exact (congrArg (fun b : Base => b.ibcChannelBalance) hother).trans hsame.ibcChannelBalance
  · exact (congrArg (fun b : Base => b.ephemeral.deposits) hother).trans hsame.deposits

/-- The end of a block credits the sudo address with exactly the recorded fees. -/
theorem postExecuteTransactions_pays [BlockCodec] {handler : UpgradesHandler}
    {post : PostExecution} {s s' : State} {u : Unit}
    (h : postExecuteTransactions handler post s = .ok u s') :
    ∃ recipient, s.base.authority.sudoAddress = some recipient ∧
      s.base.PaysBlockFees recipient s'.base := by
  obtain ⟨chainId, recipient, updates, b, c, -, hsudo, hend, hstore, rfl⟩ :=
    postExecuteTransactions_eq_ok.mp h
  have hpays := endBlock_pays hend
  have hstored := (storeBlock_sameFunds _ _ _ _ _).of_ok hstore
  refine ⟨recipient, hsudo, hstored.balance.trans hpays.balance, fun hs => ?_,
    hstored.bridge.trans hpays.bridge, hstored.assets.trans hpays.assets,
    hstored.ibcChannelBalance.trans hpays.escrow,
    hstored.deposits.trans hpays.deposits⟩
  have hrange : b.InRange := hpays.inRange hs
  have hbalance : c.balance = b.balance := hstored.balance
  change Ledger.Bounded u128Max c.balance
  rwa [hbalance]

/-! ## The whole block -/

/-- The total of an asset after a block is what the accounts held before it and what the delta it
runs on has recorded in fees. -/
theorem executeBlock_conserves [UpgradeCodec] [TransactionCodec] [BlockCodec]
    {handler : UpgradesHandler} {appHash : Bytes32} {block : Block} {s s' : State} {u : Unit}
    (htxs : ∀ tx ∈ block.expanded.userSubmittedTransactions, WithoutIbc tx)
    (h : executeBlock handler appHash block s = .ok u s') :
    (∀ asset, s'.base.totalBalance asset = s.base.totalWithFees asset) ∧
      (s.base.InRange → s'.base.InRange) := by
  obtain ⟨hashes, t, hpre, hpost⟩ := executeBlock_ok h
  have hsame : s.base.SameFunds t.base :=
    (preExecuteTransactions_sameFunds handler.upgrades appHash block.data).of_ok hpre
  have hrun := trans_of Base.Conserves (Base.Conserves.of_eq hsame.balance hsame.blockFees)
    (finalizeTransactions_conserves htxs t)
  obtain ⟨recipient, -, hpays⟩ := postExecuteTransactions_pays hpost
  refine ⟨fun asset => ?_, fun hs => hpays.inRange (hrun.inRange hs)⟩
  rw [← hrun.total asset]
  unfold Base.totalBalance
  rw [hpays.balance, Ledger.total_creditAll]
  rfl

/-- Value is conserved in every block without IBC: by each transaction, by the end of the block,
which moves the recorded fees to the sudo address, and so by the block on a fresh delta. -/
theorem block_conservesValue [UpgradeCodec] [TransactionCodec] [BlockCodec]
    (handler : UpgradesHandler) (appHash : Bytes32) :
    (∀ tx, WithoutIbc tx → ∀ (s : State) (asset : IbcPrefixed),
      (executeTransaction tx s).2.base.totalWithFees asset = s.base.totalWithFees asset ∧
        (s.base.InRange → (executeTransaction tx s).2.base.InRange)) ∧
    (∀ post s s', postExecuteTransactions handler post s = .ok () s' →
      ∃ recipient, s.base.authority.sudoAddress = some recipient ∧
        (∀ account asset, s'.base.balance account asset =
          s.base.balance account asset +
            if account = recipient then s.base.recordedFees asset else 0) ∧
        (s.base.InRange → s'.base.InRange)) ∧
    ∀ block : Block, (∀ tx ∈ block.expanded.userSubmittedTransactions, WithoutIbc tx) →
      ∀ s s' : State, executeBlock handler appHash block s.commit = .ok () s' →
        (∀ asset, s'.base.totalBalance asset = s.base.totalBalance asset) ∧
          (s.base.InRange → s'.base.InRange) := by
  refine ⟨fun tx htx s asset => ?_, fun post s s' h => ?_, fun block htxs s s' h => ?_⟩
  · have hconserves := executeTransaction_conserves htx s
    exact ⟨hconserves.total asset, hconserves.inRange⟩
  · obtain ⟨recipient, hsudo, hpays⟩ := postExecuteTransactions_pays h
    refine ⟨recipient, hsudo, fun account asset => ?_, hpays.inRange⟩
    rw [hpays.balance, Ledger.creditAll_apply]
    rfl
  · obtain ⟨htotal, hrange⟩ := executeBlock_conserves htxs h
    have hfresh (asset : IbcPrefixed) :
        s.commit.base.totalWithFees asset = s.base.totalBalance asset := Nat.add_zero _
    exact ⟨fun asset => (htotal asset).trans (hfresh asset), hrange⟩

end

section

open TestUtils

/-- Alice sends bob an amount. -/
def transferTransaction : Transaction :=
  signedTransaction aliceKey 0 (.transfer
    { toAddress := bobAddress
      amount := 333333
      asset := .tracePrefixed nria
      feeAsset := .tracePrefixed nria })

set_option maxRecDepth 10000 in
/-- A block with a transfer, whose fee goes to judy. -/
theorem block_conservesValue_transfer :
    ∃ s', executeBlock withoutUpgrades (List.Vector.replicate 32 0)
        (block 1 [transferTransaction] []) genesis.commit = .ok () s' ∧
      s'.base.balance judyAddress.bytes nria.toIbcPrefixed = 12 ∧
      ∀ asset, s'.base.totalBalance asset = genesis.base.totalBalance asset := by
  let run := executeBlock withoutUpgrades (List.Vector.replicate 32 0)
    (block 1 [transferTransaction] []) genesis.commit
  have hrun : run = .ok () (final run) := eq_ok_of_isOk (by decide +kernel)
  refine ⟨final run, hrun, by decide +kernel, ?_⟩
  have htxs : ∀ tx ∈ [transferTransaction], WithoutIbc tx := by decide
  exact ((block_conservesValue withoutUpgrades (List.Vector.replicate 32 0)).2.2 _ htxs genesis
    (final run) hrun).1

end

end Astria.Sequencer
