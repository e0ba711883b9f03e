import Astria.Lib.OpenLedger
import Astria.Sequencer.Replication

/-!
# The supply of an asset

Over IBC assets leave the sequencer and come back (`action_handler/impls/ics20_withdrawal.rs`, lines 104–179,
`ibc/ics20_transfer.rs`, lines 446–626): an asset whose source is the sequencer goes to the escrow of the
channel, and the voucher of another asset is burned, or minted when it comes back.

Specification: `ActionStep.minted`, `ActionStep.burned`, the amounts that a step adds to the supply or takes
from it.

Results:
* `ActionStep.Genuine.accounts`: a step changes the supply by these amounts;
* `NodeRun.supply`: so does every chain of blocks of a node, and only vouchers are ever minted.
-/

namespace Astria.Sequencer

open Astria.Core Astria.Lib Exec

section

variable [ext : External]

/-! ## Specification -/

/-- The escrows of all channels and the balances of all accounts. -/
noncomputable def Base.supply (s : Base) (asset : IbcPrefixed) : ℕ :=
  s.totalBalance asset + Ledger.held s.ibcChannelBalance asset

/-- A refund mints the amount again, unless the escrow gives it. -/
def Base.refundMinted (s : Base) (packet : Packet) : Option (IbcPrefixed × ℕ) :=
  (s.packetTransfer FungibleTokenPacketData.sender packet).bind fun t =>
    if isRefundSourceZone t.denom packet.portOnA packet.chanOnA then none
    else some (t.denom.toIbcPrefixed, t.amount)

/-- What a step mints: the voucher of an amount that is received, or refunded. -/
def ActionStep.minted (step : ActionStep) : Option (IbcPrefixed × ℕ) :=
  match step.action with
  | .ibc (.recvPacket packet _) =>
    (step.before.packetTransfer FungibleTokenPacketData.receiver packet).bind fun t =>
      if isTransferSourceZone t.denom packet.portOnA packet.chanOnA = false ∧
          step.before.CanReceive packet t then
        some ((receivedAsset t.denom packet).toIbcPrefixed, t.amount)
      else none
  | .ibc (.acknowledgement packet bytes _) =>
    match ext.parseAcknowledgement bytes with
    | some (.error _) => step.before.refundMinted packet
    | _ => none
  | .ibc (.timeout packet _) => step.before.refundMinted packet
  | _ => none

/-- What a step burns: an amount that is withdrawn but not escrowed, and what the escrow has given for a
packet that is refused behind it. -/
def ActionStep.burned (step : ActionStep) : Option (IbcPrefixed × ℕ) :=
  match step.action with
  | .ics20Withdrawal act =>
    if isSource transferPort act.sourceChannel act.denom then none
    else some (act.denom.toIbcPrefixed, act.amount)
  | .ibc (.recvPacket packet _) =>
    (step.before.packetTransfer FungibleTokenPacketData.receiver packet).bind fun t =>
      if isTransferSourceZone t.denom packet.portOnA packet.chanOnA = true ∧
          ¬step.before.CanReceive packet t ∧ step.before.DepositGiven packet t ∧
          step.before.EscrowCovers packet t then
        some ((receivedAsset t.denom packet).toIbcPrefixed, t.amount)
      else none
  | _ => none

/-! ## One step -/

/-- What an effect credits of an asset, to accounts or to escrows. -/
def Effect.credits (e : Effect) (asset : IbcPrefixed) : ℕ :=
  Ledger.amountOf asset e.accounts.credit + Ledger.amountOf asset e.escrow.credit

/-- What an effect debits of an asset. -/
def Effect.debits (e : Effect) (asset : IbcPrefixed) : ℕ :=
  Ledger.amountOf asset e.accounts.debit + Ledger.amountOf asset e.escrow.debit

/-- The supply with the fees that are recorded in a block. -/
noncomputable def Base.supplyWithFees (s : Base) (asset : IbcPrefixed) : ℕ :=
  s.totalWithFees asset + Ledger.held s.ibcChannelBalance asset

/-- What two lists of steps mint and burn adds up. -/
theorem amountIn_append_steps {steps steps' : List ActionStep} {x y z : ℕ} {asset : IbcPrefixed}
    (h : y + Ledger.amountIn asset (steps.filterMap ActionStep.burned) =
      x + Ledger.amountIn asset (steps.filterMap ActionStep.minted))
    (h' : z + Ledger.amountIn asset (steps'.filterMap ActionStep.burned) =
      y + Ledger.amountIn asset (steps'.filterMap ActionStep.minted)) :
    z + Ledger.amountIn asset ((steps ++ steps').filterMap ActionStep.burned) =
      x + Ledger.amountIn asset ((steps ++ steps').filterMap ActionStep.minted) := by
  rw [List.filterMap_append, List.filterMap_append, Ledger.amountIn_append, Ledger.amountIn_append]
  omega

/-- The supply changes by what the steps mint and burn. -/
def Base.Accounts (steps : List ActionStep) (s s' : Base) : Prop :=
  Ledger.FinitelyHeld s.ibcChannelBalance → Ledger.FinitelyHeld s'.ibcChannelBalance ∧
    ∀ asset, s'.supplyWithFees asset + Ledger.amountIn asset (steps.filterMap ActionStep.burned) =
      s.supplyWithFees asset + Ledger.amountIn asset (steps.filterMap ActionStep.minted)

namespace Base.Accounts

/-- Without a step the supply stays the same. -/
theorem of_eq {s s' : Base} (htotal : ∀ asset, s'.totalWithFees asset = s.totalWithFees asset)
    (hescrow : s'.ibcChannelBalance = s.ibcChannelBalance) : Base.Accounts [] s s' := by
  intro hfin
  unfold Base.supplyWithFees
  rw [hescrow]
  exact ⟨hfin, fun asset => by rw [htotal]; rfl⟩

theorem trans {steps steps' : List ActionStep} {s t u : Base} (h : Base.Accounts steps s t)
    (h' : Base.Accounts steps' t u) : Base.Accounts (steps ++ steps') s u := by
  intro hfin
  obtain ⟨ht, htotal⟩ := h hfin
  obtain ⟨hu, htotal'⟩ := h' ht
  exact ⟨hu, fun asset => amountIn_append_steps (htotal asset) (htotal' asset)⟩

end Base.Accounts

/-- Outside of IBC a step credits what it debits, and touches no escrow. -/
theorem Action.effect_cancels {act : Action} (hact : Action.isIbc act = false) (s : Base)
    (c : TransactionContext) (asset : IbcPrefixed) :
    (Action.effect s c act).credits asset = (Action.effect s c act).debits asset := by
  cases act with
  | bridgeUnlock act =>
    simp only [Action.effect]
    cases s.bridge.ibcAsset act.bridgeAddress.bytes <;> rfl
  | bridgeTransfer act =>
    simp only [Action.effect]
    cases s.bridge.ibcAsset act.bridgeAddress.bytes <;> rfl
  | ibc msg => cases hact
  | ics20Withdrawal act => cases hact
  | _ => rfl

/-- A refund credits what the escrow gives, or what it mints. -/
theorem Base.refundEffect_credits (s : Base) (packet : Packet) (asset : IbcPrefixed) :
    (s.refundEffect packet).credits asset =
      (s.refundEffect packet).debits asset + Ledger.amountIn asset (s.refundMinted packet).toList := by
  unfold Base.refundEffect Base.refundMinted
  cases s.packetTransfer FungibleTokenPacketData.sender packet with
  | none => rfl
  | some t =>
    cases hsource : isRefundSourceZone t.denom packet.portOnA packet.chanOnA <;>
      simp [Effect.credits, Effect.debits, refundRelease, hsource, Ledger.amountOf, Ledger.amountIn]

/-- A packet that is received credits what the escrow gives, or what it mints; one that is refused may burn
what the escrow has given. -/
theorem receivedPacket_credits (step : ActionStep) {packet : Packet} {proof : Bytes}
    (haction : step.action = .ibc (.recvPacket packet proof)) (asset : IbcPrefixed) :
    let e := IbcRelay.effect step.before (.recvPacket packet proof)
    e.credits asset + Ledger.amountIn asset step.burned.toList =
      e.debits asset + Ledger.amountIn asset step.minted.toList := by
  unfold ActionStep.burned ActionStep.minted
  rw [haction]
  simp only [IbcRelay.effect]
  cases step.before.packetTransfer FungibleTokenPacketData.receiver packet with
  | none => rfl
  | some t =>
    dsimp only [Option.bind_some]
    by_cases hcan : step.before.CanReceive packet t
    · cases hzone : isTransferSourceZone t.denom packet.portOnA packet.chanOnA <;>
        simp [hcan, Base.receivedEffect, receivedRelease, hzone, Effect.credits, Effect.debits,
          Ledger.amountOf, Ledger.amountIn]
    · cases hzone : isTransferSourceZone t.denom packet.portOnA packet.chanOnA <;>
        by_cases hgoes : step.before.DepositGiven packet t ∧ step.before.EscrowCovers packet t <;>
          simp [hcan, hgoes, Base.refusedEffect, receivedRelease, hzone, Effect.credits, Effect.debits,
            Ledger.amountOf, Ledger.amountIn]

/-- The entries of a step that do not cancel out are what it mints and burns. -/
theorem ActionStep.credits_add_burned (step : ActionStep) (asset : IbcPrefixed) :
    let e := Action.effect step.before step.context step.action
    e.credits asset + Ledger.amountIn asset step.burned.toList =
      e.debits asset + Ledger.amountIn asset step.minted.toList := by
  intro e
  cases hibc : Action.isIbc step.action with
  | false =>
    have hcancels : e.credits asset = e.debits asset := Action.effect_cancels hibc _ _ asset
    have hnone : step.burned = none ∧ step.minted = none := by
      unfold ActionStep.burned ActionStep.minted
      cases haction : step.action with
      | ibc msg =>
        rw [haction] at hibc
        cases hibc
      | ics20Withdrawal act =>
        rw [haction] at hibc
        cases hibc
      | _ => exact ⟨rfl, rfl⟩
    rw [hcancels, hnone.1, hnone.2]
  | true =>
    have he : e = Action.effect step.before step.context step.action := rfl
    cases haction : step.action with
    | ics20Withdrawal act =>
      rw [haction] at he
      unfold ActionStep.burned ActionStep.minted
      rw [he, haction]
      cases hsource : isSource transferPort act.sourceChannel act.denom <;>
        simp [Action.effect, Ics20Withdrawal.effect, Ics20Withdrawal.escrowPosting, hsource,
          Effect.credits, Effect.debits, Ledger.amountOf, Ledger.amountIn]
    | ibc msg =>
      rw [haction] at he
      cases msg with
      | recvPacket packet proof => exact he ▸ receivedPacket_credits step haction asset
      | acknowledgement packet bytes proof =>
        unfold ActionStep.burned ActionStep.minted
        rw [he, haction]
        simp only [Action.effect, IbcRelay.effect]
        cases ext.parseAcknowledgement bytes with
        | none => rfl
        | some ack =>
          cases ack with
          | success => rfl
          | error message => exact step.before.refundEffect_credits packet asset
      | timeout packet proof =>
        unfold ActionStep.burned ActionStep.minted
        rw [he, haction]
        exact step.before.refundEffect_credits packet asset
      | channel handshake message =>
        unfold ActionStep.burned ActionStep.minted
        rw [he, haction]
        rfl
      | other message =>
        unfold ActionStep.burned ActionStep.minted
        rw [he, haction]
        rfl
    | _ =>
      rw [haction] at hibc
      cases hibc

/-- A step changes the supply by what it mints and burns. -/
theorem ActionStep.Genuine.accounts {step : ActionStep} (h : step.Genuine) :
    Base.Accounts [step] step.before step.after := by
  intro hfin
  have hdoes := h.does
  refine ⟨hdoes.escrow ▸ hfin.post hdoes.escrowFits, fun asset => ?_⟩
  have hcancel := step.credits_add_burned asset
  have haccounts := Ledger.total_post hdoes.fits asset
  have hescrow := Ledger.held_post hfin hdoes.escrowFits asset
  have hburned : Ledger.amountIn asset ([step].filterMap ActionStep.burned) =
      Ledger.amountIn asset step.burned.toList := by
    cases hb : step.burned <;> simp [hb]
  have hminted : Ledger.amountIn asset ([step].filterMap ActionStep.minted) =
      Ledger.amountIn asset step.minted.toList := by
    cases hm : step.minted <;> simp [hm]
  unfold Base.supplyWithFees Base.totalWithFees Base.totalBalance Base.recordedFees Base.blockFeeAmounts
  rw [hburned, hminted, hdoes.balance, hdoes.escrow, hdoes.blockFees]
  unfold Effect.credits Effect.debits at hcancel
  omega

/-! ## Blocks -/

/-- The actions of a transaction change the supply by their steps; the fees stay in it. -/
theorem actionSteps_accounts {source : AddressBytes} {id : TransactionId} {acts : List Action}
    {position : ℕ} {s s' : State} {u : Unit} (hs : s.base.Sound)
    (hstateless : ∀ act ∈ acts, Action.checkStateless act = .ok ())
    (h : executeActions source id acts position s = .ok u s') :
    Base.Accounts (actionSteps source id acts position s) s.base s'.base := by
  induction acts generalizing position s with
  | nil =>
    rw [executeActions, pure_eq_ok] at h
    obtain ⟨-, rfl⟩ := h
    exact .of_eq (fun _ => rfl) rfl
  | cons act rest ih =>
    obtain ⟨r, hact, hrest⟩ := executeActions_cons_ok.mp h
    let c : TransactionContext :=
      { addressBytes := source, transactionId := id, positionInTransaction := position }
    have hcontext : (s.withContext c).base.Sound := hs.of_holdings ⟨rfl, rfl, rfl, rfl⟩
    obtain ⟨t, hexec, hpays, -⟩ := executeAction_ok rfl hact
    have hr : r.base.Sound := executeAction_sound rfl hcontext hact
    have hgenuine : ActionStep.Genuine
        { action := act, context := c, before := (s.withContext c).base, after := t.base } :=
      ⟨hstateless act List.mem_cons_self, hcontext, rfl, _, _, rfl, rfl, hexec⟩
    have hput : Base.Accounts [] s.base (s.withContext c).base := .of_eq (fun _ => rfl) rfl
    have hfee : Base.Accounts [] t.base r.base := .of_eq hpays.conserves.total hpays.escrow
    have hsteps := ih hr (fun a ha => hstateless a (List.mem_cons_of_mem _ ha)) hrest
    simp only [actionSteps, hexec, hact]
    exact ((hput.trans hgenuine.accounts).trans hfee).trans hsteps

section

variable [TransactionCodec]

/-- A transaction changes the supply by its steps; one that fails does not change it. -/
theorem transactionSteps_accounts (tx : Transaction) {s : State} (hs : s.base.Sound) :
    Base.Accounts (transactionSteps tx s) s.base (executeTransaction tx s).2.base := by
  cases h : executeTransaction tx s with
  | mk result s' =>
    cases result with
    | error e =>
      obtain rfl := executeTransaction_error h
      unfold transactionSteps
      rw [h]
      exact .of_eq (fun _ => rfl) rfl
    | ok events =>
      obtain ⟨hless, b, r, hb, hacts, rfl⟩ := executeTransaction_parts h
      have hprepared := (prepareTransaction_keeps tx).of_ok hb
      have hsound : b.Sound := hs.of_holdings
        ⟨hprepared.balance, hprepared.bridge, hprepared.assets, hprepared.escrow⟩
      have hstateless := Transaction.checkStateless_ok hless
      have hstart : Base.Accounts [] s.base b :=
        .of_eq (Base.Conserves.of_eq hprepared.balance hprepared.blockFees).total hprepared.escrow
      have hend : Base.Accounts [] r.base
          { r.base.deleteCurrentTransactionContext with ephemeral.events := s.events } :=
        .of_eq (fun _ => rfl) rfl
      simp only [transactionSteps, h, hb]
      have hall := (hstart.trans (actionSteps_accounts hsound hstateless hacts)).trans hend
      rw [List.nil_append, List.append_nil] at hall
      exact hall

/-- The transactions of a block change the supply by their steps. -/
theorem blockSteps_accounts (txs : List Transaction) {s : State} (hs : s.base.Sound) :
    Base.Accounts (blockSteps txs s) s.base (finalizeTransactions txs s).2.base := by
  induction txs generalizing s with
  | nil => exact .of_eq (fun _ => rfl) rfl
  | cons tx rest ih =>
    obtain ⟨-, -, hsound⟩ := transactionSteps_spec tx hs
    have hfirst := transactionSteps_accounts tx hs
    rw [← finalizeTransaction_snd] at hsound hfirst
    exact hfirst.trans (ih hsound)

section

variable [UpgradeCodec] [BlockCodec] {handler : UpgradesHandler} {appHash : Bytes32} {block : Block}

/-- A block that is executed without recorded fees pays those that it records, so that the supply changes by
its steps. -/
theorem executeBlock_supply {s s' : State} (hs : s.base.Sound) (hfees : s.base.ephemeral.blockFees = [])
    (h : executeBlock handler appHash block s = .ok () s')
    (hfin : Ledger.FinitelyHeld s.base.ibcChannelBalance) :
    Ledger.FinitelyHeld s'.base.ibcChannelBalance ∧ ∀ asset, s'.base.supply asset +
        Ledger.amountIn asset ((block.steps handler appHash s).filterMap ActionStep.burned) =
      s.base.supply asset +
        Ledger.amountIn asset ((block.steps handler appHash s).filterMap ActionStep.minted) := by
  obtain ⟨hashes, t, hpre, hpost⟩ := executeBlock_ok h
  have hsame : s.base.SameFunds t.base :=
    (preExecuteTransactions_sameFunds handler.upgrades appHash block.data).of_ok hpre
  have hstart : Base.Accounts [] s.base t.base :=
    .of_eq (Base.Conserves.of_eq hsame.balance hsame.blockFees).total hsame.ibcChannelBalance
  have hrun := hstart.trans (blockSteps_accounts block.expanded.userSubmittedTransactions
    (hs.of_holdings hsame.holdings))
  have hsteps : block.steps handler appHash s =
      blockSteps block.expanded.userSubmittedTransactions t := by
    unfold Block.steps
    rw [hpre]
    rfl
  rw [List.nil_append, ← hsteps] at hrun
  obtain ⟨hheld, htotal⟩ := hrun hfin
  obtain ⟨recipient, -, hpays⟩ := postExecuteTransactions_pays hpost
  refine ⟨hpays.escrow ▸ hheld, fun asset => ?_⟩
  have hpaid : s'.base.supply asset = Base.supplyWithFees
      (finalizeTransactions block.expanded.userSubmittedTransactions t).2.base asset := by
    unfold Base.supply Base.totalBalance
    rw [hpays.balance, hpays.escrow, Ledger.total_creditAll]
    rfl
  have hunpaid : s.base.supplyWithFees asset = s.base.supply asset := by
    have hnone : s.base.recordedFees asset = 0 := by
      unfold Base.recordedFees Base.blockFeeAmounts
      rw [hfees]
      rfl
    unfold Base.supplyWithFees Base.totalWithFees Base.supply
    rw [hnone, Nat.add_zero]
  rw [hpaid, htotal asset, hunpaid]

/-! ## Chains -/

/-- No channel has an escrow at the genesis. -/
def Base.SameEscrow (s s' : Base) : Prop := s'.ibcChannelBalance = s.ibcChannelBalance

instance : IsPreorder Base Base.SameEscrow where
  refl _ := rfl
  trans _ _ _ h h' := h'.trans h

omit [TransactionCodec] [UpgradeCodec] [BlockCodec] in
theorem initChain_sameEscrow {genesis : GenesisAppState} {validators : List ValidatorUpdate}
    {chainId : String} {b : Base} (h : initChain genesis validators chainId Base.empty = .ok () b) :
    b.ibcChannelBalance = fun _ _ => 0 := by
  have hwrites : GenesisWrites Base.SameEscrow := by
    constructor <;> intros <;> rfl
  exact (initChain_keeps hwrites genesis validators chainId).of_ok h

omit [UpgradeCodec] [BlockCodec] in
/-- The fees of a block are gone when it is committed. -/
theorem ChainRun.blockFees [UpgradeCodec] [BlockCodec] {b : Base} {steps : List ActionStep} {s : State}
    (h : ChainRun handler b steps s) : s.base.ephemeral.blockFees = [] := by
  cases h <;> rfl

/-- The supply of every asset is that of the genesis with what genuine steps have minted and burned. -/
structure Supplied (genesis : Base) (steps : List ActionStep) (s : Base) : Prop where
  genuine : ∀ step ∈ steps, step.Genuine
  finitelyHeld : Ledger.FinitelyHeld s.ibcChannelBalance
  supply : ∀ asset, s.supply asset + Ledger.amountIn asset (steps.filterMap ActionStep.burned) =
    genesis.totalBalance asset + Ledger.amountIn asset (steps.filterMap ActionStep.minted)

namespace Supplied

variable {b : Base} {steps : List ActionStep} {s s' : State}

omit [TransactionCodec] [UpgradeCodec] [BlockCodec] in
theorem genesis {g : GenesisAppState} {validators : List ValidatorUpdate} {chainId : String}
    (h : initChain g validators chainId Base.empty = .ok () b) : Supplied b [] b := by
  have hescrow := initChain_sameEscrow h
  refine ⟨fun step hstep => (List.not_mem_nil hstep).elim, ?_, fun asset => ?_⟩
  · rw [hescrow]
    exact Ledger.finitelyHeld_zero
  · unfold Base.supply
    rw [hescrow, Ledger.held_zero, List.filterMap_nil, List.filterMap_nil, Nat.add_zero]

omit [TransactionCodec] [UpgradeCodec] [BlockCodec] in
theorem of_holdings {c c' : Base} (h : Supplied b steps c) (hsame : c.SameHoldings c') :
    Supplied b steps c' := by
  refine ⟨h.genuine, hsame.escrow ▸ h.finitelyHeld, fun asset => ?_⟩
  rw [← h.supply asset]
  unfold Base.supply Base.totalBalance
  rw [hsame.balance, hsame.escrow]

theorem executeBlock (h : Supplied b steps s.base) (hs : s.base.Sound)
    (hfees : s.base.ephemeral.blockFees = [])
    (hok : executeBlock handler appHash block s = .ok () s') :
    Supplied b (steps ++ block.steps handler appHash s) s'.base := by
  obtain ⟨hfin, htotal⟩ := executeBlock_supply hs hfees hok h.finitelyHeld
  refine ⟨fun step hstep => ?_, hfin, fun asset => amountIn_append_steps (h.supply asset) (htotal asset)⟩
  rcases List.mem_append.mp hstep with hmem | hmem
  · exact h.genuine step hmem
  · obtain ⟨hashes, t, hpre, -⟩ := executeBlock_ok hok
    have hsame : s.base.SameFunds t.base :=
      (preExecuteTransactions_sameFunds handler.upgrades appHash block.data).of_ok hpre
    unfold Block.steps at hmem
    rw [hpre] at hmem
    exact ((blockSteps_spec _ (hs.of_holdings hsame.holdings)).1 step hmem).1

theorem executes (h : Supplied b steps s.base) (hs : s.base.Sound)
    (hfees : s.base.ephemeral.blockFees = []) (hexec : Executes handler appHash block s s') :
    Supplied b (steps ++ block.steps handler appHash s) s'.base := by
  obtain ⟨t, hok, rfl | ⟨results, rfl⟩⟩ := hexec
  · exact h.executeBlock hs hfees hok
  · exact (h.executeBlock hs hfees hok).of_holdings ⟨rfl, rfl, rfl, rfl⟩

end Supplied

omit [TransactionCodec] [UpgradeCodec] [BlockCodec] in
/-- Only vouchers are minted, assets that have come over a channel: the amounts of all others are at most
moved between the accounts and the escrows. -/
theorem minted_voucher {step : ActionStep} {asset : IbcPrefixed} {amount : ℕ}
    (h : step.minted = some (asset, amount)) :
    ∃ voucher : TracePrefixed, voucher.trace ≠ [] ∧ voucher.toIbcPrefixed = asset := by
  have hrefund {packet : Packet} (h : step.before.refundMinted packet = some (asset, amount)) :
      ∃ voucher : TracePrefixed, voucher.trace ≠ [] ∧ voucher.toIbcPrefixed = asset := by
    unfold Base.refundMinted at h
    obtain ⟨t, -, hminted⟩ := Option.bind_eq_some_iff.mp h
    split_ifs at hminted with hsource
    obtain ⟨hasset, -⟩ := Prod.mk.inj (Option.some.inj hminted)
    refine ⟨t.denom, fun hnil => hsource ?_, hasset⟩
    unfold isRefundSourceZone isTransferSourceZone TracePrefixed.hasLeadingPort
    rw [hnil]
    rfl
  unfold ActionStep.minted at h
  cases haction : step.action with
  | ibc msg =>
    rw [haction] at h
    cases msg with
    | recvPacket packet proof =>
      obtain ⟨t, -, hminted⟩ := Option.bind_eq_some_iff.mp h
      split_ifs at hminted with hreceives
      obtain ⟨hasset, -⟩ := Prod.mk.inj (Option.some.inj hminted)
      refine ⟨receivedAsset t.denom packet, ?_, hasset⟩
      unfold receivedAsset
      rw [if_neg (by rw [hreceives.1]; exact Bool.false_ne_true)]
      exact List.cons_ne_nil _ _
    | acknowledgement packet bytes proof =>
      dsimp only at h
      rcases hack : ext.parseAcknowledgement bytes with _ | _ | message
      · rw [hack] at h
        cases h
      · rw [hack] at h
        cases h
      · rw [hack] at h
        exact hrefund h
    | timeout packet proof => exact hrefund h
    | channel handshake message => cases h
    | other message => cases h
  | _ =>
    rw [haction] at h
    cases h

/-- The supply after a chain of blocks is accounted for by its steps. -/
theorem ChainRun.supplied {genesis : GenesisAppState} {validators : List ValidatorUpdate} {chainId : String}
    {b : Base} (hgenesis : initChain genesis validators chainId Base.empty = .ok () b)
    {steps : List ActionStep} {s : State} (h : ChainRun handler b steps s) : Supplied b steps s.base := by
  have hsound {steps : List ActionStep} {s : State} (h : ChainRun handler b steps s) : s.base.Sound := by
    obtain ⟨l, hl⟩ := h.run hgenesis
    exact ⟨hl.wellConfigured, hl.inRange, hl.named⟩
  have hcommit (s : State) (height version : ℕ) :
      s.base.SameHoldings (s.putStorageVersionByHeight height version).commit.base :=
    ⟨rfl, rfl, rfl, rfl⟩
  induction h with
  | genesis height version => exact (Supplied.genesis hgenesis).of_holdings ⟨rfl, rfl, rfl, rfl⟩
  | executed height version hrun _ hprices hexec ih =>
    have hsame := hprices.base_eq
    rw [← hsame] at ih
    exact (ih.executes (hsame ▸ hsound hrun) (hsame ▸ hrun.blockFees) hexec).of_holdings (hcommit _ _ _)
  | proposed height version hrun _ hexec hprices ih =>
    have hexecuted := ih.executes (hsound hrun) hrun.blockFees hexec
    rw [← hprices.base_eq] at hexecuted
    exact hexecuted.of_holdings (hcommit _ _ _)

omit [TransactionCodec] [UpgradeCodec] [BlockCodec] in
/-- The supply of an asset that is no voucher does not grow. -/
theorem Supplied.le_genesis {b c : Base} {steps : List ActionStep} (h : Supplied b steps c)
    {asset : IbcPrefixed}
    (hnative : ∀ voucher : TracePrefixed, voucher.toIbcPrefixed = asset → voucher.trace = []) :
    c.supply asset ≤ b.totalBalance asset := by
  have hminted : Ledger.amountIn asset (steps.filterMap ActionStep.minted) = 0 := by
    refine Ledger.amountIn_eq_zero fun m hm hasset => ?_
    obtain ⟨step, -, hstep⟩ := List.mem_filterMap.mp hm
    obtain ⟨voucher, htrace, hvoucher⟩ := minted_voucher hstep
    exact htrace (hnative voucher (hvoucher.trans hasset))
  have htotal := h.supply asset
  omega

/-- What a node holds of an asset, on the accounts and in the escrows of its channels, is what the genesis
held with what the steps of its blocks have minted and burned; only vouchers are minted. -/
theorem NodeRun.supply [RootHash] [VoteCrypto] {genesis : InitChain} {parkedMaxTxCount : ℕ}
    {requests : List (Request parkedMaxTxCount)} {node : Node} (hlaws : DataItem.Laws)
    (hlater : handler.EnablesLater) (h : NodeRun handler genesis requests node) :
    ∃ b steps, Sequencer.initChain genesis.genesisState genesis.validators genesis.chainId Base.empty =
        .ok () b ∧
      ChainRun handler b steps node.storage.latestSnapshot ∧
      Supplied b steps node.storage.latestSnapshot.base ∧
      ∀ asset, (∀ voucher : TracePrefixed, voucher.toIbcPrefixed = asset → voucher.trace = []) →
        node.storage.latestSnapshot.base.supply asset ≤ b.totalBalance asset := by
  obtain ⟨b, hb, steps, hchain⟩ := h.chainRun hlaws hlater
  have hsupplied := hchain.supplied hb
  exact ⟨b, steps, hb, hchain, hsupplied, fun asset => hsupplied.le_genesis⟩

end

end

end

section

open TestUtils TestProposal TestNode

namespace TestSupply

/-- A packet from another chain, with an amount for alice. -/
def packet : Packet where
  sequence := 1
  portOnA := transferPort
  chanOnA := "channel-7"
  portOnB := transferPort
  chanOnB := "channel-0"
  data := serializePacketData
    { denom := "uatom"
      amount := "7"
      sender := "cosmos1sender"
      receiver := "astria1rsxyjrcm255ds9euthjx6yc3vrjt9sxrm9cfgm"
      memo := "" }
  timeoutHeight := ⟨0, 0⟩
  timeoutTime := 0

/-- The voucher of the asset of the packet. -/
def voucher : TracePrefixed := receivedAsset { trace := [], baseDenom := "uatom" } packet

/-- Carol relays the packet. -/
def relay : Transaction := signedTransaction carolKey 0 (.ibc (.recvPacket packet []))

/-- Of the transactions that of carol is read. -/
scoped instance : BlockCodec :=
  { (inferInstance : BlockCodec) with
    decodeTransaction := fun bytes => if bytes = encodeTransaction relay then some relay else none }

set_option maxRecDepth 10000 in
theorem laws : DataItem.Laws := by
  obtain ⟨hroots, hdecodes, -⟩ := TestNode.laws
  refine ⟨hroots, hdecodes, fun tx hashes htx hitem => ?_⟩
  have hencoded : encodeTransaction tx = encodeTransaction relay := by
    by_contra hne
    have hnone : BlockCodec.decodeTransaction (encodeTransaction tx) = none := if_neg hne
    cases hnone.symm.trans htx
  have hfails : (DataItem.decode 2 (encodeTransaction relay)).isOk = false := by decide +kernel
  have hdecode : DataItem.decode 2 (encodeTransaction relay) = .ok (.upgradeChangeHashes hashes) :=
    hencoded ▸ hitem
  rw [hdecode] at hfails
  cases hfails

/-- The decided block holds carol's transaction. -/
def relayBlock : FinalizeBlock where
  hash := some (List.Vector.replicate 32 1)
  txs := (generateRollupDatasCommitment [relay] []).items false ++ [encodeTransaction relay]
  blockData := TestProposal.request.blockData

/-- The node that has committed it. -/
def relayed : Node :=
  (started.handle withoutUpgrades (.finalizeBlock relayBlock : Request 10)).handle withoutUpgrades
    (.commit : Request 10)

set_option maxRecDepth 10000 in
theorem relayed_run :
    NodeRun withoutUpgrades genesisRequest [.finalizeBlock relayBlock, (.commit : Request 10)] relayed := by
  have hlegal : relayBlock.blockData.height = started.storage.nextHeight := by decide +kernel
  have hfinalized := NodeRun.handle (.finalizeBlock relayBlock) started_run hlegal
  exact NodeRun.handle .commit hfinalized trivial

set_option maxRecDepth 10000 in
/-- The voucher was minted, and the supply is accounted for. -/
theorem supply_relayed :
    relayed.storage.latestSnapshot.base.balance aliceAddress.bytes voucher.toIbcPrefixed = 7 ∧
      ∃ b steps, Sequencer.initChain genesisRequest.genesisState genesisRequest.validators
          genesisRequest.chainId Base.empty = .ok () b ∧
        ChainRun withoutUpgrades b steps relayed.storage.latestSnapshot ∧
        Supplied b steps relayed.storage.latestSnapshot.base ∧
        ∀ asset, (∀ voucher : TracePrefixed, voucher.toIbcPrefixed = asset → voucher.trace = []) →
          relayed.storage.latestSnapshot.base.supply asset ≤ b.totalBalance asset :=
  ⟨by decide +kernel, relayed_run.supply laws enablesLater⟩

end TestSupply

end

end Astria.Sequencer
