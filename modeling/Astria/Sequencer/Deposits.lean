import Astria.Sequencer.Run

/-!
# Deposits

A deposit tells a rollup to mint.  It is backed if the action that cached it has credited the bridge
account with the amount, and has taken the amount elsewhere: from another account, from the escrow of
a channel, or as a voucher of a channel.

Results:
* `executeBlock_deposits`: the deposits of a block are those of the actions of its successful
  transactions, at most one each;
* `ActionStep.backs_iff`: the deposit of an action is backed exactly if the action is applied: a bridge
  transfer does not go from an account to itself, and a received packet that comes with a deposit is
  not refused;
* `deposits_backed_iff`: so are the deposits of a whole block.
-/

namespace Astria.Sequencer

open Astria.Core Astria.Lib Exec

section

variable [ext : External]

/-! ## Steps -/

/-- The handler of an action, run on `before` and leaving `after`. -/
structure ActionStep where
  action : Action
  context : TransactionContext
  before : Base
  after : Base

omit ext in
/-- The deposits that a step has cached. -/
def ActionStep.deposits (step : ActionStep) : List Deposit :=
  step.after.ephemeral.deposits.drop step.before.ephemeral.deposits.length

/-- What the states of a run keep. -/
structure Base.Sound (s : Base) : Prop where
  wellConfigured : s.WellConfigured
  inRange : s.InRange
  named : s.assets.Named

theorem Base.Sound.of_holdings {s s' : Base} (hs : s.Sound) (h : s.SameHoldings s') : s'.Sound :=
  ⟨hs.wellConfigured.of_bridge h.bridge, hs.inRange.of_balance h.balance, h.assets ▸ hs.named⟩

theorem executeAction_named {source : AddressBytes} {act : Action} {s s' : State} {u : Unit}
    (hs : s.base.assets.Named) (h : executeAction source act s = .ok u s') :
    s'.base.assets.Named := by
  refine executeAction_keeps fundsWrites_keepsNamed transactionWrites_keepsNamed
    (fun t hexec => ?_) h hs
  exact Action.checkAndExecute_keepsAll adminWrites_keepsNamed fundsWrites_keepsNamed
    configWrites_keepsNamed hexec

theorem executeAction_sound {source : AddressBytes} {act : Action} {s s' : State} {u : Unit}
    {c : TransactionContext} (hc : s.base.ephemeral.transactionContext = some c)
    (hs : s.base.Sound) (h : executeAction source act s = .ok u s') : s'.base.Sound :=
  ⟨executeAction_wellConfigured hc hs.wellConfigured h, executeAction_inRange hc hs.inRange h,
    executeAction_named hs.named h⟩

/-- A step of a transaction: the action passes its stateless checks, and its handler succeeds under
its own context on a state of the run. -/
structure ActionStep.Genuine (step : ActionStep) : Prop where
  stateless : Action.checkStateless step.action = .ok ()
  sound : step.before.Sound
  context : step.before.ephemeral.transactionContext = some step.context
  executes : ∃ s t : State, s.base = step.before ∧ t.base = step.after ∧
    Action.checkAndExecute step.action s = .ok () t

/-- The steps of a list of actions. -/
def actionSteps (source : AddressBytes) (id : TransactionId) :
    List Action → ℕ → State → List ActionStep
  | [], _, _ => []
  | act :: rest, position, s =>
    let c : TransactionContext :=
      { addressBytes := source, transactionId := id, positionInTransaction := position }
    match Action.checkAndExecute act (s.withContext c), executeAction source act (s.withContext c) with
    | .ok _ t, .ok _ r =>
      { action := act, context := c, before := (s.withContext c).base, after := t.base } ::
        actionSteps source id rest (position + 1) r
    | _, _ => []

theorem checkActionsStateless_ok {acts : List Action} (h : checkActionsStateless acts = .ok ()) :
    ∀ act ∈ acts, Action.checkStateless act = .ok () := by
  induction acts with
  | nil => simp
  | cons act rest ih =>
    rw [checkActionsStateless] at h
    cases hact : Action.checkStateless act with
    | error e =>
      rw [hact] at h
      cases h
    | ok u =>
      rw [hact] at h
      intro a ha
      rcases List.mem_cons.mp ha with rfl | hrest
      · exact hact
      · exact ih h a hrest

theorem Transaction.checkStateless_ok {tx : Transaction} (h : Transaction.checkStateless tx = .ok ()) :
    ∀ act ∈ tx.actions.inner, Action.checkStateless act = .ok () := by
  refine checkActionsStateless_ok ?_
  unfold Transaction.checkStateless at h
  rwa [if_neg tx.actions.nonempty] at h

/-- The steps of the actions of a transaction are genuine, and the deposits are theirs. -/
theorem actionSteps_spec {source : AddressBytes} {id : TransactionId} {acts : List Action}
    {position : ℕ} {s s' : State} {u : Unit} (hs : s.base.Sound)
    (hstateless : ∀ act ∈ acts, Action.checkStateless act = .ok ())
    (h : executeActions source id acts position s = .ok u s') :
    (∀ step ∈ actionSteps source id acts position s, step.Genuine ∧ step.deposits.length ≤ 1) ∧
      s'.base.ephemeral.deposits = s.base.ephemeral.deposits ++
        (actionSteps source id acts position s).flatMap ActionStep.deposits ∧ s'.base.Sound := by
  induction acts generalizing position s with
  | nil =>
    rw [executeActions, pure_eq_ok] at h
    obtain ⟨-, rfl⟩ := h
    exact ⟨by simp [actionSteps], by simp [actionSteps], hs⟩
  | cons act rest ih =>
    obtain ⟨r, hact, hrest⟩ := executeActions_cons_ok.mp h
    let c : TransactionContext :=
      { addressBytes := source, transactionId := id, positionInTransaction := position }
    have hcontext : (s.withContext c).base.Sound := hs.of_holdings ⟨rfl, rfl, rfl, rfl⟩
    obtain ⟨t, hexec, hpays, -⟩ := executeAction_ok rfl hact
    have hdoes := Action.checkAndExecute_does rfl hexec
    have hr : r.base.Sound := executeAction_sound rfl hcontext hact
    obtain ⟨hsteps, hdeposits, hs'⟩ :=
      ih hr (fun a ha => hstateless a (List.mem_cons_of_mem _ ha)) hrest
    simp only [actionSteps, hexec, hact]
    refine ⟨?_, ?_, hs'⟩
    · intro step hstep
      rcases List.mem_cons.mp hstep with rfl | hmem
      · refine ⟨⟨hstateless act List.mem_cons_self, hcontext, rfl, _, _, rfl, rfl, hexec⟩, ?_⟩
        unfold ActionStep.deposits
        rw [hdoes.deposits, List.drop_left]
        exact Option.length_toList_le
      · exact hsteps step hmem
    · rw [hdeposits, List.flatMap_cons, ← List.append_assoc]
      congr 1
      unfold ActionStep.deposits
      rw [hpays.deposits, hdoes.deposits, List.drop_left]
      rfl

section

variable [TransactionCodec]

/-- The steps of a transaction: none if it fails. -/
def transactionSteps (tx : Transaction) (s : State) : List ActionStep :=
  match executeTransaction tx s, prepareTransaction tx (s.withEvents []).base with
  | (.ok _, _), .ok _ b =>
    actionSteps (signer tx) (transactionId tx) tx.actions.inner 0 { base := b, oracle := s.oracle }
  | _, _ => []

/-- The steps of the transactions of a finalized block. -/
def blockSteps : List Transaction → State → List ActionStep
  | [], _ => []
  | tx :: rest, s => transactionSteps tx s ++ blockSteps rest (finalizeTransaction tx s).2

/-- The deposits of a transaction are those of its steps; one that fails leaves none. -/
theorem transactionSteps_spec (tx : Transaction) {s : State} (hs : s.base.Sound) :
    (∀ step ∈ transactionSteps tx s, step.Genuine ∧ step.deposits.length ≤ 1) ∧
      (executeTransaction tx s).2.base.ephemeral.deposits = s.base.ephemeral.deposits ++
        (transactionSteps tx s).flatMap ActionStep.deposits ∧
      (executeTransaction tx s).2.base.Sound := by
  cases h : executeTransaction tx s with
  | mk result s' =>
    cases result with
    | error e =>
      obtain rfl := executeTransaction_error h
      simp [transactionSteps, h, hs]
    | ok events =>
      obtain ⟨hless, b, r, hb, hacts, rfl⟩ := executeTransaction_parts h
      have hprepared := (prepareTransaction_keeps tx).of_ok hb
      have hsound : b.Sound := hs.of_holdings
        ⟨hprepared.balance, hprepared.bridge, hprepared.assets, hprepared.escrow⟩
      have hstateless := Transaction.checkStateless_ok hless
      obtain ⟨hsteps, hdeposits, hr⟩ := actionSteps_spec hsound hstateless hacts
      simp only [transactionSteps, h, hb]
      refine ⟨hsteps, ?_, hr.of_holdings ⟨rfl, rfl, rfl, rfl⟩⟩
      exact hdeposits.trans (congrArg (· ++ _) hprepared.deposits)

/-- The deposits of the transactions of a block are those of their steps. -/
theorem blockSteps_spec (txs : List Transaction) {s : State} (hs : s.base.Sound) :
    (∀ step ∈ blockSteps txs s, step.Genuine ∧ step.deposits.length ≤ 1) ∧
      (finalizeTransactions txs s).2.base.ephemeral.deposits = s.base.ephemeral.deposits ++
        (blockSteps txs s).flatMap ActionStep.deposits := by
  induction txs generalizing s with
  | nil => simp [blockSteps, finalizeTransactions]
  | cons tx rest ih =>
    obtain ⟨hsteps, hdeposits, hsound⟩ := transactionSteps_spec tx hs
    obtain ⟨hrest, hdeposits'⟩ := ih (s := (finalizeTransaction tx s).2) (finalizeTransaction_snd tx s ▸ hsound)
    refine ⟨fun step hstep => ?_, ?_⟩
    · rcases List.mem_append.mp hstep with hmem | hmem
      · exact hsteps step hmem
      · exact hrest step hmem
    · change (finalizeTransactions rest (finalizeTransaction tx s).2).2.base.ephemeral.deposits = _
      rw [hdeposits', finalizeTransaction_snd, hdeposits, blockSteps, List.flatMap_append,
        finalizeTransaction_snd, List.append_assoc]

end

/-! ## Backing -/

/-- Where the amount of a deposit to a bridge account was taken: another account, the escrow of a
channel, or nowhere for a packet that brings a voucher. -/
inductive ActionStep.Takes (step : ActionStep) (bridge : AddressBytes) (i : IbcPrefixed) (n : ℕ) :
    Prop
  | account (a : AddressBytes) : a ≠ bridge →
      step.after.balance a i + n = step.before.balance a i → step.Takes bridge i n
  | escrow (c : ChannelId) :
      step.after.ibcChannelBalance c i + n = step.before.ibcChannelBalance c i →
      step.Takes bridge i n
  | voucher : step.action.kind = .ibcRelay →
      (∀ a j, ¬(a = bridge ∧ j = i) → step.after.balance a j = step.before.balance a j) →
      step.after.ibcChannelBalance = step.before.ibcChannelBalance → step.Takes bridge i n

/-- A step backs a deposit: it has credited the bridge account of the rollup with the amount, and has
taken the amount elsewhere. -/
structure ActionStep.Backs (step : ActionStep) (d : Deposit) : Prop where
  rollupId : step.before.bridge.rollupId d.bridgeAddress.bytes = some d.rollupId
  transaction : d.sourceTransactionId = step.context.transactionId
  position : d.sourceActionIndex = step.context.positionInTransaction
  credited : step.after.balance d.bridgeAddress.bytes d.asset.toIbcPrefixed =
    step.before.balance d.bridgeAddress.bytes d.asset.toIbcPrefixed + d.amount
  taken : step.Takes d.bridgeAddress.bytes d.asset.toIbcPrefixed d.amount

/-- The effects of a step are applied: a bridge transfer does not go to its own signer, and a packet
whose deposit is cached can be received. -/
def ActionStep.Applied (step : ActionStep) : Prop :=
  match step.action with
  | .bridgeTransfer act => act.toAddress.bytes ≠ step.context.addressBytes
  | .ibc (.recvPacket packet _) =>
    ∀ t, step.before.packetTransfer FungibleTokenPacketData.receiver packet = some t →
      (step.before.receivedDeposit packet t).isSome = true → step.before.CanReceive packet t
  | _ => True

/-- The effect of a genuine step. -/
theorem ActionStep.Genuine.does {step : ActionStep} (h : step.Genuine) :
    step.before.Does (Action.effect step.before step.context step.action) step.after := by
  obtain ⟨s, t, hbefore, hafter, hexec⟩ := h.executes
  have hcontext : s.base.ephemeral.transactionContext = some step.context := hbefore ▸ h.context
  have hdoes := Action.checkAndExecute_does hcontext hexec
  rwa [hbefore, hafter] at hdoes

/-- The deposits of a genuine step are those of its effect. -/
theorem ActionStep.Genuine.deposits {step : ActionStep} (h : step.Genuine) :
    step.deposits = (Action.effect step.before step.context step.action).deposit.toList := by
  unfold ActionStep.deposits
  rw [h.does.deposits, List.drop_left]

/-! ### Locks -/

/-- The deposit of a lock is for the rollup of the bridge account, and in the asset of the lock. -/
theorem lockEffect_deposit {s : Base} {c : TransactionContext} {lock : BridgeLock} {d : Deposit}
    (hs : s.assets.Named) (hd : (lockEffect s c lock).deposit = some d) :
    s.bridge.rollupId lock.toAddress.bytes = some d.rollupId ∧ d.bridgeAddress = lock.toAddress ∧
      d.asset.toIbcPrefixed = lock.asset.toIbcPrefixed ∧ d.amount = lock.amount ∧
      d.sourceTransactionId = c.transactionId ∧ d.sourceActionIndex = c.positionInTransaction := by
  simp only [lockEffect, Option.bind_eq_bind, Option.bind_eq_some_iff, Option.some.injEq] at hd
  obtain ⟨rollupId, hid, trace, htrace, rfl⟩ := hd
  refine ⟨hid, rfl, ?_, rfl, rfl, rfl⟩
  cases hasset : lock.asset with
  | tracePrefixed t =>
    rw [hasset] at htrace
    obtain rfl := Option.some.inj htrace
    rfl
  | ibcPrefixed ibc =>
    rw [hasset] at htrace
    exact hs ibc trace htrace

/-- The deposit of a lock is backed exactly if the lock does not go to its own signer. -/
theorem ActionStep.backs_lock {step : ActionStep} (lock : BridgeLock)
    {event : Option (AddressBytes × String)} {d : Deposit} (hs : step.before.assets.Named)
    (hdoes : step.before.Does { lockEffect step.before step.context lock with event := event }
      step.after)
    (hd : (lockEffect step.before step.context lock).deposit = some d) (hpos : 0 < lock.amount ∨
      lock.toAddress.bytes ≠ step.context.addressBytes) :
    step.Backs d ↔ lock.toAddress.bytes ≠ step.context.addressBytes := by
  obtain ⟨hid, hbridge, hasset, hamount, htx, hposition⟩ := lockEffect_deposit hs hd
  have hbalance : step.after.balance = Ledger.post (.move step.context.addressBytes
      lock.toAddress.bytes lock.asset.toIbcPrefixed lock.amount) step.before.balance := hdoes.balance
  have hfits : Ledger.Fits u128Max (.move step.context.addressBytes lock.toAddress.bytes
      lock.asset.toIbcPrefixed lock.amount) step.before.balance := hdoes.fits
  constructor
  · intro hbacks hself
    have hcredited := hbacks.credited
    rw [hbridge, hasset, hamount, hbalance, hself] at hcredited
    rw [hself] at hfits
    rw [Ledger.post_move_self hfits] at hcredited
    rcases hpos with hpos | hne
    · omega
    · exact hne hself
  · intro hne
    refine ⟨hbridge ▸ hid, htx, hposition, ?_, ?_⟩
    · rw [hbridge, hasset, hamount, hbalance]
      exact Ledger.post_move_target (Ne.symm hne) _ _ _
    · refine ActionStep.Takes.account step.context.addressBytes (hbridge ▸ Ne.symm hne) ?_
      rw [hasset, hamount, hbalance]
      exact Ledger.post_move_source (Ne.symm hne) hfits

/-! ### Packets -/

omit ext in
theorem Base.Does.credited {s s' : Base} {e : Effect} {entry : Entry AddressBytes IbcPrefixed}
    (h : s.Does e s') (he : e.accounts = { credit := some entry }) :
    s'.balance entry.account entry.asset =
      s.balance entry.account entry.asset + entry.amount ∧
      ∀ a j, ¬(a = entry.account ∧ j = entry.asset) → s'.balance a j = s.balance a j := by
  have hbalance := h.balance
  rw [he, Ledger.post_credit] at hbalance
  rw [hbalance]
  exact ⟨Ledger.credit_self _ _ _ _, fun a j hne => Ledger.credit_of_ne hne _ _⟩

omit ext in
/-- The other side of an amount that a packet brings: it leaves the escrow of a channel or is a
voucher. -/
theorem ActionStep.takes_packet {step : ActionStep} {e : Effect} {a : AddressBytes}
    {i : IbcPrefixed} {n : ℕ} {c : ChannelId} {released : Bool} (hdoes : step.before.Does e step.after)
    (hkind : step.action.kind = .ibcRelay)
    (hother : ∀ b j, ¬(b = a ∧ j = i) → step.after.balance b j = step.before.balance b j)
    (he : e.escrow =
      { debit := if released then some { account := c, asset := i, amount := n } else none }) :
    step.Takes a i n := by
  have hescrow := hdoes.escrow
  have hfits := hdoes.escrowFits
  rw [he] at hescrow hfits
  cases released with
  | true =>
    refine ActionStep.Takes.escrow c ?_
    rw [hescrow]
    exact Ledger.post_debit_self hfits
  | false => exact ActionStep.Takes.voucher hkind hother hescrow

/-- The deposit of a packet is for the rollup of the credited account. -/
theorem depositFor_spec {s : Base} {c : TransactionContext} {b : Address} {dest : String}
    {asset : TracePrefixed} {amount : ℕ} {d : Deposit}
    (hc : s.ephemeral.transactionContext = some c) (h : s.depositFor b dest asset amount = some d) :
    s.bridge.rollupId b.bytes = some d.rollupId ∧ d.bridgeAddress = b ∧
      d.asset = .tracePrefixed asset ∧ d.amount = amount ∧
      d.sourceTransactionId = c.transactionId ∧ d.sourceActionIndex = c.positionInTransaction := by
  obtain ⟨rollupId, c', hid, -, hc', rfl⟩ := Base.depositFor_eq_some.mp h
  obtain rfl : c = c' := Option.some.inj (hc.symm.trans hc')
  exact ⟨hid, rfl, rfl, rfl, rfl, rfl⟩

theorem receivedDeposit_eq_some {s : Base} {packet : Packet} {t : PacketTransfer} {d : Deposit}
    (h : s.receivedDeposit packet t = some d) :
    ∃ dest, s.depositFor t.account dest (receivedAsset t.denom packet) t.amount = some d := by
  unfold Base.receivedDeposit at h
  split_ifs at h
  rw [Option.bind_eq_some_iff] at h
  obtain ⟨dest, -, hdeposit⟩ := h
  exact ⟨dest, hdeposit⟩

/-- The deposit of a received packet is backed exactly if the packet can be received. -/
theorem ActionStep.backs_received {step : ActionStep} {packet : Packet} {t : PacketTransfer}
    {d : Deposit} (hrange : step.before.InRange)
    (hc : step.before.ephemeral.transactionContext = some step.context)
    (hkind : step.action.kind = .ibcRelay) (hd : step.before.receivedDeposit packet t = some d)
    (hdoes : step.before.Does (if step.before.CanReceive packet t then
      step.before.receivedEffect packet t else step.before.refusedEffect packet t) step.after) :
    step.Backs d ↔ step.before.CanReceive packet t := by
  obtain ⟨dest, hdeposit⟩ := receivedDeposit_eq_some hd
  obtain ⟨hid, hbridge, hasset, hamount, htx, hposition⟩ := depositFor_spec hc hdeposit
  by_cases hcan : step.before.CanReceive packet t
  · rw [if_pos hcan] at hdoes
    obtain ⟨hcredited, hother⟩ := hdoes.credited rfl
    refine iff_of_true ⟨hbridge ▸ hid, htx, hposition, ?_, ?_⟩ hcan
    · rw [hbridge, hasset, hamount]
      exact hcredited
    · rw [hbridge, hasset, hamount]
      exact ActionStep.takes_packet hdoes hkind hother rfl
  · rw [if_neg hcan] at hdoes
    have hbalance : step.after.balance = step.before.balance := hdoes.balance
    refine iff_of_false (fun hbacks => ?_) hcan
    have hcredited := hbacks.credited
    rw [hbalance, hbridge, hasset, hamount] at hcredited
    have hzero : t.amount = 0 := by omega
    -- nothing refuses an amount of zero
    have hgiven : step.before.DepositGiven packet t := fun _ => by rw [hd]; rfl
    have hcovers : step.before.EscrowCovers packet t := fun _ => hzero ▸ Nat.zero_le _
    have hfits : step.before.CreditFits packet t := by
      unfold Base.CreditFits
      rw [hzero]
      exact hrange _ _
    exact hcan ⟨hgiven, hcovers, hfits⟩

/-- The deposit of a refund is always backed. -/
theorem ActionStep.backs_refund {step : ActionStep} {packet : Packet} {d : Deposit}
    (hc : step.before.ephemeral.transactionContext = some step.context)
    (hkind : step.action.kind = .ibcRelay)
    (hd : (step.before.refundEffect packet).deposit = some d)
    (hdoes : step.before.Does (step.before.refundEffect packet) step.after) : step.Backs d := by
  unfold Base.refundEffect at hd hdoes
  cases ht : step.before.packetTransfer FungibleTokenPacketData.sender packet with
  | none =>
    rw [ht] at hd
    cases hd
  | some t =>
    rw [ht] at hd hdoes
    obtain ⟨memo, -, hdeposit⟩ := Option.bind_eq_some_iff.mp hd
    obtain ⟨hid, hbridge, hasset, hamount, htx, hposition⟩ := depositFor_spec hc hdeposit
    obtain ⟨hcredited, hother⟩ := hdoes.credited rfl
    refine ⟨hbridge ▸ hid, htx, hposition, ?_, ?_⟩
    · rw [hbridge, hasset, hamount]
      exact hcredited
    · rw [hbridge, hasset, hamount]
      exact ActionStep.takes_packet hdoes hkind hother rfl

/-! ### Every step -/

/-- A lock that is executed has a deposit. -/
theorem lockEffect_deposit_isSome {lock : BridgeLock} {s s' : Base} {u : Unit}
    {c : TransactionContext} (h : executeBridgeLock lock s = .ok u s')
    (hc : s.ephemeral.transactionContext = some c) : ∃ d, (lockEffect s c lock).deposit = some d := by
  obtain ⟨c', rollupId, trace, hc', hid, htrace, -, -, -⟩ := executeBridgeLock_eq_ok h
  obtain rfl : c = c' := Option.some.inj (hc.symm.trans hc')
  refine ⟨lockDeposit lock c rollupId trace, ?_⟩
  simp [lockEffect, hid, (depositAsset_eq_ok.mp htrace).1]

/-- The handler of a genuine step, on the components without the oracle. -/
theorem ActionStep.Genuine.onBase {step : ActionStep} (h : step.Genuine) {x : BaseM Unit}
    (hx : Action.checkAndExecute step.action = Sequencer.onBase x) :
    x step.before = .ok () step.after := by
  obtain ⟨s, t, hbefore, hafter, hexec⟩ := h.executes
  rw [hx, onBase_eq_ok] at hexec
  obtain ⟨b, hb, rfl⟩ := hexec
  rw [← hbefore, ← hafter]
  exact hb

/-- The deposit of a step is backed exactly if the step is applied. -/
theorem ActionStep.backs_iff {step : ActionStep} (h : step.Genuine) {d : Deposit}
    (hd : d ∈ step.deposits) : step.Backs d ↔ step.Applied := by
  have hdoes := h.does
  rw [h.deposits, Option.mem_toList] at hd
  obtain ⟨action, c, before, after⟩ := step
  have hrange := h.sound.inRange
  have hnamed := h.sound.named
  cases action with
  | bridgeLock act =>
    refine iff_of_true ((ActionStep.backs_lock act hnamed hdoes hd (Or.inr ?_)).mpr ?_) trivial
    all_goals
      obtain ⟨c', hc', hnone, -, hlock⟩ := BridgeLock.checkAndExecute_eq_ok (h.onBase rfl)
      obtain rfl : c = c' := Option.some.inj (h.context.symm.trans hc')
      obtain ⟨_, rollupId, _, _, hid, -⟩ := executeBridgeLock_eq_ok hlock
      intro hself
      rw [hself, hnone] at hid
      cases hid
  | bridgeTransfer act =>
    obtain ⟨asset, hasset, -, -, -⟩ := BridgeTransfer.checkAndExecute_eq_ok (h.onBase rfl)
    simp only [Action.effect] at hd hdoes
    rw [hasset] at hd hdoes
    have hpos : 0 < act.amount := by
      have hstateless : BridgeUnlock.checkStateless (BridgeTransfer.unlock act) = .ok () :=
        h.stateless
      unfold BridgeUnlock.checkStateless at hstateless
      split_ifs at hstateless with hamount
      exact hamount
    exact ActionStep.backs_lock (BridgeTransfer.lock act asset) hnamed hdoes hd (Or.inl hpos)
  | ibc msg =>
    cases msg with
    | recvPacket packet proof =>
      simp only [Action.effect, IbcRelay.effect] at hd hdoes
      unfold ActionStep.Applied
      cases ht : before.packetTransfer FungibleTokenPacketData.receiver packet with
      | none =>
        rw [ht] at hd
        cases hd
      | some t =>
        rw [ht] at hd hdoes
        simp only at hd hdoes
        have hreceived : before.receivedDeposit packet t = some d := by
          by_cases hcan : before.CanReceive packet t
          · rwa [if_pos hcan] at hd
          · rwa [if_neg hcan] at hd
        rw [ActionStep.backs_received hrange h.context rfl hreceived hdoes]
        simp [ht, hreceived]
    | acknowledgement packet bytes proof =>
      refine iff_of_true ?_ trivial
      simp only [Action.effect, IbcRelay.effect] at hd hdoes
      cases hack : ext.parseAcknowledgement bytes with
      | none =>
        rw [hack] at hd
        cases hd
      | some ack =>
        rw [hack] at hd hdoes
        cases ack with
        | success => cases hd
        | error message => exact ActionStep.backs_refund h.context rfl hd hdoes
    | timeout packet proof =>
      exact iff_of_true (ActionStep.backs_refund h.context rfl hd hdoes) trivial
    | channel handshake raw => cases hd
    | other raw => cases hd
  | bridgeUnlock act =>
    simp only [Action.effect] at hd
    split at hd <;> cases hd
  | transfer act => cases hd
  | ics20Withdrawal act => cases hd
  | rollupDataSubmission act => cases hd
  | validatorUpdate act => cases hd
  | sudoAddressChange act => cases hd
  | ibcSudoChange act => cases hd
  | ibcRelayerChange act => cases hd
  | feeAssetChange act => cases hd
  | initBridgeAccount act => cases hd
  | bridgeSudoChange act => cases hd
  | feeChange act => cases hd
  | recoverIbcClient act => cases hd
  | currencyPairsChange act => cases hd
  | marketsChange act => cases hd

/-- A step without a deposit is applied. -/
theorem ActionStep.applied_of_noDeposit {step : ActionStep} (h : step.Genuine)
    (hnone : step.deposits = []) : step.Applied := by
  rw [h.deposits, Option.toList_eq_nil_iff] at hnone
  obtain ⟨action, c, before, after⟩ := step
  unfold ActionStep.Applied
  cases action with
  | bridgeTransfer act =>
    obtain ⟨asset, hasset, -, -, hlock⟩ := BridgeTransfer.checkAndExecute_eq_ok (h.onBase rfl)
    obtain ⟨d, hd⟩ := lockEffect_deposit_isSome hlock h.context
    simp only [Action.effect] at hnone
    rw [hasset] at hnone
    exact absurd (hd.symm.trans hnone) (Option.some_ne_none d)
  | ibc msg =>
    cases msg with
    | recvPacket packet proof =>
      intro t ht hsome
      by_contra hcan
      simp only [Action.effect, IbcRelay.effect, ht, if_neg hcan, Base.refusedEffect] at hnone
      rw [hnone] at hsome
      cases hsome
    | _ => trivial
  | _ => trivial

/-! ## Blocks -/

/-- The deposits that are stored are as they were. -/
def Base.SameStoredDeposits (s s' : Base) : Prop := s'.nonverifiable.deposits = s.nonverifiable.deposits

instance : IsPreorder Base Base.SameStoredDeposits where
  refl _ := rfl
  trans _ _ _ h h' := h'.trans h

/-- The cached deposits of a block are stored under its hash, by rollup. -/
theorem storeBlock_deposits [BlockCodec] {handler : UpgradesHandler} {chainId : String}
    {post : PostExecution} {updates : List CometbftValidatorUpdate} {events : List Event}
    {s s' : Base} {u : Unit} (h : storeBlock handler chainId post updates events s = .ok u s') :
    s'.nonverifiable.deposits = (s.putDeposits post.blockHash).nonverifiable.deposits := by
  have hend (height : ℕ) : Keeps Base.SameStoredDeposits (handler.endBlock height) := by
    unfold UpgradesHandler.endBlock
    cases handler.upgrades.upgradeActivatingAtHeight height with
    | none => exact keeps_pure _
    | some aspen =>
      exact Keeps.bind (by simp) fun _ => Keeps.bind (keeps_writes fun _ => rfl) fun _ => keeps_pure _
  simp only [storeBlock, bind_eq_ok, reads_eq_ok, writes_eq_ok, mapErr_eq_ok, lift_eq_ok, and_assoc,
    exists_and_left, exists_eq_left] at h
  obtain ⟨_, block, -, _, params, t, hparams, rfl⟩ := h
  have hkept := (hend _).of_ok hparams
  exact hkept

omit ext in
/-- What is stored for a rollup that has deposits. -/
theorem Base.putDeposits_of_mem {s : Base} {d : Deposit} (hash : BlockHash)
    (hd : d ∈ s.ephemeral.deposits) :
    (s.putDeposits hash).nonverifiable.deposits hash d.rollupId =
      some (s.cachedBlockDeposits d.rollupId) := by
  have hmem : d ∈ s.cachedBlockDeposits d.rollupId := List.mem_filter.mpr ⟨hd, by simp⟩
  have hne : s.cachedBlockDeposits d.rollupId ≠ [] := List.ne_nil_of_mem hmem
  simp only [Base.putDeposits, Function.update_self, if_neg hne]

variable [UpgradeCodec] [TransactionCodec] [BlockCodec]

/-- The steps of a block that is executed on a state. -/
def Block.steps (handler : UpgradesHandler) (appHash : Bytes32) (block : Block) (s : State) :
    List ActionStep :=
  blockSteps block.expanded.userSubmittedTransactions
    (final (preExecuteTransactions handler.upgrades appHash block.data s))

/-- The deposits of a block are those of the steps of its transactions, at most one each, and they are
stored under its hash. -/
theorem executeBlock_deposits {handler : UpgradesHandler} {appHash : Bytes32} {block : Block}
    {s s' : State} {u : Unit} (hs : s.base.Sound)
    (h : executeBlock handler appHash block s.commit = .ok u s') :
    (∀ step ∈ Block.steps handler appHash block s.commit,
        step.Genuine ∧ step.deposits.length ≤ 1) ∧
      s'.base.ephemeral.deposits =
        (Block.steps handler appHash block s.commit).flatMap ActionStep.deposits ∧
      ∀ d ∈ s'.base.ephemeral.deposits, s'.base.nonverifiable.deposits block.hash d.rollupId =
        some (s'.base.cachedBlockDeposits d.rollupId) := by
  obtain ⟨hashes, t, hpre, hpost⟩ := executeBlock_ok h
  have hsame : s.commit.base.SameFunds t.base :=
    (preExecuteTransactions_sameFunds handler.upgrades appHash block.data).of_ok hpre
  have ht : t.base.Sound := by
    have hcommit : s.base.SameHoldings s.commit.base := ⟨rfl, rfl, rfl, rfl⟩
    exact (hs.of_holdings hcommit).of_holdings hsame.holdings
  have hstart : t.base.ephemeral.deposits = [] := hsame.deposits
  unfold Block.steps
  rw [hpre]
  obtain ⟨hsteps, hdeposits⟩ := blockSteps_spec block.expanded.userSubmittedTransactions ht
  rw [hstart, List.nil_append] at hdeposits
  obtain ⟨chainId, recipient, updates, b, c, -, -, hend, hstore, rfl⟩ :=
    postExecuteTransactions_eq_ok.mp hpost
  have hpays := (endBlock_pays hend).deposits
  have hstored := ((storeBlock_sameFunds _ _ _ _ _).of_ok hstore).deposits
  have hcached : c.ephemeral.deposits = b.ephemeral.deposits := hstored
  refine ⟨hsteps, hcached.trans (hpays.trans hdeposits), fun d hd => ?_⟩
  have hd' : d ∈ ({ b with ephemeral.events := [] } : Base).ephemeral.deposits := hcached ▸ hd
  change c.nonverifiable.deposits block.hash d.rollupId =
    some (c.ephemeral.deposits.filter fun e => e.rollupId = d.rollupId)
  rw [storeBlock_deposits hstore, hcached]
  exact Base.putDeposits_of_mem block.hash hd'

/-- The deposits of a block that is executed in a run are those of the steps of its transactions, at
most one each, and are all backed exactly if every step is applied. -/
theorem deposits_backed_iff {handler : UpgradesHandler} {appHash : Bytes32} {block : Block}
    {l : List Withdrawal} {s s' : State} (hrun : Run handler l s)
    (h : executeBlock handler appHash block s.commit = .ok () s') :
    s'.base.ephemeral.deposits =
        (Block.steps handler appHash block s.commit).flatMap ActionStep.deposits ∧
      (∀ step ∈ Block.steps handler appHash block s.commit, step.deposits.length ≤ 1) ∧
      (∀ d ∈ s'.base.ephemeral.deposits, s'.base.nonverifiable.deposits block.hash d.rollupId =
        some (s'.base.cachedBlockDeposits d.rollupId)) ∧
      ((∀ step ∈ Block.steps handler appHash block s.commit, ∀ d ∈ step.deposits, step.Backs d) ↔
        ∀ step ∈ Block.steps handler appHash block s.commit, step.Applied) := by
  obtain ⟨hsteps, hdeposits, hstored⟩ := executeBlock_deposits
    ⟨hrun.wellConfigured, hrun.inRange, hrun.named⟩ h
  refine ⟨hdeposits, fun step hstep => (hsteps step hstep).2, hstored, ?_⟩
  constructor
  · intro hbacked step hstep
    cases hd : step.deposits with
    | nil => exact ActionStep.applied_of_noDeposit (hsteps step hstep).1 hd
    | cons d rest =>
      have hmem : d ∈ step.deposits := hd ▸ List.mem_cons_self
      exact (ActionStep.backs_iff (hsteps step hstep).1 hmem).mp (hbacked step hstep d hmem)
  · intro happlied step hstep d hd
    exact (ActionStep.backs_iff (hsteps step hstep).1 hd).mpr (happlied step hstep)

end

section

open TestUtils

/-- A block with a bridge transfer from bob's bridge account to alice's and its deposit. -/
def bridgeTransferBlock (key : Bytes32) : Block :=
  block 1 [bridgeTransferTransaction key 1]
    [{ bridgeAddress := aliceAddress
       rollupId := { inner := List.Vector.replicate 32 7 }
       amount := 5
       asset := .tracePrefixed nria
       destinationChainAddress := "rollup"
       sourceTransactionId := transactionId (bridgeTransferTransaction key 1)
       sourceActionIndex := 0 }]

/-- The execution of that block after the bridge accounts were set up. -/
def bridgeTransferRun (key : Bytes32) : EStateM.Result Report State Unit :=
  executeBlock withoutUpgrades (List.Vector.replicate 32 0) (bridgeTransferBlock key) bridges.commit

/-- The steps of that block. -/
def bridgeTransferSteps (key : Bytes32) : List ActionStep :=
  Block.steps withoutUpgrades (List.Vector.replicate 32 0) (bridgeTransferBlock key) bridges.commit

/-- The recipient and the signer of a bridge transfer. -/
def ActionStep.transferParties (step : ActionStep) : Option (AddressBytes × AddressBytes) :=
  match step.action with
  | .bridgeTransfer act => some (act.toAddress.bytes, step.context.addressBytes)
  | _ => none

theorem ActionStep.applied_of_transferParties {step : ActionStep} {p : AddressBytes × AddressBytes}
    (h : step.transferParties = some p) : step.Applied ↔ p.1 ≠ p.2 := by
  unfold ActionStep.transferParties at h
  unfold ActionStep.Applied
  split at h
  · rename_i act hact
    obtain rfl := Option.some.inj h
    rw [hact]
  · cases h

set_option maxRecDepth 10000 in
/-- The deposit of a bridge transfer that bob signs is backed. -/
theorem deposits_backed_iff_bob :
    ∃ s', bridgeTransferRun bobKey = .ok () s' ∧ s'.base.ephemeral.deposits.length = 1 ∧
      ∀ step ∈ bridgeTransferSteps bobKey, ∀ d ∈ step.deposits, step.Backs d := by
  have hrun : bridgeTransferRun bobKey = .ok () (final (bridgeTransferRun bobKey)) :=
    eq_ok_of_isOk (by decide +kernel)
  have hparties : (bridgeTransferSteps bobKey).map ActionStep.transferParties =
      [some (aliceAddress.bytes, bobAddress.bytes)] := by decide +kernel
  refine ⟨_, hrun, by decide +kernel, ?_⟩
  refine (deposits_backed_iff run_bridges hrun).2.2.2.mpr fun step hstep => ?_
  have hmem : step.transferParties ∈ [some (aliceAddress.bytes, bobAddress.bytes)] :=
    hparties ▸ List.mem_map_of_mem hstep
  rw [ActionStep.applied_of_transferParties (List.mem_singleton.mp hmem)]
  decide

set_option maxRecDepth 10000 in
/-- A bridge transfer that alice signs to her own bridge account leaves a deposit that nothing
backs. -/
theorem bridgeTransfer_unbacked :
    Run withoutUpgrades [] bridges ∧ ∃ s', bridgeTransferRun aliceKey = .ok () s' ∧
      ∃ step ∈ bridgeTransferSteps aliceKey, ∃ d ∈ step.deposits, ¬step.Backs d := by
  have hrun : bridgeTransferRun aliceKey = .ok () (final (bridgeTransferRun aliceKey)) :=
    eq_ok_of_isOk (by decide +kernel)
  have hany : (bridgeTransferSteps aliceKey).any (fun step =>
      step.transferParties = some (aliceAddress.bytes, aliceAddress.bytes) ∧
        step.deposits.length = 1) = true := by decide +kernel
  obtain ⟨step, hstep, hself⟩ := List.any_eq_true.mp hany
  rw [decide_eq_true_eq] at hself
  obtain ⟨d, hd⟩ := List.exists_mem_of_length_pos (hself.2.symm ▸ Nat.zero_lt_one)
  have hgenuine := ((executeBlock_deposits ⟨run_bridges.wellConfigured, run_bridges.inRange,
    run_bridges.named⟩ hrun).1 step hstep).1
  refine ⟨run_bridges, _, hrun, step, hstep, d, hd, fun hbacks => ?_⟩
  have happlied := (ActionStep.backs_iff hgenuine hd).mp hbacks
  exact (ActionStep.applied_of_transferParties hself.1).mp happlied rfl

end

end Astria.Sequencer
