import Astria.Sequencer.ActionHandler.Ics20

/-!
# What ICS20 transfers do to the funds

A packet that is received or refunded credits one account, may cache one deposit and may take
the amount from the escrow of a channel; a packet that is refused credits nothing, but a
deposit that was cached before the refusal stays.

Results:
* `Ics20Withdrawal.checkAndExecute_does`: the effect of a successful withdrawal, and what it
  has checked;
* `executeIbcRelay_does`: the effect of a relayed message that succeeds.
-/

namespace Astria.Sequencer

open Astria.Core Astria.Lib Exec

section

variable [ext : External]

/-! ## The transfer of a packet -/

/-- The trace form of a denomination under the registered assets. -/
def Assets.traceOf (assets : Assets) (input : String) : Option TracePrefixed :=
  match Denom.parse input with
  | some (.tracePrefixed trace) => some trace
  | some (.ibcPrefixed ibc) => assets.ibcAssets ibc
  | none => none

/-- The address that a string stands for under the stored prefixes. -/
def AddressPrefixes.addressOf (prefixes : AddressPrefixes) (input : String) : Option Address :=
  match prefixes.basePrefix, prefixes.ibcCompatPrefix with
  | some basePrefix, some compatPrefix =>
    (parseSequencerAddress input basePrefix compatPrefix).toOption
  | _, _ => none

/-- The transfer that a packet's data describes; `party` is the field that names the account
on the sequencer. -/
def Base.packetTransfer (party : FungibleTokenPacketData → String) (s : Base) (packet : Packet) :
    Option PacketTransfer := do
  let data ← ext.parsePacketData packet.data
  let amount ← parseU128 data.amount
  let account ← s.prefixes.addressOf (party data)
  let denom ← s.assets.traceOf data.denom
  some { account := account, amount := amount, denom := denom, memo := data.memo }

omit ext in
theorem parseAsset_eq_ok {input : String} {s s' : Base} {d : TracePrefixed} :
    parseAsset input s = .ok d s' ↔ s.assets.traceOf input = some d ∧ s' = s := by
  unfold parseAsset Assets.traceOf
  cases hd : Denom.parse input with
  | none => simp
  | some denom =>
    cases denom with
    | tracePrefixed trace =>
      simp only [require, pure_bind, pure_eq_ok, Option.some.injEq]
      exact and_congr_left fun _ => eq_comm
    | ibcPrefixed ibc =>
      simp only [require, pure_bind, bind_eq_ok, reads_eq_ok, Base.mapIbcToTracePrefixedAsset,
        and_assoc, exists_and_left, exists_eq_left]
      exact require_eq_ok

theorem parseAddressOnSequencer_eq_ok {input : String} {s s' : Base} {a : Address} :
    parseAddressOnSequencer input s = .ok a s' ↔ s.prefixes.addressOf input = some a ∧ s' = s := by
  unfold parseAddressOnSequencer AddressPrefixes.addressOf Base.getBasePrefix Base.getIbcCompatPrefix
  cases hb : s.prefixes.basePrefix with
  | none => simp [hb]
  | some b =>
    cases hc : s.prefixes.ibcCompatPrefix with
    | none => simp [hb, hc]
    | some c =>
      cases hp : parseSequencerAddress input b c with
      | error e => simp [hb, hc, hp, Except.toOption]
      | ok x =>
        simp only [bind_eq_ok, mapErr_eq_ok, tryReads_eq_ok, hb, hc, hp, Except.ok.injEq, lift_eq_ok,
          and_assoc, exists_and_left, exists_eq_left', exists_eq_left, Except.toOption,
          Option.some.injEq]

theorem parsePacketTransfer_eq_ok {party : FungibleTokenPacketData → String}
    {partyContext denomContext : String → String} {packet : Packet} {s s' : Base}
    {t : PacketTransfer} :
    parsePacketTransfer party partyContext denomContext packet s = .ok t s' ↔
      s.packetTransfer party packet = some t ∧ s' = s := by
  simp only [parsePacketTransfer, Base.packetTransfer, bind_eq_ok, require_eq_ok, mapErr_eq_ok,
    parseAddressOnSequencer_eq_ok, parseAsset_eq_ok, pure_eq_ok, and_assoc, exists_and_left,
    exists_eq_left, Option.bind_eq_bind, Option.bind_eq_some_iff, Option.some.injEq]
  constructor
  · rintro ⟨data, hd, amount, ha, account, hacc, denom, hdenom, rfl, rfl⟩
    exact ⟨⟨data, hd, amount, ha, account, hacc, denom, hdenom, rfl⟩, rfl⟩
  · rintro ⟨⟨data, hd, amount, ha, account, hacc, denom, hdenom, rfl⟩, rfl⟩
    exact ⟨data, hd, amount, ha, account, hacc, denom, hdenom, rfl, rfl⟩

omit ext in
theorem parseAsset_keeps (input : String) : Keeps Eq (parseAsset input) := by
  refine Keeps.bind (by simp) fun denom => ?_
  cases denom with
  | tracePrefixed trace => exact keeps_pure trace
  | ibcPrefixed ibc => exact Keeps.bind (by simp) fun _ => by simp

theorem parsePacketTransfer_keeps (party : FungibleTokenPacketData → String)
    (partyContext denomContext : String → String) (packet : Packet) :
    Keeps Eq (parsePacketTransfer party partyContext denomContext packet) := by
  have haddress (input : String) : Keeps Eq (parseAddressOnSequencer input) :=
    Keeps.bind (by simp) fun _ => Keeps.bind (by simp) fun _ => by simp
  refine Keeps.bind (by simp) fun _ => Keeps.bind (by simp) fun _ => ?_
  refine Keeps.bind ((haddress _).mapErr _) fun _ => ?_
  exact Keeps.bind ((parseAsset_keeps _).mapErr _) fun _ => by simp

/-- The deposit that `emit_deposit` caches, if its checks pass. -/
def Base.depositFor (s : Base) (bridgeAddress : Address) (destinationChainAddress : String)
    (asset : TracePrefixed) (amount : ℕ) : Option Deposit :=
  match s.bridge.rollupId bridgeAddress.bytes, s.bridge.ibcAsset bridgeAddress.bytes,
    s.ephemeral.transactionContext with
  | some rollupId, some allowed, some context =>
    if allowed = asset.toIbcPrefixed then
      some (ics20Deposit bridgeAddress destinationChainAddress asset amount rollupId context)
    else none
  | _, _, _ => none

theorem Base.depositFor_eq_some {s : Base} {b : Address} {dest : String} {asset : TracePrefixed}
    {amount : ℕ} {d : Deposit} :
    s.depositFor b dest asset amount = some d ↔
      ∃ rollupId c, s.bridge.rollupId b.bytes = some rollupId ∧
        s.bridge.ibcAsset b.bytes = some asset.toIbcPrefixed ∧
        s.ephemeral.transactionContext = some c ∧
        d = ics20Deposit b dest asset amount rollupId c := by
  unfold depositFor
  constructor
  · intro h
    split at h
    · rename_i rollupId allowed c hid hallowed hc
      split_ifs at h with heq
      rw [Option.some.injEq] at h
      exact ⟨rollupId, c, hid, heq ▸ hallowed, hc, h.symm⟩
    · cases h
  · rintro ⟨rollupId, c, hid, hallowed, hc, rfl⟩
    simp [hid, hallowed, hc]

/-- The deposit is recorded as an event and cached. -/
def Base.pushDeposit (d : Deposit) (s : Base) : Base :=
  (s.record (.txDeposit d)).cacheDepositEvent d

theorem emitDeposit_eq_ok {b : Address} {dest : String} {asset : TracePrefixed} {amount : ℕ}
    {s s' : Base} {u : Unit} :
    emitDeposit b dest asset amount s = .ok u s' ↔
      ∃ d, s.depositFor b dest asset amount = some d ∧ s' = s.pushDeposit d := by
  simp only [emitDeposit, Base.depositFor_eq_some, bind_eq_ok, reads_eq_ok, require_eq_ok,
    mapErr_eq_ok, tryReads_eq_ok, Base.getBridgeAccountIbcAsset_eq_ok, ensure_eq_ok,
    getTransactionContext_eq_ok, writes_eq_ok, and_assoc, exists_and_left, exists_eq_left,
    exists_const]
  constructor
  · rintro ⟨rollupId, hid, allowed, hallowed, rfl, c, hc, rfl⟩
    exact ⟨_, ⟨rollupId, hid, hallowed, c, hc, rfl⟩, rfl⟩
  · rintro ⟨d, ⟨rollupId, hid, hallowed, c, hc, rfl⟩, rfl⟩
    exact ⟨rollupId, hid, _, hallowed, rfl, c, hc, rfl⟩

theorem emitDeposit_error {b : Address} {dest : String} {asset : TracePrefixed} {amount : ℕ}
    {s s' : Base} {e : Report} (h : emitDeposit b dest asset amount s = .error e s') :
    s' = s := by
  simp only [emitDeposit, getTransactionContext, bind_eq_error, reads_eq_error,
    reads_eq_ok, require_eq_error, require_eq_ok, mapErr_eq_error, mapErr_eq_ok,
    tryReads_eq_error, tryReads_eq_ok, ensure_eq_error, ensure_eq_ok, writes_eq_error, and_false,
    exists_false, or_false, false_or] at h
  grind

/-- The rollup address of a deposit memo, if it meets the bounds. -/
def depositDestination (memo : String) : Option String :=
  match ext.parseDepositMemo memo with
  | some depositMemo =>
    if depositMemo.rollupDepositAddress ≠ "" ∧
        depositMemo.rollupDepositAddress.utf8ByteSize ≤ maxRollupAddressByteLength then
      some depositMemo.rollupDepositAddress
    else none
  | none => none

/-- The deposit that a received transfer caches before it is credited. -/
def Base.receivedDeposit (s : Base) (packet : Packet) (t : PacketTransfer) : Option Deposit :=
  if s.isABridgeAccount t.account.bytes then
    (depositDestination t.memo).bind fun destination =>
      s.depositFor t.account destination (receivedAsset t.denom packet) t.amount
  else none

/-- The escrow of a channel gives the amount that a received transfer takes back. -/
def receivedRelease (packet : Packet) (t : PacketTransfer) : Posting ChannelId IbcPrefixed :=
  { debit :=
      if isTransferSourceZone t.denom packet.portOnA packet.chanOnA then
        some
          { account := packet.chanOnB
            asset := (receivedAsset t.denom packet).toIbcPrefixed
            amount := t.amount }
      else none }

/-- Whether a transfer to a bridge account comes with a deposit. -/
def Base.DepositGiven (s : Base) (packet : Packet) (t : PacketTransfer) : Prop :=
  s.isABridgeAccount t.account.bytes = true → (s.receivedDeposit packet t).isSome = true

/-- Whether the escrow covers a received transfer. -/
def Base.EscrowCovers (s : Base) (packet : Packet) (t : PacketTransfer) : Prop :=
  isTransferSourceZone t.denom packet.portOnA packet.chanOnA = true →
    t.amount ≤ s.ibcChannelBalance packet.chanOnB (receivedAsset t.denom packet).toIbcPrefixed

/-- Whether the credit of a received transfer does not overflow. -/
def Base.CreditFits (s : Base) (packet : Packet) (t : PacketTransfer) : Prop :=
  s.balance t.account.bytes (receivedAsset t.denom packet).toIbcPrefixed + t.amount ≤ u128Max

instance (s : Base) (packet : Packet) (t : PacketTransfer) : Decidable (s.DepositGiven packet t) :=
  inferInstanceAs (Decidable (_ → _))

instance (s : Base) (packet : Packet) (t : PacketTransfer) : Decidable (s.EscrowCovers packet t) :=
  inferInstanceAs (Decidable (_ → _))

instance (s : Base) (packet : Packet) (t : PacketTransfer) : Decidable (s.CreditFits packet t) :=
  inferInstanceAs (Decidable (_ ≤ _))

/-- Whether a transfer can be received: its deposit, its release and its credit go through. -/
def Base.CanReceive (s : Base) (packet : Packet) (t : PacketTransfer) : Prop :=
  s.DepositGiven packet t ∧ s.EscrowCovers packet t ∧ s.CreditFits packet t

instance (s : Base) (packet : Packet) (t : PacketTransfer) : Decidable (s.CanReceive packet t) :=
  inferInstanceAs (Decidable (_ ∧ _))

/-- The effect of a transfer that is received. -/
def Base.receivedEffect (s : Base) (packet : Packet) (t : PacketTransfer) : Effect :=
  { accounts :=
      { credit := some
          { account := t.account.bytes
            asset := (receivedAsset t.denom packet).toIbcPrefixed
            amount := t.amount } }
    escrow := receivedRelease packet t
    deposit := s.receivedDeposit packet t }

/-- The effect of a transfer that is refused: the deposit and the release that went through
before the error stay. -/
def Base.refusedEffect (s : Base) (packet : Packet) (t : PacketTransfer) : Effect :=
  { escrow :=
      if s.DepositGiven packet t ∧ s.EscrowCovers packet t then receivedRelease packet t else {}
    deposit := s.receivedDeposit packet t }

theorem emitBridgeLockDeposit_eq_ok {b : Address} {asset : TracePrefixed} {amount : ℕ}
    {memo : String} {s s' : Base} {u : Unit} :
    emitBridgeLockDeposit b asset amount memo s = .ok u s' ↔
      ∃ d, ((depositDestination memo).bind fun destination =>
        s.depositFor b destination asset amount) = some d ∧ s' = s.pushDeposit d := by
  unfold emitBridgeLockDeposit depositDestination
  cases hm : ext.parseDepositMemo memo with
  | none => simp
  | some m =>
    simp only [require, pure_bind, bind_eq_ok, ensure_eq_ok, emitDeposit_eq_ok, and_assoc,
      exists_and_left, exists_eq_left, exists_const]
    by_cases hne : m.rollupDepositAddress ≠ ""
    · by_cases hle : m.rollupDepositAddress.utf8ByteSize ≤ maxRollupAddressByteLength
      · simp [hne, hle]
      · simp [hle]
    · simp [hne]

/-- The state once the deposit of a received transfer is cached. -/
def Base.withReceivedDeposit (s : Base) (packet : Packet) (t : PacketTransfer) : Base :=
  (s.receivedDeposit packet t).elim s fun d => s.pushDeposit d

theorem depositIfBridge_eq_ok {packet : Packet} {t : PacketTransfer} {s s' : Base} {u : Unit} :
    depositIfBridge t.account (receivedAsset t.denom packet) t.amount t.memo s = .ok u s' ↔
      s.DepositGiven packet t ∧ s' = s.withReceivedDeposit packet t := by
  simp only [depositIfBridge, Base.DepositGiven, Base.withReceivedDeposit, Base.receivedDeposit,
    bind_eq_ok, reads_eq_ok, and_assoc, exists_and_left, exists_eq_left]
  cases hb : s.isABridgeAccount t.account.bytes with
  | false => simp
  | true =>
    simp only [if_true, mapErr_eq_ok, emitBridgeLockDeposit_eq_ok, true_implies]
    cases hd : ((depositDestination t.memo).bind fun destination =>
        s.depositFor t.account destination (receivedAsset t.denom packet) t.amount) with
    | none => simp
    | some d => simp

omit ext in
theorem Base.pushDeposit_does (d : Deposit) (s : Base) :
    s.Does { deposit := some d } (s.pushDeposit d) :=
  { event := rfl
    fits := Ledger.fits_empty _ _
    balance := rfl
    escrowFits := Ledger.fits_empty _ _
    escrow := rfl
    deposits := rfl
    blockFees := rfl
    transactionContext := rfl }

theorem Base.withReceivedDeposit_does (s : Base) (packet : Packet) (t : PacketTransfer) :
    s.Does { deposit := s.receivedDeposit packet t } (s.withReceivedDeposit packet t) := by
  unfold withReceivedDeposit
  cases s.receivedDeposit packet t with
  | none => exact Base.SameFunds.does rfl
  | some d => exact s.pushDeposit_does d

theorem depositIfBridge_error {a : Address} {asset : TracePrefixed} {amount : ℕ} {memo : String}
    {s s' : Base} {e : Report} (h : depositIfBridge a asset amount memo s = .error e s') :
    s' = s := by
  simp only [depositIfBridge, bind_eq_error, reads_eq_error, reads_eq_ok, false_or] at h
  obtain ⟨b, t, ⟨rfl, rfl⟩, h⟩ := h
  split_ifs at h
  · rw [mapErr_eq_error] at h
    obtain ⟨e', h, -⟩ := h
    simp only [emitBridgeLockDeposit, bind_eq_error, require_eq_error, require_eq_ok,
      ensure_eq_error, ensure_eq_ok] at h
    rcases h with ⟨-, -, rfl⟩ | ⟨m, r, ⟨-, rfl⟩, ⟨-, -, rfl⟩ | ⟨_, _, ⟨-, rfl⟩, ⟨-, -, rfl⟩ |
      ⟨_, _, ⟨-, rfl⟩, h⟩⟩⟩
    · rfl
    · rfl
    · rfl
    · exact emitDeposit_error h
  · rw [pure_eq_error] at h
    exact h.elim

/-- The release of a received transfer goes through exactly when the escrow covers it. -/
theorem releaseOrRegister_does {packet : Packet} {t : PacketTransfer} {s s' : Base} {u : Unit}
    (h : releaseOrRegister (receivedAsset t.denom packet)
      (isTransferSourceZone t.denom packet.portOnA packet.chanOnA) packet t.amount s = .ok u s') :
    s.EscrowCovers packet t ∧ s.Does { escrow := receivedRelease packet t } s' := by
  unfold Base.EscrowCovers receivedRelease
  cases hsource : isTransferSourceZone t.denom packet.portOnA packet.chanOnA with
  | true =>
    rw [hsource] at h
    simp only [releaseOrRegister, if_true, mapErr_eq_ok, decreaseIbcChannelBalance_eq_ok] at h
    obtain ⟨hle, rfl⟩ := h
    refine ⟨fun _ => hle, rfl, Ledger.fits_empty _ _, rfl, ⟨?_, ?_⟩, ?_, by simp; rfl, rfl, rfl⟩
    · rintro e ⟨⟩
      exact hle
    · rintro e ⟨⟩
    · exact Base.ibcChannelBalance_putIbcChannelBalance_eq _ _ _ _
  | false =>
    rw [hsource] at h
    simp only [releaseOrRegister, Bool.false_eq_true, if_false, bind_eq_ok, reads_eq_ok, and_assoc,
      exists_and_left, exists_eq_left] at h
    refine ⟨fun hs => by simp at hs, ?_⟩
    have hdeposits (q : Base) : q.ephemeral.deposits =
        q.ephemeral.deposits ++ (none : Option Deposit).toList := by simp
    split_ifs at h with hknown
    · rw [pure_eq_ok] at h
      obtain ⟨-, rfl⟩ := h
      exact ⟨rfl, Ledger.fits_empty _ _, rfl, Ledger.fits_empty _ _, rfl, hdeposits _, rfl, rfl⟩
    · rw [writes_eq_ok] at h
      subst h
      exact ⟨rfl, Ledger.fits_empty _ _, rfl, Ledger.fits_empty _ _, rfl, hdeposits _, rfl, rfl⟩

theorem releaseOrRegister_error {packet : Packet} {t : PacketTransfer} {s s' : Base} {e : Report}
    (h : releaseOrRegister (receivedAsset t.denom packet)
      (isTransferSourceZone t.denom packet.portOnA packet.chanOnA) packet t.amount s =
        .error e s') :
    ¬s.EscrowCovers packet t ∧ s' = s := by
  unfold Base.EscrowCovers
  cases hsource : isTransferSourceZone t.denom packet.portOnA packet.chanOnA with
  | true =>
    rw [hsource] at h
    simp only [releaseOrRegister, decreaseIbcChannelBalance, if_true, mapErr_eq_error,
      bind_eq_error, reads_eq_error, reads_eq_ok, require_eq_error, require_eq_ok, writes_eq_error,
      and_false, exists_false, or_false, false_or] at h
    obtain ⟨e', ⟨_, _, ⟨rfl, rfl⟩, hnone, -, rfl⟩, -⟩ := h
    refine ⟨fun hle => ?_, rfl⟩
    unfold checkedSub at hnone
    rw [if_pos (hle rfl)] at hnone
    cases hnone
  | false =>
    rw [hsource] at h
    simp only [releaseOrRegister, Bool.false_eq_true, if_false, bind_eq_error, reads_eq_error,
      reads_eq_ok, false_or] at h
    obtain ⟨_, _, ⟨rfl, rfl⟩, h⟩ := h
    split_ifs at h
    · rw [pure_eq_error] at h
      exact h.elim
    · rw [writes_eq_error] at h
      exact h.elim

/-- The conditions on the escrow and the credit do not depend on the cached deposit. -/
theorem Base.Does.deposit_only {s r : Base} {d : Option Deposit} (h : s.Does { deposit := d } r)
    (packet : Packet) (t : PacketTransfer) :
    (r.EscrowCovers packet t ↔ s.EscrowCovers packet t) ∧
      (r.CreditFits packet t ↔ s.CreditFits packet t) := by
  have hbal : r.balance = s.balance := h.balance
  have hescrow : r.ibcChannelBalance = s.ibcChannelBalance := h.escrow
  unfold Base.EscrowCovers Base.CreditFits
  rw [hbal, hescrow]
  exact ⟨Iff.rfl, Iff.rfl⟩

omit ext in
/-- A deposit and a release, one after the other. -/
theorem Base.Does.release {s r q : Base} {d : Option Deposit} {p : Posting ChannelId IbcPrefixed}
    (h : s.Does { deposit := d } r) (h' : r.Does { escrow := p } q) :
    s.Does { deposit := d, escrow := p } q := by
  have hbal : r.balance = s.balance := h.balance
  have hescrow : r.ibcChannelBalance = s.ibcChannelBalance := h.escrow
  refine ⟨Eq.trans h'.event h.event, Ledger.fits_empty _ _, h'.balance.trans hbal,
    hescrow ▸ h'.escrowFits, hescrow ▸ h'.escrow, ?_, h'.blockFees.trans h.blockFees,
    h'.transactionContext.trans h.transactionContext⟩
  rw [h'.deposits, h.deposits, Option.toList_none, List.append_nil]

omit ext in
/-- A deposit, a release and then a credit. -/
theorem Base.Does.creditAccount {s q : Base} {d : Option Deposit}
    {p : Posting ChannelId IbcPrefixed} {a : AddressBytes} {i : IbcPrefixed} {n : ℕ}
    (h : s.Does { deposit := d, escrow := p } q) (hle : q.balance a i + n ≤ u128Max) :
    s.Does
      { accounts := { credit := some { account := a, asset := i, amount := n } }
        escrow := p
        deposit := d } (q.putAccountBalance a i (q.balance a i + n)) := by
  have hbal : q.balance = s.balance := h.balance
  rw [hbal] at hle ⊢
  refine ⟨h.event, ⟨fun e he => (Option.not_mem_none _ he).elim, ?_⟩, ?_, h.escrowFits, h.escrow,
    h.deposits, h.blockFees, h.transactionContext⟩
  · rintro e ⟨⟩
    exact hle
  · rw [Base.balance_putAccountBalance_eq, hbal]
    rfl

/-- A transfer that is received credits the recipient with the amount, caches its deposit and
takes the amount from the escrow on the way back to the source zone. -/
theorem receiveTransfer_does {packet : Packet} {t : PacketTransfer} {s s' : Base} {u : Unit}
    (h : receiveTransfer packet t s = .ok u s') :
    s.CanReceive packet t ∧ s.Does (s.receivedEffect packet t) s' := by
  simp only [receiveTransfer, bind_eq_ok, mapErr_eq_ok, increaseBalance_eq_ok] at h
  obtain ⟨_, r, hdep, _, q, hrel, hle, rfl⟩ := h
  obtain ⟨hgiven, rfl⟩ := depositIfBridge_eq_ok.mp hdep
  have hdoes := s.withReceivedDeposit_does packet t
  obtain ⟨hcover, hrelease⟩ := releaseOrRegister_does hrel
  have hq := hdoes.release hrelease
  have hbal : q.balance = s.balance := hq.balance
  refine ⟨⟨hgiven, (hdoes.deposit_only packet t).1.mp hcover, ?_⟩, hq.creditAccount hle⟩
  unfold Base.CreditFits
  rw [← hbal]
  exact hle

/-- A transfer that is not received credits no account; a deposit that it cached stays. -/
theorem receiveTransfer_error {packet : Packet} {t : PacketTransfer} {s s' : Base} {e : Report}
    (h : receiveTransfer packet t s = .error e s') :
    ¬s.CanReceive packet t ∧ s.Does (s.refusedEffect packet t) s' := by
  simp only [receiveTransfer, bind_eq_error] at h
  have hdoes := s.withReceivedDeposit_does packet t
  unfold Base.refusedEffect
  rcases h with hdep | ⟨_, r, hdep, h⟩
  · -- the deposit itself fails: the account is a bridge account without one
    have hgiven : ¬s.DepositGiven packet t := by
      intro hgiven
      rw [depositIfBridge_eq_ok (u := ()).mpr ⟨hgiven, rfl⟩] at hdep
      cases hdep
    obtain rfl := depositIfBridge_error hdep
    have hnone : s'.receivedDeposit packet t = none := by
      unfold Base.DepositGiven at hgiven
      rw [Classical.not_imp, Bool.not_eq_true, Option.isSome_eq_false_iff,
        Option.isNone_iff_eq_none] at hgiven
      exact hgiven.2
    rw [if_neg fun hg => hgiven hg.1, hnone]
    exact ⟨fun hcan => hgiven hcan.1, Base.SameFunds.does rfl⟩
  · obtain ⟨hgiven, rfl⟩ := depositIfBridge_eq_ok.mp hdep
    rcases h with hrel | ⟨_, q, hrel, h⟩
    · obtain ⟨hcover, rfl⟩ := releaseOrRegister_error hrel
      rw [(hdoes.deposit_only packet t).1] at hcover
      rw [if_neg fun hg => hcover hg.2]
      exact ⟨fun hcan => hcover hcan.2.1, hdoes⟩
    · obtain ⟨hcover, hrelease⟩ := releaseOrRegister_does hrel
      rw [(hdoes.deposit_only packet t).1] at hcover
      have hq := hdoes.release hrelease
      have hbal : q.balance = s.balance := hq.balance
      simp only [increaseBalance, mapErr_eq_error, bind_eq_error, reads_eq_error, reads_eq_ok,
        require_eq_error, require_eq_ok, writes_eq_error, and_false, exists_false, or_false,
        false_or] at h
      obtain ⟨_, ⟨_, _, ⟨rfl, rfl⟩, hnone, -, rfl⟩, -⟩ := h
      rw [checkedAdd_eq_none, hbal] at hnone
      rw [if_pos ⟨hgiven, hcover⟩]
      exact ⟨fun hcan => absurd hcan.2.2 (Nat.not_le.mpr hnone), hq⟩

/-! ## Refunds -/

/-- The deposit of a refund: there is one if the packet's memo is one of a withdrawal from a
rollup. -/
def Base.refundDeposit (s : Base) (t : PacketTransfer) : Option Deposit :=
  (ext.parseWithdrawalMemo t.memo).bind fun memo =>
    s.depositFor t.account memo.rollupReturnAddress t.denom t.amount

/-- The escrow of a channel gives the amount that a refund takes back. -/
def refundRelease (packet : Packet) (t : PacketTransfer) : Posting ChannelId IbcPrefixed :=
  { debit :=
      if isRefundSourceZone t.denom packet.portOnA packet.chanOnA then
        some { account := packet.chanOnA, asset := t.denom.toIbcPrefixed, amount := t.amount }
      else none }

/-- The effect of a refund. -/
def Base.refundEffect (s : Base) (packet : Packet) : Effect :=
  match s.packetTransfer FungibleTokenPacketData.sender packet with
  | none => {}
  | some t =>
    { accounts :=
        { credit := some
            { account := t.account.bytes, asset := t.denom.toIbcPrefixed, amount := t.amount } }
      escrow := refundRelease packet t
      deposit := s.refundDeposit t }

theorem depositIfFromRollup_does {t : PacketTransfer} {s s' : Base} {u : Unit}
    (h : depositIfFromRollup t.account t.denom t.amount t.memo s = .ok u s') :
    s.Does { deposit := s.refundDeposit t } s' := by
  unfold depositIfFromRollup at h
  unfold Base.refundDeposit
  cases hm : ext.parseWithdrawalMemo t.memo with
  | none =>
    simp only [hm, pure_eq_ok] at h
    obtain ⟨-, rfl⟩ := h
    exact Base.SameFunds.does rfl
  | some memo =>
    simp only [hm, mapErr_eq_ok, emitDeposit_eq_ok] at h
    obtain ⟨d, hd, rfl⟩ := h
    rw [Option.bind_some, hd]
    exact s.pushDeposit_does d

/-- A refund credits the sender with the amount, caches its deposit and takes the amount from
the escrow if the withdrawal put it there. -/
theorem refundTokens_does {packet : Packet} {s s' : Base} {u : Unit}
    (h : refundTokens packet s = .ok u s') : s.Does (s.refundEffect packet) s' := by
  simp only [refundTokens, parseRefunded, refundTokensToSequencerAddress, bind_eq_ok,
    parsePacketTransfer_eq_ok, mapErr_eq_ok, and_assoc, exists_and_left, exists_eq_left] at h
  obtain ⟨t, ht, _, r, hdep, h⟩ := h
  have hdoes := depositIfFromRollup_does hdep
  simp only [Base.refundEffect, ht, refundRelease]
  split_ifs at h ⊢ with hsource
  · simp only [bind_eq_ok, mapErr_eq_ok, decreaseIbcChannelBalance_eq_ok, increaseBalance_eq_ok,
      and_assoc, exists_and_left, exists_eq_left, exists_const] at h
    obtain ⟨hcover, hle, rfl⟩ := h
    refine (hdoes.release ?_).creditAccount hle
    refine ⟨rfl, Ledger.fits_empty _ _, rfl, ⟨?_, ?_⟩, ?_, by simp; rfl, rfl, rfl⟩
    · rintro e ⟨⟩
      exact hcover
    · rintro e ⟨⟩
    · exact Base.ibcChannelBalance_putIbcChannelBalance_eq _ _ _ _
  · simp only [mapErr_eq_ok, increaseBalance_eq_ok] at h
    obtain ⟨hle, rfl⟩ := h
    exact (hdoes.release (Base.SameFunds.does rfl)).creditAccount hle

/-! ## Withdrawals -/

/-- The account that a withdrawal takes from. -/
def Ics20Withdrawal.target (act : Ics20Withdrawal) (source : AddressBytes) : AddressBytes :=
  (act.bridgeAddress.map (·.bytes)).getD source

/-- The withdrawal event of a withdrawal from a bridge account. -/
def Ics20Withdrawal.event (act : Ics20Withdrawal) : Option (AddressBytes × String) :=
  match act.bridgeAddress, ext.parseWithdrawalMemo act.memo with
  | some bridgeAddress, some memo => some (bridgeAddress.bytes, memo.rollupWithdrawalEventId)
  | _, _ => none

theorem checkWithdrawalMemo_does {act : Ics20Withdrawal} {s s' : Base} {u : Unit}
    (h : checkWithdrawalMemo act s = .ok u s') :
    s.Does { event := Ics20Withdrawal.event act } s' ∧
      s'.bridge.rollupId = s.bridge.rollupId ∧
      s'.bridge.withdrawerAddress = s.bridge.withdrawerAddress := by
  have hdeposits (q : Base) : q.ephemeral.deposits =
      q.ephemeral.deposits ++ (none : Option Deposit).toList := by simp
  unfold checkWithdrawalMemo at h
  unfold Ics20Withdrawal.event
  cases hb : act.bridgeAddress with
  | none =>
    simp only [hb, pure_eq_ok] at h
    obtain ⟨-, rfl⟩ := h
    exact ⟨Base.SameFunds.does rfl, rfl, rfl⟩
  | some bridgeAddress =>
    simp only [hb, bind_eq_ok, mapErr_eq_ok, ensureBasePrefix_eq_ok, require_eq_ok,
      checkAndSetWithdrawalEvent_eq_ok, and_assoc, exists_and_left, exists_eq_left,
      exists_const] at h
    obtain ⟨-, memo, hmemo, hnone, rfl⟩ := h
    rw [hmemo]
    refine ⟨⟨⟨hnone, memo.rollupBlockNumber, fun b j => ?_⟩, Ledger.fits_empty _ _, rfl,
      Ledger.fits_empty _ _, rfl, hdeposits _, rfl, rfl⟩, rfl, rfl⟩
    exact Base.withdrawalEvent_putWithdrawalEvent _ _ _ _ _ _

omit ext in
theorem establishWithdrawalTarget_ok {act : Ics20Withdrawal} {source target : AddressBytes}
    {s s' : Base} (h : establishWithdrawalTarget act source s = .ok target s') :
    s' = s ∧ target = Ics20Withdrawal.target act source ∧
      (act.bridgeAddress = none → s.bridge.rollupId source = none) ∧
      ∀ b ∈ act.bridgeAddress, s.bridge.withdrawerAddress b.bytes = some source := by
  unfold establishWithdrawalTarget at h
  unfold Ics20Withdrawal.target
  cases hb : act.bridgeAddress with
  | none =>
    simp only [hb, bind_eq_ok, reads_eq_ok, ensure_eq_ok, pure_eq_ok, Base.isABridgeAccount,
      and_assoc, exists_and_left, exists_eq_left, exists_const, Option.isSome_eq_false_iff,
      Option.isNone_iff_eq_none] at h
    obtain ⟨hid, rfl, rfl⟩ := h
    exact ⟨rfl, rfl, fun _ => hid, by simp⟩
  | some b =>
    simp only [hb, bind_eq_ok, reads_eq_ok, require_eq_ok, ensure_eq_ok, pure_eq_ok, and_assoc,
      exists_and_left, exists_eq_left, exists_const] at h
    obtain ⟨w, hw, rfl, rfl, rfl⟩ := h
    refine ⟨rfl, rfl, by simp, fun b' hb' => ?_⟩
    rw [Option.mem_some_iff] at hb'
    exact hb' ▸ hw

theorem createIbcPacket_state {act : Ics20Withdrawal} {s s' : Base} {packet : IbcPacket}
    (h : createIbcPacket act s = .ok packet s') : s' = s := by
  have hsender : Keeps Eq (packetSender act) := by
    refine Keeps.ite ?_ (by simp)
    exact Keeps.bind (by simp) fun _ => Keeps.bind (by simp) fun _ => by simp
  have hkeeps : Keeps Eq (createIbcPacket act) := Keeps.bind hsender fun _ => by simp
  exact (hkeeps.of_ok h).symm

/-- The escrow of a channel takes the amount of a withdrawal, unless it is burned. -/
def Ics20Withdrawal.escrowPosting (act : Ics20Withdrawal) : Posting ChannelId IbcPrefixed :=
  { credit :=
      if isSource transferPort act.sourceChannel act.denom then
        some
          { account := act.sourceChannel
            asset := act.denom.toIbcPrefixed
            amount := act.amount }
      else none }

theorem escrow_does {act : Ics20Withdrawal} {s s' : Base} {u : Unit}
    (h : escrow act s = .ok u s') :
    s.Does { escrow := Ics20Withdrawal.escrowPosting act } s' ∧ s'.bridge = s.bridge := by
  unfold escrow at h
  unfold Ics20Withdrawal.escrowPosting
  split_ifs at h ⊢
  · simp only [bind_eq_ok, reads_eq_ok, require_eq_ok, checkedAdd_eq_some, writes_eq_ok, and_assoc,
      exists_and_left, exists_eq_left] at h
    obtain ⟨hle, rfl⟩ := h
    refine ⟨⟨rfl, Ledger.fits_empty _ _, rfl, ⟨?_, ?_⟩, ?_, by simp; rfl, rfl, rfl⟩, rfl⟩
    · rintro e ⟨⟩
    · rintro e ⟨⟩
      exact hle
    · exact Base.ibcChannelBalance_putIbcChannelBalance_eq _ _ _ _
  · rw [pure_eq_ok] at h
    obtain ⟨-, rfl⟩ := h
    exact ⟨Base.SameFunds.does rfl, rfl⟩

/-- The effect of a withdrawal signed by `source`. -/
def Ics20Withdrawal.effect (act : Ics20Withdrawal) (source : AddressBytes) : Effect :=
  { event := Ics20Withdrawal.event act
    accounts :=
      { debit := some
          { account := Ics20Withdrawal.target act source
            asset := act.denom.toIbcPrefixed
            amount := act.amount } }
    escrow := Ics20Withdrawal.escrowPosting act }

/-- A successful withdrawal takes the amount from the signer, who is no bridge account, or
from a bridge account for its withdrawer under a withdrawal event that is new. -/
theorem Ics20Withdrawal.checkAndExecute_does {act : Ics20Withdrawal} {s s' : Base} {u : Unit}
    (h : Ics20Withdrawal.checkAndExecute act s = .ok u s') :
    ∃ c, s.ephemeral.transactionContext = some c ∧
      (∀ b ∈ act.bridgeAddress, s.bridge.withdrawerAddress b.bytes = some c.addressBytes) ∧
      s.Does (Ics20Withdrawal.effect act c.addressBytes) s' := by
  simp only [Ics20Withdrawal.checkAndExecute, bind_eq_ok, getTransactionContext_eq_ok, reads_eq_ok,
    mapErr_eq_ok, ensureBasePrefix_eq_ok, tryReads_eq_ok, decreaseBalance_eq_ok, and_assoc,
    exists_and_left, exists_eq_left, exists_const] at h
  obtain ⟨c, hc, -, _, t, hmemo, target, t', htarget, timestamp, -, packet, t'', hpacket, _, -, hle,
    _, r, hescrow, hsend⟩ := h
  obtain ⟨hevent, -, hwithdrawer⟩ := checkWithdrawalMemo_does hmemo
  obtain ⟨rfl, rfl, -, hsome⟩ := establishWithdrawalTarget_ok htarget
  obtain rfl := createIbcPacket_state hpacket
  obtain ⟨hesc, hbridge⟩ := escrow_does hescrow
  have hbal : t''.balance = s.balance := hevent.balance
  have hchan : t''.ibcChannelBalance = s.ibcChannelBalance := hevent.escrow
  rw [hbal] at hle hesc
  have hmid : s.Does (Ics20Withdrawal.effect act c.addressBytes) r := by
    refine ⟨?_, ⟨?_, ?_⟩, ?_, hchan ▸ hesc.escrowFits, hchan ▸ hesc.escrow, ?_, ?_, ?_⟩
    · have hw : r.withdrawalEvent = t''.withdrawalEvent := hesc.event
      have := hevent.event
      unfold Base.RecordsEvent at this ⊢
      rw [hw]
      exact this
    · rintro e ⟨⟩
      exact hle
    · rintro e ⟨⟩
    · rw [hesc.balance, Base.balance_putAccountBalance_eq, hbal]
      rfl
    · rw [hesc.deposits]
      exact (List.append_nil _).trans hevent.deposits
    · exact hesc.blockFees.trans hevent.blockFees
    · exact hesc.transactionContext.trans hevent.transactionContext
  exact ⟨c, hc, fun b hb => hwithdrawer ▸ hsome b hb,
    Base.Does.of_sameFunds rfl hmid ((sameFunds_writeIbc _).of_ok hsend)⟩

/-! ## Relayed messages -/

/-- The effect of a relayed message. -/
def IbcRelay.effect (s : Base) : IbcRelay → Effect
  | .recvPacket packet _ =>
    match s.packetTransfer FungibleTokenPacketData.receiver packet with
    | none => {}
    | some t =>
      if s.CanReceive packet t then s.receivedEffect packet t else s.refusedEffect packet t
  | .acknowledgement packet bytes _ =>
    match ext.parseAcknowledgement bytes with
    | some (.error _) => s.refundEffect packet
    | _ => {}
  | .timeout packet _ => s.refundEffect packet
  | .channel _ _ | .other _ => {}

/-- A relayed message debits no account. -/
theorem IbcRelay.effect_debit (s : Base) (msg : IbcRelay) :
    (IbcRelay.effect s msg).accounts.debit = none := by
  cases msg with
  | recvPacket packet proof =>
    simp only [IbcRelay.effect]
    cases s.packetTransfer FungibleTokenPacketData.receiver packet with
    | none => rfl
    | some t =>
      simp only
      split_ifs <;> rfl
  | acknowledgement packet bytes proof =>
    simp only [IbcRelay.effect, Base.refundEffect]
    split
    · cases s.packetTransfer FungibleTokenPacketData.sender packet <;> rfl
    · rfl
  | timeout packet proof =>
    simp only [IbcRelay.effect, Base.refundEffect]
    cases s.packetTransfer FungibleTokenPacketData.sender packet <;> rfl
  | channel handshake raw => rfl
  | other raw => rfl

namespace Base.SameFunds

variable {s t : Base}

theorem packetTransfer (h : s.SameFunds t) (party : FungibleTokenPacketData → String) :
    t.packetTransfer party = s.packetTransfer party := by
  unfold Base.packetTransfer
  rw [h.prefixes, h.assets]

theorem depositFor (h : s.SameFunds t) : t.depositFor = s.depositFor := by
  unfold Base.depositFor
  rw [h.bridge, h.transactionContext]

theorem receivedDeposit (h : s.SameFunds t) : t.receivedDeposit = s.receivedDeposit := by
  unfold Base.receivedDeposit Base.isABridgeAccount
  rw [h.depositFor, h.bridge]

theorem refundDeposit (h : s.SameFunds t) : t.refundDeposit = s.refundDeposit := by
  unfold Base.refundDeposit
  rw [h.depositFor]

theorem canReceive (h : s.SameFunds t) : t.CanReceive = s.CanReceive := by
  unfold Base.CanReceive Base.DepositGiven Base.EscrowCovers Base.CreditFits Base.isABridgeAccount
  rw [h.ibcChannelBalance, h.balance, h.receivedDeposit, h.bridge]

theorem receivedEffect (h : s.SameFunds t) : t.receivedEffect = s.receivedEffect := by
  unfold Base.receivedEffect
  rw [h.receivedDeposit]

theorem refusedEffect (h : s.SameFunds t) (packet : Packet) (x : PacketTransfer) :
    t.refusedEffect packet x = s.refusedEffect packet x := by
  have hgiven : t.DepositGiven packet x ↔ s.DepositGiven packet x := by
    unfold Base.DepositGiven Base.isABridgeAccount
    rw [h.receivedDeposit, h.bridge]
  have hcovers : t.EscrowCovers packet x ↔ s.EscrowCovers packet x := by
    unfold Base.EscrowCovers
    rw [h.ibcChannelBalance]
  unfold Base.refusedEffect
  rw [h.receivedDeposit, if_congr (and_congr hgiven hcovers) rfl rfl]

theorem refundEffect (h : s.SameFunds t) : t.refundEffect = s.refundEffect := by
  unfold Base.refundEffect
  rw [h.packetTransfer, h.refundDeposit]

end Base.SameFunds

/-- A received packet is credited or refused; in both cases it is acknowledged. -/
theorem recvPacketExecute_does {packet : Packet} {proof : Bytes} {s t s' : Base} {u : Unit}
    (hst : s.SameFunds t) (h : recvPacketExecute packet t = .ok u s') :
    s.Does (IbcRelay.effect s (.recvPacket packet proof)) s' := by
  simp only [recvPacketExecute, bind_eq_ok, reads_eq_ok, mapErr_eq_ok, and_assoc, exists_and_left,
    exists_eq_left, attempt_eq_ok] at h
  obtain ⟨result, r, hreceive, hack⟩ := h
  have hrs : r.SameFunds s' := (sameFunds_onIbc _).of_ok hack
  refine Base.Does.of_sameFunds hst ?_ hrs
  simp only [IbcRelay.effect]
  rw [← hst.packetTransfer]
  simp only [receiveTokens, bind_eq_ok, bind_eq_error, parseReceived,
    parsePacketTransfer_eq_ok] at hreceive
  rcases hreceive with ⟨_, ⟨x, _, ⟨hx, rfl⟩, hreceive⟩, -⟩ | ⟨e, hparse | ⟨x, _, ⟨hx, rfl⟩, herr⟩, -⟩
  · obtain ⟨hcan, hdoes⟩ := receiveTransfer_does hreceive
    rw [hst.canReceive] at hcan
    rw [hst.receivedEffect] at hdoes
    simp only [hx, if_pos hcan]
    exact hdoes
  · -- the packet describes no transfer
    have hnone : t.packetTransfer FungibleTokenPacketData.receiver packet = none := by
      rw [Option.eq_none_iff_forall_not_mem]
      intro x hx
      rw [parsePacketTransfer_eq_ok.mpr ⟨hx, Eq.refl t⟩] at hparse
      cases hparse
    obtain rfl : t = r := (parsePacketTransfer_keeps _ _ _ _).of_error hparse
    rw [hnone]
    exact Base.SameFunds.does rfl
  · obtain ⟨hcan, hdoes⟩ := receiveTransfer_error herr
    rw [hst.canReceive] at hcan
    rw [hst.refusedEffect] at hdoes
    simp only [hx, if_neg hcan]
    exact hdoes

theorem refundTokensCheck_state {packet : Packet} {s s' : Base} {u : Unit}
    (h : refundTokensCheck packet s = .ok u s') : s' = s := by
  have hkeeps : Keeps Eq (refundTokensCheck packet) := by
    refine Keeps.bind (by simp) fun _ => Keeps.bind ((parseAsset_keeps _).mapErr _) fun _ => ?_
    refine Keeps.ite ?_ (by simp)
    exact Keeps.bind (by simp) fun _ => Keeps.bind (by simp) fun _ => by simp
  exact (hkeeps.of_ok h).symm

/-- A relayed message that succeeds has its effect. -/
theorem executeIbcRelay_does {msg : IbcRelay} {s s' : Base} {u : Unit}
    (h : executeIbcRelay msg s = .ok u s') : s.Does (IbcRelay.effect s msg) s' := by
  unfold executeIbcRelay at h
  rw [bind_eq_ok] at h
  obtain ⟨host, t, hhost, h⟩ := h
  rw [reads_eq_ok] at hhost
  obtain ⟨-, rfl⟩ := hhost
  cases msg with
  | channel handshake message =>
    simp only [bind_eq_ok, lift_eq_ok, and_assoc, exists_and_left, exists_eq_left] at h
    obtain ⟨_, -, h⟩ := h
    exact ((sameFunds_onIbc _).of_ok h).does
  | other message => exact ((sameFunds_onIbc _).of_ok h).does
  | recvPacket packet proof =>
    simp only [bind_eq_ok, lift_eq_ok, and_assoc, exists_and_left, exists_eq_left] at h
    obtain ⟨_, -, _, r, hhandle, h⟩ := h
    exact recvPacketExecute_does ((sameFunds_onIbc _).of_ok hhandle) h
  | timeout packet proof =>
    simp only [bind_eq_ok, mapErr_eq_ok] at h
    obtain ⟨_, r, hcheck, _, q, hhandle, h⟩ := h
    obtain rfl := refundTokensCheck_state hcheck
    have hst : r.SameFunds q := (sameFunds_onIbc _).of_ok hhandle
    have hdoes := refundTokens_does h
    rw [hst.refundEffect] at hdoes
    exact Base.Does.of_sameFunds hst hdoes rfl
  | acknowledgement packet bytes proof =>
    simp only [bind_eq_ok, require_eq_ok, and_assoc, exists_and_left, exists_eq_left] at h
    obtain ⟨ack, hack, h⟩ := h
    simp only [IbcRelay.effect, hack]
    cases ack with
    | success =>
      simp only [acknowledgePacketExecute, bind_eq_ok, pure_eq_ok] at h
      obtain ⟨_, r, hhandle, -, rfl⟩ := h
      exact ((sameFunds_onIbc _).of_ok hhandle).does
    | error message =>
      simp only [acknowledgePacketExecute, bind_eq_ok, mapErr_eq_ok] at h
      obtain ⟨_, r, hcheck, _, q, hhandle, h⟩ := h
      obtain rfl := refundTokensCheck_state hcheck
      have hst : r.SameFunds q := (sameFunds_onIbc _).of_ok hhandle
      have hdoes := refundTokens_does h
      rw [hst.refundEffect] at hdoes
      exact Base.Does.of_sameFunds hst hdoes rfl

end

end Astria.Sequencer
