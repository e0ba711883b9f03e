import Astria.Sequencer.ActionHandler.Ics20Spec
import Astria.Sequencer.TestUtils

/-!
# Refused packets

A packet whose transfer fails is acknowledged with an error, so that the other chain refunds it.  The writes
of `receive_tokens` before the failure are not taken back.

Results:
* `receiveTokens_error`: what a refused packet does to the funds;
* `recvPacketExecute_keepsFunds_iff`: it leaves the balances, the escrows and the deposits exactly if it
  cached no deposit and released nothing;
* `TestRefusal.refusedPacket_leavesDeposit`: a deposit may be left.
-/

namespace Astria.Sequencer

open Astria.Core Astria.Lib Exec

section

variable [ext : External]

/-! ## Specification -/

/-- The balances of all accounts, the escrows of all channels and the deposits of the block are as they
were. -/
structure Base.KeepsFunds (s s' : Base) : Prop where
  balance : s'.balance = s.balance
  escrow : s'.ibcChannelBalance = s.ibcChannelBalance
  deposits : s'.ephemeral.deposits = s.ephemeral.deposits

/-- The writes of a transfer before its credit change the funds: its deposit is cached, or a positive amount
leaves the escrow of the channel. -/
def Base.WritesFirst (s : Base) (packet : Packet) (t : PacketTransfer) : Prop :=
  (s.receivedDeposit packet t).isSome = true ∨
    s.DepositGiven packet t ∧ isTransferSourceZone t.denom packet.portOnA packet.chanOnA = true ∧
      s.EscrowCovers packet t ∧ 0 < t.amount

/-! ## What a refused packet leaves -/

/-- The acknowledgement of a packet that is refused is written on what the failure has left. -/
theorem recvPacketExecute_acknowledges {packet : Packet} {s r : Base} {e : Report}
    (h : receiveTokens packet s = .error e r) :
    ∃ message, recvPacketExecute packet s =
      wrapErr "failed to write acknowledgement" (onIbc (ext.ibcWriteAcknowledgement packet
        (ext.serializeAcknowledgement (.error message)))) r := by
  have hattempt : attempt (receiveTokens packet) s = .ok (.error e) r :=
    attempt_eq_ok.mpr (Or.inr ⟨e, h, rfl⟩)
  refine ⟨if s.useNewErrorFormat then "ics20 transfer failed" else displayReport e, ?_⟩
  unfold recvPacketExecute
  rw [bind_of_ok (reads_eq_ok.mpr ⟨rfl, rfl⟩), bind_of_ok hattempt]

/-- A packet that is refused describes no transfer and changes nothing, or its transfer cannot be received
and has the effect of what went before its failure. -/
theorem receiveTokens_error {packet : Packet} {s r : Base} {e : Report}
    (h : receiveTokens packet s = .error e r) :
    s.packetTransfer FungibleTokenPacketData.receiver packet = none ∧ r = s ∨
      ∃ t, s.packetTransfer FungibleTokenPacketData.receiver packet = some t ∧
        ¬s.CanReceive packet t ∧ s.Does (s.refusedEffect packet t) r := by
  simp only [receiveTokens, bind_eq_error, parseReceived, parsePacketTransfer_eq_ok] at h
  rcases h with hparse | ⟨t, _, ⟨ht, rfl⟩, herror⟩
  · have hnone : s.packetTransfer FungibleTokenPacketData.receiver packet = none := by
      rw [Option.eq_none_iff_forall_not_mem]
      intro t ht
      rw [parsePacketTransfer_eq_ok.mpr ⟨ht, Eq.refl s⟩] at hparse
      cases hparse
    exact Or.inl ⟨hnone, ((parsePacketTransfer_keeps _ _ _ _).of_error hparse).symm⟩
  · exact Or.inr ⟨t, ht, receiveTransfer_error herror⟩

/-- The effect of a transfer that is refused leaves the funds exactly if no write before its credit changes
them. -/
theorem Base.Does.keepsFunds_iff {packet : Packet} {t : PacketTransfer} {s s' : Base}
    (h : s.Does (s.refusedEffect packet t) s') : s.KeepsFunds s' ↔ ¬s.WritesFirst packet t := by
  have hbalance : s'.balance = s.balance := h.balance
  have hdeposits : s'.ephemeral.deposits =
      s.ephemeral.deposits ++ (s.receivedDeposit packet t).toList := h.deposits
  have hkept : s'.ephemeral.deposits = s.ephemeral.deposits ↔
      ¬(s.receivedDeposit packet t).isSome = true := by
    rw [hdeposits, List.append_right_eq_self]
    cases s.receivedDeposit packet t <;> simp
  have hescrow : s'.ibcChannelBalance = s.ibcChannelBalance ↔
      ¬(s.DepositGiven packet t ∧ isTransferSourceZone t.denom packet.portOnA packet.chanOnA = true ∧
        s.EscrowCovers packet t ∧ 0 < t.amount) := by
    have hpost := h.escrow
    have hfits := h.escrowFits
    unfold Base.refusedEffect receivedRelease at hpost hfits
    by_cases hwritten : s.DepositGiven packet t ∧ s.EscrowCovers packet t
    · rw [if_pos hwritten] at hpost hfits
      cases hzone : isTransferSourceZone t.denom packet.portOnA packet.chanOnA with
      | true =>
        simp only [hzone, if_true] at hpost hfits
        rw [hpost, Ledger.post_debit_eq_self_iff hfits]
        simp [hwritten.1, hwritten.2]
      | false =>
        simp only [hzone, Bool.false_eq_true, if_false] at hpost
        simp [hpost]
    · rw [if_neg hwritten] at hpost
      simp only [Ledger.post_empty] at hpost
      simp only [hpost, true_iff]
      rintro ⟨hgiven, -, hcovers, -⟩
      exact hwritten ⟨hgiven, hcovers⟩
  unfold Base.WritesFirst
  rw [not_or, ← hkept, ← hescrow]
  constructor
  · rintro ⟨-, hescrows, hcached⟩
    exact ⟨hcached, hescrows⟩
  · rintro ⟨hcached, hescrows⟩
    exact ⟨hbalance, hescrows, hcached⟩

/-- A packet that is acknowledged with an error leaves the funds exactly if no write of its transfer before
the credit changes them. -/
theorem recvPacketExecute_keepsFunds_iff {packet : Packet} {s r : Base} {e : Report}
    (h : receiveTokens packet s = .error e r) :
    s.KeepsFunds (final (recvPacketExecute packet s)) ↔
      ∀ t, s.packetTransfer FungibleTokenPacketData.receiver packet = some t →
        ¬s.WritesFirst packet t := by
  obtain ⟨message, hack⟩ := recvPacketExecute_acknowledges h
  have hsame : r.SameFunds (final (recvPacketExecute packet s)) := by
    rw [hack]
    exact (sameFunds_onIbc _).mapErr _ r
  rcases receiveTokens_error h with ⟨hnone, rfl⟩ | ⟨t, ht, -, hdoes⟩
  · rw [hnone]
    refine iff_of_true ⟨hsame.balance, hsame.ibcChannelBalance, hsame.deposits⟩ ?_
    exact fun t ht => nomatch ht
  · rw [ht, (Base.Does.of_sameFunds (refl_of Base.SameFunds s) hdoes hsame).keepsFunds_iff]
    constructor
    · rintro hkept t' ⟨⟩
      exact hkept
    · exact fun hkept => hkept t rfl

end

/-! ## Two packets that the escrow does not cover -/

namespace TestRefusal

open TestUtils

/-- The packet brings 5 units back that were never sent. -/
def packetData (receiver : Address) (memo : String) : FungibleTokenPacketData :=
  { denom := "transfer/channel-0/nria"
    amount := "5"
    sender := "sender"
    receiver := encodeBech32 bech32m "astria" receiver.bytes.toList
    memo := memo }

/-- The memo of a deposit: a JSON object. -/
def depositMemo : String := "\x7b\"rollupDepositAddress\":\"rollup\"\x7d"

/-- The JSON form of the data of a packet to bob's bridge account, in which the quotes of the memo are
escaped. -/
def bobPacketBytes : Bytes :=
  serializePacketData
    (packetData bobAddress "\x7b\\\"rollupDepositAddress\\\":\\\"rollup\\\"\x7d")

/-- The external functions, with a memo that is a deposit's. -/
scoped instance : External :=
  { (inferInstance : External) with
    parsePacketData := fun bytes =>
      if bytes = bobPacketBytes then some (packetData bobAddress depositMemo)
      else parsePacketData bytes
    parseDepositMemo := fun memo =>
      if memo = depositMemo then some { rollupDepositAddress := "rollup" } else none }

/-- A packet with this data. -/
def packet (data : Bytes) : Packet :=
  { sequence := 1
    portOnA := "transfer"
    chanOnA := "channel-0"
    portOnB := "transfer"
    chanOnB := "channel-0"
    data := data
    timeoutHeight := { revisionNumber := 0, revisionHeight := 0 }
    timeoutTime := 1 }

/-- The state in which carol relays a packet: bob has a bridge account. -/
def relaying : Base :=
  (after (initBridge bobKey) genesis).base.putTransactionContext
    { addressBytes := carolAddress.bytes
      transactionId := List.Vector.replicate 32 0
      positionInTransaction := 0 }

/-- What `receive_tokens` does with the packet of this data. -/
def received (data : Bytes) : EStateM.Result Report Base Unit := receiveTokens (packet data) relaying

theorem received_eq_error {data : Bytes} (h : isOk (received data) = false) :
    ∃ e r, received data = .error e r := by
  cases hrun : received data with
  | ok u r =>
    rw [hrun] at h
    cases h
  | error e r => exact ⟨e, r, rfl⟩

/-- A packet to carol, who has no bridge account. -/
def carolPacketBytes : Bytes := serializePacketData (packetData carolAddress "")

set_option maxRecDepth 10000 in
/-- The packet to carol is refused and leaves the funds. -/
theorem recvPacketExecute_keepsFunds_carol :
    isOk (received carolPacketBytes) = false ∧
      relaying.KeepsFunds (final (recvPacketExecute (packet carolPacketBytes) relaying)) := by
  have hrefused : isOk (received carolPacketBytes) = false := by decide +kernel
  obtain ⟨e, r, herror⟩ := received_eq_error hrefused
  refine ⟨hrefused, (recvPacketExecute_keepsFunds_iff herror).mpr ?_⟩
  intro t ht
  have htransfer : relaying.packetTransfer FungibleTokenPacketData.receiver (packet carolPacketBytes) =
      some
        { account := carolAddress
          amount := 5
          denom := { trace := [⟨"transfer", "channel-0"⟩], baseDenom := "nria" }
          memo := "" } := by decide +kernel
  obtain rfl := Option.some.inj (htransfer.symm.trans ht)
  rintro (hdeposit | ⟨-, -, hcovers, -⟩)
  · revert hdeposit
    decide +kernel
  · revert hcovers
    decide +kernel

set_option maxRecDepth 10000 in
/-- The packet to bob's bridge account is refused, as the escrow of its channel is empty, and the deposit of
its amount stays. -/
theorem refusedPacket_leavesDeposit :
    (∃ e r, receiveTokens (packet bobPacketBytes) relaying = .error e r) ∧
      relaying.ibcChannelBalance "channel-0" nria.toIbcPrefixed = 0 ∧
      (final (recvPacketExecute (packet bobPacketBytes) relaying)).ephemeral.deposits.length =
        relaying.ephemeral.deposits.length + 1 ∧
      ¬relaying.KeepsFunds (final (recvPacketExecute (packet bobPacketBytes) relaying)) := by
  have hrefused : isOk (received bobPacketBytes) = false := by decide +kernel
  have hdeposits : (final (recvPacketExecute (packet bobPacketBytes) relaying)).ephemeral.deposits.length =
      relaying.ephemeral.deposits.length + 1 := by decide +kernel
  refine ⟨received_eq_error hrefused, by decide +kernel, hdeposits, fun hkept => ?_⟩
  rw [hkept.deposits] at hdeposits
  omega

end TestRefusal

end Astria.Sequencer
