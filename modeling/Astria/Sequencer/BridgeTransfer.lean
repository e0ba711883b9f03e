import Astria.Sequencer.Effects
import Astria.Sequencer.Run

/-!
# Transfers between bridge accounts

A bridge transfer is put together from the checks of an unlock and the execution of a lock.  The message
names the account to transfer from, but a lock takes the funds of the signer.

Results:
* `BridgeTransfer.checkAndExecute_moves`: a successful bridge transfer moves its amount from the signer
  and caches one deposit;
* `BridgeTransfer.transfersBetween_iff`: it moves it from the account that it names exactly if this is
  the signer's;
* `bridgeTransfer_paidBySigner`: it may be paid by an account that it does not name.
-/

namespace Astria.Sequencer

open Astria.Core Astria.Lib Exec

section

variable [ext : External]

/-! ## Specification -/

/-- Exactly one deposit of an amount to a bridge account was cached. -/
def Base.CachesOne (toAddress : Address) (amount : ℕ) (s s' : Base) : Prop :=
  ∃ d, s'.ephemeral.deposits = s.ephemeral.deposits ++ [d] ∧ d.bridgeAddress = toAddress ∧
    d.amount = amount

/-- The amount of a bridge transfer has moved, in the asset of the bridge account that it names, from this
account to the other one and no other balance has changed, and one deposit of it was cached. -/
structure BridgeTransfer.TransfersBetween (act : BridgeTransfer) (s s' : Base) : Prop where
  balances : ∃ asset, s.bridge.ibcAsset act.bridgeAddress.bytes = some asset ∧
    Ledger.Moved act.bridgeAddress.bytes act.toAddress.bytes asset act.amount s.balance s'.balance
  deposit : s.CachesOne act.toAddress act.amount s'

/-! ## The effect of a bridge transfer -/

/-- A successful bridge transfer takes its amount from the signer. -/
theorem BridgeTransfer.checkAndExecute_moves {act : BridgeTransfer} {s s' : Base} {u : Unit}
    {c : TransactionContext} (hc : s.ephemeral.transactionContext = some c)
    (h : BridgeTransfer.checkAndExecute act s = .ok u s') :
    ∃ asset, s.bridge.ibcAsset act.bridgeAddress.bytes = some asset ∧
      Ledger.Moved c.addressBytes act.toAddress.bytes asset act.amount s.balance s'.balance ∧
      s.CachesOne act.toAddress act.amount s' := by
  obtain ⟨asset, hasset, -, -, hlock⟩ := BridgeTransfer.checkAndExecute_eq_ok h
  obtain ⟨c', rollupId, trace, hc', -, -, -, hmove, rfl⟩ := executeBridgeLock_eq_ok hlock
  obtain rfl : c = c' := Option.some.inj (hc.symm.trans hc')
  refine ⟨asset, hasset, ?_, lockDeposit (BridgeTransfer.lock act asset) c rollupId trace, rfl, rfl, rfl⟩
  have hdoes := Base.move_does hmove
  have hmoved := Ledger.moved_post hdoes.fits
  rw [← hdoes.balance] at hmoved
  exact hmoved

/-- A successful bridge transfer moves its amount from the bridge account that it names exactly if that
account is the signer's. -/
theorem BridgeTransfer.transfersBetween_iff {act : BridgeTransfer} {s s' : Base} {u : Unit}
    {c : TransactionContext} (hc : s.ephemeral.transactionContext = some c)
    (h : BridgeTransfer.checkAndExecute act s = .ok u s') :
    BridgeTransfer.TransfersBetween act s s' ↔
      c.addressBytes = act.bridgeAddress.bytes ∨ act.amount = 0 := by
  obtain ⟨asset, hasset, hmoved, hdeposit⟩ := BridgeTransfer.checkAndExecute_moves hc h
  have hsource : Ledger.Moved act.bridgeAddress.bytes act.toAddress.bytes asset act.amount s.balance
      s'.balance ↔ c.addressBytes = act.bridgeAddress.bytes ∨ act.amount = 0 := hmoved.source_iff
  rw [← hsource]
  constructor
  · rintro ⟨⟨asset', hasset', hmoved'⟩, -⟩
    obtain rfl : asset = asset' := Option.some.inj (hasset.symm.trans hasset')
    exact hmoved'
  · intro hmoved'
    exact ⟨⟨asset, hasset, hmoved'⟩, hdeposit⟩

end

section

open TestUtils

/-- A bridge transfer of 5 from bob's bridge account to alice's. -/
def fromBob : BridgeTransfer :=
  { toAddress := aliceAddress
    amount := 5
    feeAsset := .tracePrefixed nria
    destinationChainAddress := "rollup"
    bridgeAddress := bobAddress
    rollupBlockNumber := 1
    rollupWithdrawalEventId := "e" }

/-- The context of the only action of a transaction. -/
def signedBy (address : Address) : TransactionContext :=
  { addressBytes := address.bytes
    transactionId := List.Vector.replicate 32 0
    positionInTransaction := 0 }

/-- The bridge transfer is executed for a signer. -/
def transferBy (address : Address) : EStateM.Result Report Base Unit :=
  BridgeTransfer.checkAndExecute fromBob (bridges.base.putTransactionContext (signedBy address))

set_option maxRecDepth 10000 in
/-- Signed by bob, the bridge transfer takes the amount from bob's bridge account. -/
theorem transfersBetween_iff_bob :
    transferBy bobAddress = .ok () (final (transferBy bobAddress)) ∧
      BridgeTransfer.TransfersBetween fromBob
        (bridges.base.putTransactionContext (signedBy bobAddress)) (final (transferBy bobAddress)) := by
  have hok : transferBy bobAddress = .ok () (final (transferBy bobAddress)) :=
    eq_ok_of_isOk (by decide +kernel)
  exact ⟨hok, (BridgeTransfer.transfersBetween_iff (c := signedBy bobAddress) rfl hok).mpr (Or.inl rfl)⟩

set_option maxRecDepth 10000 in
/-- Signed by carol, it takes the amount from carol's account: the balance of bob's bridge account stays as
it is, while alice's bridge account gets the amount and its deposit. -/
theorem bridgeTransfer_paidBySigner :
    Run withoutUpgrades [] bridges ∧
      transferBy carolAddress = .ok () (final (transferBy carolAddress)) ∧
      (final (transferBy carolAddress)).balance bobAddress.bytes nria.toIbcPrefixed =
        bridges.base.balance bobAddress.bytes nria.toIbcPrefixed ∧
      ¬BridgeTransfer.TransfersBetween fromBob
        (bridges.base.putTransactionContext (signedBy carolAddress))
        (final (transferBy carolAddress)) := by
  have hok : transferBy carolAddress = .ok () (final (transferBy carolAddress)) :=
    eq_ok_of_isOk (by decide +kernel)
  have hkept : (final (transferBy carolAddress)).balance bobAddress.bytes nria.toIbcPrefixed =
      bridges.base.balance bobAddress.bytes nria.toIbcPrefixed := by decide +kernel
  refine ⟨run_bridges, hok, hkept, ?_⟩
  rintro ⟨⟨asset, hasset, hmoved⟩, -⟩
  have hnria : bridges.base.bridge.ibcAsset bobAddress.bytes = some nria.toIbcPrefixed := by
    decide +kernel
  obtain rfl : nria.toIbcPrefixed = asset := Option.some.inj (hnria.symm.trans hasset)
  have hbob := hmoved bobAddress.bytes nria.toIbcPrefixed
  have hother : ¬(bobAddress.bytes = fromBob.toAddress.bytes ∧
      nria.toIbcPrefixed = nria.toIbcPrefixed) := by decide +kernel
  rw [hkept, if_neg hother, if_pos ⟨rfl, rfl⟩] at hbob
  have hsame : (bridges.base.putTransactionContext (signedBy carolAddress)).balance bobAddress.bytes
      nria.toIbcPrefixed = bridges.base.balance bobAddress.bytes nria.toIbcPrefixed := rfl
  have hamount : fromBob.amount = 5 := rfl
  omega

end

end Astria.Sequencer
