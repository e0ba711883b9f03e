import Astria.Sequencer.Mempool.Run

/-!
# What maintenance leaves pending

`run_maintenance` takes stale and expired transactions out, recosts the others, and moves transactions
between the containers, so that the pending ones can be executed one after the other.

Results:
* `runMaintenance_settles`: over a chain on which no account's nonce decreases, the pending
  transactions of every account whose reads succeed have contiguous nonces from the account's on, and
  the balance covers their costs;
* `decreasedNonce_notSettled`: after a nonce decreased, they may start above the account's.
-/

namespace Astria.Sequencer.Mempool

open Astria.Core Astria.Lib

section

variable {parkedMaxTxCount : ℕ} [External] [TransactionCodec]

theorem runMaintenance_settles {nonces nonces' : Nonces} {m : Mempool parkedMaxTxCount}
    (run : Run (fun ν ν' _ _ => ν ≤ ν') nonces m) (hle : nonces ≤ nonces') {state : StateReads}
    {recost : Bool} {clock : Clock} {addresses : List AddressBytes}
    (hat : (Call.runMaintenance state recost clock addresses).At nonces' m) (a : AddressBytes)
    (b : Balances) (hnonce : state.getAccountNonce a = .ok (nonces' a))
    (hbalances : state.getAccountBalances a = .ok b) :
    ((m.runMaintenance state recost clock addresses).pending.queue a).Settled (nonces' a) b := by
  have hchained := (run.chained fun _ _ _ _ h => h).mono hle
  obtain ⟨hreads, hnodup, hall⟩ := hat
  obtain ⟨-, hother, hvisited⟩ :=
    maintainAccounts_pending run.filed hchained recost clock hreads addresses hnodup
  show ((report _ _).pending.queue a).Settled _ _
  rw [(pending_report _ _).1]
  by_cases ha : a ∈ addresses
  · exact hvisited a ha b hnonce hbalances
  · -- an account that is not visited has no transactions
    rw [hother a ha]
    have hnot : a ∉ m.pending.addresses := fun hmem => ha ((hall a).mpr (Or.inl hmem))
    rw [TransactionsContainer.queue_of_notMem hnot]
    exact ⟨rfl, fun _ => Nat.zero_le _⟩

end

/-! ## A decreased nonce -/

section

open TestUtils

/-- Alice's transaction with nonce 5 is pending at her nonce 5. -/
def fifthPending : Mempool 10 := (new 10).after (insertion (pooled [1] 5) 5)

set_option maxRecDepth 10000 in
theorem addresses_fifthPending :
    fifthPending.pending.addresses = [aliceAddress.bytes] ∧ fifthPending.parked.addresses = [] := by
  decide +kernel

theorem run_fifthPending {Allowed : Nonces → Nonces → Mempool 10 → Call → Prop}
    (h : ∀ ν m c, Allowed ν ν m c) : Run Allowed (fun _ => 5) fifthPending :=
  .call (.new fun _ => 5) rfl (h _ _ _)

/-- Maintenance of it, at some nonce of alice. -/
theorem maintenance_at (nonce balance : ℕ) :
    (maintenance nonce balance).At (fun _ => nonce) fifthPending := by
  refine ⟨fun a n h => (Except.ok.inj h).symm, List.nodup_singleton _, ?_⟩
  rw [addresses_fifthPending.1, addresses_fifthPending.2]
  simp

theorem runMaintenance_settles_fifth :
    (((fifthPending.after (maintenance 5 1)).pending.queue aliceAddress.bytes).Settled 5
      (nativeBalance 1)) :=
  runMaintenance_settles (run_fifthPending fun ν _ _ => le_refl ν) (le_refl _) (maintenance_at 5 1)
    aliceAddress.bytes (nativeBalance 1) rfl rfl

set_option maxRecDepth 10000 in
/-- At a smaller nonce of alice, her pending transaction does not have it. -/
theorem decreasedNonce_notSettled :
    Run (fun _ _ _ _ => True) (fun _ => 5) fifthPending ∧
      (maintenance 3 1).At (fun _ => 3) fifthPending ∧
      ¬((fifthPending.after (maintenance 3 1)).pending.queue aliceAddress.bytes).Settled 3
        (nativeBalance 1) := by
  refine ⟨run_fifthPending fun _ _ _ => trivial, maintenance_at 3 1, ?_⟩
  intro h
  have hnonces : ((fifthPending.after (maintenance 3 1)).pending.queue aliceAddress.bytes).items.map
      TimemarkedTransaction.nonce = [5] := by
    decide +kernel
  have hstart := h.contiguous
  have hlength := congrArg List.length hnonces
  rw [List.length_map] at hlength
  rw [hnonces, hlength] at hstart
  exact absurd hstart (by decide)

end

end Astria.Sequencer.Mempool
