import Mathlib.Data.Finset.Card
import Mathlib.Data.Set.Function
import Mathlib.Tactic.Abel
import Astria.Sequencer.Mempool.Run

/-!
# What the mempool holds

The mempool keeps the hashes of its transactions in a set of their own, next to the two containers, and
looks for a taken nonce in one container at a time.

Results:
* `containedTxs_eq_held`: over a chain on which no account's nonce decreases, the tracked hashes are
  those of the transactions held, as long as pending takes no transaction that is parked, and none with
  the greatest nonce;
* `trackedTwice_lost`: a transaction that pending took while it was parked is dropped from the set when
  it is demoted, and stays parked;
* `held_uniqueNonces`: no two transactions held have the same signer and nonce, as long as pending
  takes none at whose nonce another one is parked;
* `replaced_sameNonce`: otherwise there can be two.
-/

namespace Astria.Sequencer

open Astria.Core Astria.Lib

namespace Mempool

section

variable {parkedMaxTxCount : ℕ} [External] [TransactionCodec]

/-! ## Held transactions -/

omit [External] [TransactionCodec] in
theorem held_report (l : List (TransactionId × RemovalReason)) (m : Mempool parkedMaxTxCount) :
    (m.report l).held = m.held := by
  unfold held
  rw [(pending_report l m).1, (pending_report l m).2]

/-- Promotion holds no transaction that was not held or promoted. -/
theorem held_promote_le (refused : TimemarkedTransaction → TransactionId) (n : ℕ) (b : Balances)
    (l : List TimemarkedTransaction) (m : Mempool parkedMaxTxCount) :
    (promote refused n b l m).held ≤
      m.held + (l.map TimemarkedTransaction.signedTx : List _) := by
  induction l generalizing m with
  | nil => exact Multiset.le_add_right _ _
  | cons t l ih =>
    rw [promote, List.map_cons, ← Multiset.cons_coe, ← Multiset.singleton_add, ← add_assoc]
    cases hadd : m.pending.add t n b with
    | ok pending =>
      obtain ⟨-, -, hheld⟩ := TransactionsContainer.refiled_of_add hadd
      refine le_trans (ih _) (le_of_eq ?_)
      unfold held
      dsimp only
      rw [hheld, add_right_comm m.pending.held]
    | error e =>
      refine le_trans (ih _) ?_
      exact Multiset.add_le_add_right (Multiset.le_add_right m.held _)

theorem held_demote_le (n : ℕ) (b : Balances) (l : List TimemarkedTransaction)
    (m : Mempool parkedMaxTxCount) :
    (demote n b l m).held ≤ m.held + (l.map TimemarkedTransaction.signedTx : List _) := by
  induction l generalizing m with
  | nil => exact Multiset.le_add_right _ _
  | cons t l ih =>
    rw [demote, List.map_cons, ← Multiset.cons_coe, ← Multiset.singleton_add, ← add_assoc]
    cases hadd : m.parked.add t n b with
    | ok parked =>
      obtain ⟨-, -, hheld⟩ := TransactionsContainer.refiled_of_add hadd
      refine le_trans (ih _) (le_of_eq ?_)
      unfold held
      dsimp only
      rw [hheld, ← add_assoc]
    | error e =>
      refine le_trans (ih _) ?_
      exact Multiset.add_le_add_right (Multiset.le_add_right m.held _)

omit [External] [TransactionCodec] in
/-- What an operation on an account takes out of the containers. -/
theorem held_of_refiled {a : AddressBytes} {q q' : Queue} {m : Mempool parkedMaxTxCount}
    {pending : PendingTransactions} {parked : ParkedTransactions parkedMaxTxCount}
    {s s' : Multiset Transaction} (hrefiled : TransactionsContainer.Refiled a q m.pending pending)
    (hrefiled' : TransactionsContainer.Refiled a q' m.parked parked)
    (hq : (m.pending.queue a).txs = q.txs + s) (hq' : (m.parked.queue a).txs = q'.txs + s') :
    m.held = pending.held + parked.held + (s + s') := by
  unfold held
  rw [← hrefiled.held_add hq, ← hrefiled'.held_add hq']
  exact add_add_add_comm _ _ _ _

omit [External] [TransactionCodec] in
/-- Promoted transactions leave parked for pending. -/
theorem held_move {a : AddressBytes} {q rest : Queue} {m : Mempool parkedMaxTxCount}
    {pending : PendingTransactions} {parked : ParkedTransactions parkedMaxTxCount}
    {l : List TimemarkedTransaction} {s : Multiset Transaction}
    (hrefiled : TransactionsContainer.Refiled a q m.pending pending)
    (hrefiled' : TransactionsContainer.Refiled a rest m.parked parked)
    (hq : q.txs = (m.pending.queue a).txs + s + (l.map TimemarkedTransaction.signedTx : List _))
    (hrest : (m.parked.queue a).items = l ++ rest.items) :
    pending.held + parked.held = m.held + s := by
  have hpending := hrefiled.held_of_add (by rw [hq, add_assoc])
  have hparked := hrefiled'.held_add (Queue.txs_eq_add (Or.inr hrest))
  unfold held
  rw [hpending, ← hparked]
  abel

theorem held_cleanAccount (state : StateReads) (recost : Bool) (clock : Clock) (a : AddressBytes)
    (n : ℕ) (m : Mempool parkedMaxTxCount) :
    ∃ out : List TimemarkedTransaction,
      (m.cleanAccount state recost clock a n).1.map (·.1) = out.map TimemarkedTransaction.id ∧
        m.held = (m.cleanAccount state recost clock a n).2.held +
          (out.map TimemarkedTransaction.signedTx : List _) ∧
        (m.cleanAccount state recost clock a n).2.containedTxs = m.containedTxs := by
  obtain ⟨pending, parked, q, q', out, out', hclean, hclean', hrefiled, hrefiled', hids, heq⟩ :=
    m.cleanAccount_spec state recost clock a n
  refine ⟨out ++ out', hids, ?_, by rw [heq]⟩
  rw [heq, List.map_append, ← Multiset.coe_add]
  exact held_of_refiled hrefiled hrefiled' hclean.txs hclean'.txs

theorem held_moveAccount_le {a : AddressBytes} {n : ℕ} {b : Balances}
    {m : Mempool parkedMaxTxCount} (hparked : ∀ t ∈ (m.parked.queue a).items, t.address = a)
    (hge : ∀ t ∈ (m.pending.queue a).items, n ≤ t.nonce) : (m.moveAccount a n b).held ≤ m.held := by
  rcases moveAccount_cases hparked hge with
    ⟨-, target, pending, parked, q, rest, l, -, -, -, hq, hrest, -, hrefiled, hrefiled', heq⟩ |
      ⟨-, pending, hrefiled, heq⟩
  · rw [heq]
    refine le_of_eq ?_
    have hmove := held_move (s := 0) hrefiled hrefiled'
      (by rw [add_zero]; exact Queue.txs_eq_add (Or.inl hq)) hrest
    rw [add_zero] at hmove
    exact hmove
  · obtain ⟨hitems, -, -⟩ := (m.pending.queue a).findDemotables_spec b
    rw [heq]
    refine le_trans (held_demote_le _ _ _ _) (le_of_eq ?_)
    have hheld := hrefiled.held_add (Queue.txs_eq_add (Or.inl hitems))
    unfold held
    dsimp only
    rw [add_right_comm, hheld]

theorem held_maintainAccount_le {m : Mempool parkedMaxTxCount} (hfiled : m.Filed)
    (state : StateReads) (recost : Bool) (clock : Clock) (a : AddressBytes) :
    (m.maintainAccount state recost clock a).2.held ≤ m.held := by
  rcases m.maintainAccount_cases state recost clock a with ⟨heq, -⟩ | ⟨n, b, -, -, heq⟩
  · rw [heq]
  · obtain ⟨out, -, hheld, -⟩ := m.held_cleanAccount state recost clock a n
    rw [heq]
    refine le_trans (held_moveAccount_le
      ((hfiled.cleanAccount state recost clock a n).2 a) fun t ht => le_nonce_cleanAccount ht) ?_
    rw [hheld]
    exact Multiset.le_add_right _ _

theorem held_runMaintenance_le {m : Mempool parkedMaxTxCount} (hfiled : m.Filed)
    (state : StateReads) (recost : Bool) (clock : Clock) (addresses : List AddressBytes) :
    (m.runMaintenance state recost clock addresses).held ≤ m.held := by
  show (report _ _).held ≤ _
  rw [held_report]
  have hkeeps := maintainAccounts_keeps (P := fun m' => m'.Filed ∧ m'.held ≤ m.held)
    state recost clock
    (fun a m' hm' => ⟨hm'.1.maintainAccount state recost clock a,
      le_trans (held_maintainAccount_le hm'.1 state recost clock a) hm'.2⟩)
    addresses ⟨hfiled, le_refl _⟩
  exact hkeeps.2

theorem held_removeTxInvalid_le (m : Mempool parkedMaxTxCount) (tx : Transaction)
    (reason : RemovalReason) : (m.removeTxInvalid tx reason).held ≤ m.held := by
  obtain ⟨pending, parked, q, q', out, out', hrefiled, hrefiled', hitems, hitems', -, hcases⟩ :=
    m.removeTxInvalid_cases tx reason
  have hheld := held_of_refiled hrefiled hrefiled' (Queue.txs_eq_add (Or.inl hitems))
    (Queue.txs_eq_add (Or.inl hitems'))
  rw [hheld]
  rcases hcases with heq | ⟨-, -, heq⟩
  · rw [heq]
    unfold reportInvalid
    rw [held_report]
    exact Multiset.le_add_right _ _
  · rw [heq]
    exact Multiset.le_add_right _ _

/-- An insertion holds at most one transaction more, and then its nonce was not taken by another one,
unless pending takes it while another one is parked at its nonce. -/
theorem held_insert_le (ttx : TimemarkedTransaction) (n : ℕ) (b : Balances)
    (m : Mempool parkedMaxTxCount) :
    (m.insert ttx n b).2.held ≤ m.held ∨
      (m.insert ttx n b).2.held ≤ m.held + {ttx.signedTx} ∧
        (m.pending.queue ttx.address).get ttx.nonce = none ∧
        ((m.parked.queue ttx.address).get ttx.nonce = none ∨
          ∃ pending, m.pending.add ttx n b = .ok pending) := by
  rcases m.insert_cases ttx n b with heq | ⟨parked, hget, hadd, heq⟩ | ⟨pending, hadd, hcases⟩
  · left
    rw [heq]
  · right
    obtain ⟨hget', -, hheld⟩ := TransactionsContainer.refiled_of_add hadd
    refine ⟨le_of_eq ?_, hget, Or.inl hget'⟩
    rw [heq]
    unfold held track
    dsimp only
    rw [hheld, ← add_assoc]
  · right
    obtain ⟨hget, -, hheld⟩ := TransactionsContainer.refiled_of_add hadd
    refine ⟨?_, hget, Or.inr ⟨pending, hadd⟩⟩
    rcases hcases with ⟨-, heq⟩ | heq
    · rw [heq]
      unfold held
      dsimp only
      rw [hheld, add_right_comm]
    · rw [heq]
      -- what is promoted was parked
      obtain ⟨hpromoted, hrest⟩ := TransactionsContainer.findPromotables_refiled ttx.address
        (ttx.nonce + 1) (pending.subtractContainedCosts ttx.address b) m.parked
      obtain ⟨hfront, -, -⟩ := Queue.findPromotables_spec (ttx.nonce + 1)
        (pending.subtractContainedCosts ttx.address b) (m.parked.queue ttx.address)
      rw [← hpromoted] at hfront
      refine le_trans (held_promote_le _ _ _ _ _) (le_of_eq ?_)
      unfold held
      dsimp only
      rw [hheld, add_assoc, hrest.held_add (Queue.txs_eq_add (Or.inr hfront)), add_right_comm]

/-! ## Nonces -/

/-- No two transactions held have the same signer and nonce. -/
def UniqueNonces (m : Mempool parkedMaxTxCount) : Prop :=
  ∀ tx ∈ m.held, ∀ tx' ∈ m.held, signer tx = signer tx' → tx.params.nonce = tx'.params.nonce →
    tx = tx'

/-- A transaction that pending takes finds no other one parked at its nonce. -/
def FindsNonceFree (m : Mempool parkedMaxTxCount) : Call → Prop
  | .insert ttx n b =>
    (∃ pending, m.pending.add ttx n b = .ok pending) →
      ∀ t ∈ (m.parked.queue ttx.address).items, t.nonce = ttx.nonce → t.signedTx = ttx.signedTx
  | _ => True

omit [TransactionCodec] in
/-- The holder of an account's nonce is in a queue of the account. -/
theorem mem_held_at {tx : Transaction} {m : Mempool parkedMaxTxCount} (hfiled : m.Filed)
    (h : tx ∈ m.held) :
    (∃ t ∈ (m.pending.queue (signer tx)).items, t.signedTx = tx) ∨
      ∃ t ∈ (m.parked.queue (signer tx)).items, t.signedTx = tx := by
  unfold held at h
  rcases Multiset.mem_add.mp h with h | h
  · obtain ⟨a, t, ht, rfl⟩ := TransactionsContainer.mem_held.mp h
    obtain rfl := hfiled.1 a t ht
    exact Or.inl ⟨t, ht, rfl⟩
  · obtain ⟨a, t, ht, rfl⟩ := TransactionsContainer.mem_held.mp h
    obtain rfl := hfiled.2 a t ht
    exact Or.inr ⟨t, ht, rfl⟩

omit [TransactionCodec] in
theorem UniqueNonces.of_le {m m' : Mempool parkedMaxTxCount} (h : m.UniqueNonces)
    (hle : m'.held ≤ m.held) : m'.UniqueNonces :=
  fun tx htx tx' htx' => h tx (Multiset.mem_of_le hle htx) tx' (Multiset.mem_of_le hle htx')

theorem UniqueNonces.insert {m : Mempool parkedMaxTxCount} (h : m.UniqueNonces)
    (hfiled : m.Filed) {ttx : TimemarkedTransaction} {n : ℕ} {b : Balances}
    (hfree : m.FindsNonceFree (.insert ttx n b)) : (m.insert ttx n b).2.UniqueNonces := by
  rcases m.held_insert_le ttx n b with hle | ⟨hle, hpending, hparked⟩
  · exact h.of_le hle
  · -- no other transaction of the signer has the nonce
    have hnew : ∀ tx ∈ m.held, signer tx = signer ttx.signedTx →
        tx.params.nonce = ttx.signedTx.params.nonce → tx = ttx.signedTx := by
      intro tx htx hsigner hnonce
      rcases mem_held_at hfiled htx with ⟨t, ht, rfl⟩ | ⟨t, ht, rfl⟩
      · rw [hsigner] at ht
        exact absurd hnonce (KeyedQueue.get_eq_none_iff.mp hpending t ht)
      · rw [hsigner] at ht
        rcases hparked with hparked | hadd
        · exact absurd hnonce (KeyedQueue.get_eq_none_iff.mp hparked t ht)
        · exact hfree hadd t ht hnonce
    have hmem : ∀ tx ∈ (m.insert ttx n b).2.held, tx ∈ m.held ∨ tx = ttx.signedTx := by
      intro tx htx
      rcases Multiset.mem_add.mp (Multiset.mem_of_le hle htx) with htx | htx
      · exact Or.inl htx
      · exact Or.inr (Multiset.mem_singleton.mp htx)
    intro tx htx tx' htx' hsigner hnonce
    rcases hmem tx htx with htx | rfl <;> rcases hmem tx' htx' with htx' | rfl
    · exact h tx htx tx' htx' hsigner hnonce
    · exact hnew tx htx hsigner hnonce
    · exact (hnew tx' htx' hsigner.symm hnonce.symm).symm
    · rfl

/-- No two transactions held have the same signer and nonce, in a run in which pending takes none while
another one is parked at its nonce. -/
theorem held_uniqueNonces {nonces : Nonces} {m : Mempool parkedMaxTxCount}
    (run : Run (fun _ _ m c => m.FindsNonceFree c) nonces m) : m.UniqueNonces := by
  induction run with
  | new nonces => exact fun tx htx => absurd htx (Multiset.notMem_zero tx)
  | @call nonces nonces' m c run hat hfree ih =>
    cases c with
    | insert ttx n b => exact ih.insert run.filed hfree
    | removeTxInvalid tx reason => exact ih.of_le (m.held_removeTxInvalid_le tx reason)
    | checkRemovedCometBft txHash => exact ih
    | runMaintenance state recost clock addresses =>
      exact ih.of_le (held_runMaintenance_le run.filed state recost clock addresses)

/-! ## Tracked transactions -/

/-- The tracked hashes are those of the transactions held and of some that are on their way: to the other
container, or out of the mempool.  None is there twice, as the tracked ones are a set. -/
def Books (m : Mempool parkedMaxTxCount) (onTheWay : Multiset TransactionId) : Prop :=
  m.containedTxs.val = m.held.map transactionId + onTheWay

theorem Books.untrack {m : Mempool parkedMaxTxCount} {id : TransactionId}
    {rest : Multiset TransactionId} (h : m.Books (id ::ₘ rest)) : (m.untrack id).Books rest := by
  unfold Books at h ⊢
  show (m.containedTxs.erase id).val = _
  rw [Finset.erase_val, h, Multiset.add_cons, Multiset.erase_cons_head]
  rfl

/-- A transaction that was on its way arrives in a container. -/
theorem Books.arrive {m m' : Mempool parkedMaxTxCount} {tx : Transaction}
    {rest : Multiset TransactionId} (h : m.Books (transactionId tx ::ₘ rest))
    (hheld : m'.held = m.held + {tx}) (hcontained : m'.containedTxs = m.containedTxs) :
    m'.Books rest := by
  unfold Books at h ⊢
  rw [hcontained, h, hheld, Multiset.map_add, Multiset.map_singleton, add_assoc,
    Multiset.singleton_add]

theorem Books.promote {n : ℕ} {b : Balances} {l : List TimemarkedTransaction}
    {rest : Multiset TransactionId} {m : Mempool parkedMaxTxCount}
    (h : m.Books ((l.map TimemarkedTransaction.id : List _) + rest)) :
    (promote TimemarkedTransaction.id n b l m).Books rest := by
  induction l generalizing m with
  | nil =>
    rw [List.map_nil, Multiset.coe_nil, zero_add] at h
    exact h
  | cons t l ih =>
    rw [List.map_cons, ← Multiset.cons_coe, Multiset.cons_add] at h
    rw [Mempool.promote]
    cases hadd : m.pending.add t n b with
    | error e => exact ih h.untrack
    | ok pending =>
      obtain ⟨-, -, hheld⟩ := TransactionsContainer.refiled_of_add hadd
      refine ih (Books.arrive h ?_ rfl)
      unfold held
      dsimp only
      rw [hheld, add_right_comm]

theorem Books.demote {n : ℕ} {b : Balances} {l : List TimemarkedTransaction}
    {rest : Multiset TransactionId} {m : Mempool parkedMaxTxCount}
    (h : m.Books ((l.map TimemarkedTransaction.id : List _) + rest)) :
    (demote n b l m).Books rest := by
  induction l generalizing m with
  | nil =>
    rw [List.map_nil, Multiset.coe_nil, zero_add] at h
    exact h
  | cons t l ih =>
    rw [List.map_cons, ← Multiset.cons_coe, Multiset.cons_add] at h
    rw [Mempool.demote]
    cases hadd : m.parked.add t n b with
    | error e => exact ih h.untrack
    | ok parked =>
      obtain ⟨-, -, hheld⟩ := TransactionsContainer.refiled_of_add hadd
      refine ih (Books.arrive h ?_ rfl)
      unfold held
      dsimp only
      rw [hheld, add_assoc]

theorem Books.report {l : List (TransactionId × RemovalReason)} {rest : Multiset TransactionId}
    {m : Mempool parkedMaxTxCount} (h : m.Books ((l.map (·.1) : List _) + rest)) :
    (m.report l).Books rest := by
  induction l generalizing m with
  | nil =>
    rw [List.map_nil, Multiset.coe_nil, zero_add] at h
    exact h
  | cons e l ih =>
    refine ih ?_
    rw [List.map_cons, ← Multiset.cons_coe, Multiset.cons_add] at h
    exact h.untrack

/-- Transactions that leave the containers are on their way. -/
theorem Books.leave {m m' : Mempool parkedMaxTxCount} {rest : Multiset TransactionId}
    {out : List TimemarkedTransaction} (h : m.Books rest)
    (hheld : m.held = m'.held + (out.map TimemarkedTransaction.signedTx : List _))
    (hcontained : m'.containedTxs = m.containedTxs) :
    m'.Books ((out.map TimemarkedTransaction.id : List _) + rest) := by
  unfold Books at h ⊢
  rw [hcontained, h, hheld, Multiset.map_add, Multiset.map_coe, List.map_map, add_assoc]
  rfl

theorem Books.moveAccount {a : AddressBytes} {n : ℕ} {b : Balances}
    {m : Mempool parkedMaxTxCount} {rest : Multiset TransactionId} (h : m.Books rest)
    (hparked : ∀ t ∈ (m.parked.queue a).items, t.address = a)
    (hge : ∀ t ∈ (m.pending.queue a).items, n ≤ t.nonce) :
    (m.moveAccount a n b).Books rest := by
  rcases moveAccount_cases hparked hge with
    ⟨-, target, pending, parked, q, keep, l, -, -, -, hq, hkeep, -, hrefiled, hrefiled', heq⟩ |
      ⟨-, pending, hrefiled, heq⟩
  · rw [heq]
    have hmove := held_move (s := 0) hrefiled hrefiled'
      (by rw [add_zero]; exact Queue.txs_eq_add (Or.inl hq)) hkeep
    rw [add_zero] at hmove
    unfold Books at h ⊢
    rw [h, ← hmove]
    rfl
  · obtain ⟨hitems, -, -⟩ := (m.pending.queue a).findDemotables_spec b
    rw [heq]
    refine Books.demote (h.leave ?_ rfl)
    have hheld := hrefiled.held_add (Queue.txs_eq_add (Or.inl hitems))
    unfold held
    dsimp only
    rw [add_right_comm, hheld]

theorem Books.maintainAccount {m : Mempool parkedMaxTxCount} {rest : Multiset TransactionId}
    (h : m.Books rest) (hfiled : m.Filed) (state : StateReads) (recost : Bool) (clock : Clock)
    (a : AddressBytes) :
    (m.maintainAccount state recost clock a).2.Books
      (((m.maintainAccount state recost clock a).1.map (·.1) : List _) + rest) := by
  rcases m.maintainAccount_cases state recost clock a with ⟨heq, -⟩ | ⟨n, b, -, -, heq⟩
  · rw [heq]
    simpa using h
  · obtain ⟨out, hids, hheld, hcontained⟩ := m.held_cleanAccount state recost clock a n
    rw [heq]
    dsimp only
    rw [hids]
    exact (h.leave hheld hcontained).moveAccount
      ((hfiled.cleanAccount state recost clock a n).2 a) fun t ht => le_nonce_cleanAccount ht

theorem Books.maintainAccounts {m : Mempool parkedMaxTxCount} {rest : Multiset TransactionId}
    (h : m.Books rest) (hfiled : m.Filed) (state : StateReads) (recost : Bool) (clock : Clock)
    (addresses : List AddressBytes) :
    (m.maintainAccounts state recost clock addresses).2.Books
      (((m.maintainAccounts state recost clock addresses).1.map (·.1) : List _) + rest) := by
  induction addresses generalizing m rest with
  | nil =>
    show m.Books ((([] : List TransactionId) : Multiset TransactionId) + rest)
    rwa [Multiset.coe_nil, zero_add]
  | cons a addresses ih =>
    have hturn := h.maintainAccount hfiled state recost clock a
    have hrest := ih hturn (hfiled.maintainAccount state recost clock a)
    rw [Mempool.maintainAccounts]
    dsimp only
    rw [List.map_append, ← Multiset.coe_add, add_comm (Multiset.ofList _), add_assoc]
    exact hrest

theorem Books.runMaintenance {m : Mempool parkedMaxTxCount} {rest : Multiset TransactionId}
    (h : m.Books rest) (hfiled : m.Filed) (state : StateReads) (recost : Bool) (clock : Clock)
    (addresses : List AddressBytes) :
    (m.runMaintenance state recost clock addresses).Books rest :=
  (h.maintainAccounts hfiled state recost clock addresses).report

theorem Books.removeTxInvalid {m : Mempool parkedMaxTxCount} {rest : Multiset TransactionId}
    (h : m.Books rest) (tx : Transaction) (reason : RemovalReason) :
    (m.removeTxInvalid tx reason).Books rest := by
  obtain ⟨pending, parked, q, q', out, out', hrefiled, hrefiled', hitems, hitems', -, hcases⟩ :=
    m.removeTxInvalid_cases tx reason
  have hheld := held_of_refiled hrefiled hrefiled' (Queue.txs_eq_add (Or.inl hitems))
    (Queue.txs_eq_add (Or.inl hitems'))
  rw [Multiset.coe_add, ← List.map_append] at hheld
  have hbooks : Books { m with pending := pending, parked := parked } _ := h.leave hheld rfl
  rcases hcases with heq | ⟨rfl, rfl, heq⟩
  · rw [heq]
    refine Books.report ?_
    rw [List.map_map, show (fun e : TransactionId × RemovalReason => e.1) ∘ (fun id =>
      (id, RemovalReason.lowerNonceInvalidated)) = id from rfl, List.map_id]
    exact hbooks
  · rw [heq]
    rw [List.append_nil, List.map_nil, Multiset.coe_nil, zero_add] at hbooks
    exact hbooks

/-- A transaction that is held once more is tracked once more. -/
theorem Books.track {m m' : Mempool parkedMaxTxCount} (h : m.Books 0) {tx : Transaction}
    (hnew : transactionId tx ∉ m.containedTxs) (hheld : m'.held = m.held + {tx})
    (hcontained : m'.containedTxs = m.containedTxs) : (m'.track (transactionId tx)).Books 0 := by
  unfold Books at h ⊢
  rw [add_zero] at h ⊢
  show (Insert.insert (transactionId tx) m'.containedTxs).val = m'.held.map _
  rw [hcontained, Finset.insert_val_of_notMem hnew, h, hheld, Multiset.map_add,
    Multiset.map_singleton, add_comm, Multiset.singleton_add]

/-- Pending takes no transaction that is parked, and none with the greatest nonce. -/
def TakesOnce (m : Mempool parkedMaxTxCount) : Call → Prop
  | .insert ttx n b =>
    (∃ pending, m.pending.add ttx n b = .ok pending) →
      ttx.nonce < u32Max ∧ ∀ t ∈ (m.parked.queue ttx.address).items, t.signedTx ≠ ttx.signedTx
  | _ => True

/-- An insertion is that of one of some transactions. -/
def Call.Within (txs : Set Transaction) : Call → Prop
  | .insert ttx _ _ => ttx.signedTx ∈ txs
  | _ => True

/-- The hash of a transaction that neither container holds is not tracked. -/
theorem Books.not_tracked {m : Mempool parkedMaxTxCount} (h : m.Books 0) (hfiled : m.Filed)
    {txs : Set Transaction} (hinj : Set.InjOn transactionId txs) (hheld : ∀ tx ∈ m.held, tx ∈ txs)
    {ttx : TimemarkedTransaction} (hmem : ttx.signedTx ∈ txs)
    (hpending : (m.pending.queue ttx.address).get ttx.nonce = none)
    (hparked : ∀ t ∈ (m.parked.queue ttx.address).items, t.signedTx ≠ ttx.signedTx) :
    transactionId ttx.signedTx ∉ m.containedTxs := by
  intro htracked
  unfold Books at h
  rw [add_zero] at h
  rw [← Finset.mem_val, h] at htracked
  obtain ⟨tx, htx, hid⟩ := Multiset.mem_map.mp htracked
  obtain rfl := hinj (hheld tx htx) hmem hid
  rcases mem_held_at hfiled htx with ⟨t, ht, hsame⟩ | ⟨t, ht, hsame⟩
  · refine KeyedQueue.get_eq_none_iff.mp hpending t ht ?_
    unfold TimemarkedTransaction.nonce
    rw [hsame]
  · exact hparked t ht hsame

theorem Books.insert {m : Mempool parkedMaxTxCount} (h : m.Books 0) (hfiled : m.Filed)
    {nonces : Nonces} (hchained : m.Chained nonces) {txs : Set Transaction}
    (hinj : Set.InjOn transactionId txs) (hheld : ∀ tx ∈ m.held, tx ∈ txs)
    {ttx : TimemarkedTransaction} {b : Balances} (hmem : ttx.signedTx ∈ txs)
    (honce : m.TakesOnce (.insert ttx (nonces ttx.address) b)) :
    (m.insert ttx (nonces ttx.address) b).2.Books 0 := by
  rcases m.insert_cases ttx (nonces ttx.address) b with
    heq | ⟨parked, hget, hadd, heq⟩ | ⟨pending, hadd, hcases⟩
  · rw [heq]
    exact h
  · rw [heq]
    obtain ⟨hget', -, hheld'⟩ := TransactionsContainer.refiled_of_add hadd
    refine h.track (h.not_tracked hfiled hinj hheld hmem hget ?_) ?_ rfl
    · intro t ht hsame
      refine KeyedQueue.get_eq_none_iff.mp hget' t ht ?_
      unfold TimemarkedTransaction.nonce
      rw [hsame]
    · unfold held
      dsimp only
      rw [hheld', add_assoc]
  · obtain ⟨hmax, hfresh⟩ := honce ⟨pending, hadd⟩
    obtain ⟨hget, -, -⟩ := TransactionsContainer.refiled_of_add hadd
    rcases hcases with ⟨hpanic, -⟩ | heq
    · omega
    · obtain ⟨pending', q, rest, l, hq, hrest, -, -, hrefiled, hrefiled', hpromote⟩ :=
        insert_promotes hfiled (hchained _) hadd
      rw [heq, hpromote]
      refine h.track (h.not_tracked hfiled hinj hheld hmem hget hfresh) ?_ rfl
      refine held_move hrefiled hrefiled' ?_ hrest
      rw [Queue.txs_eq_add (Or.inl hq), List.map_cons, ← Multiset.cons_coe,
        ← Multiset.singleton_add, add_assoc]

/-- What is held is tracked, and what is on its way is not held. -/
theorem Books.mem {m : Mempool parkedMaxTxCount} {rest : Multiset TransactionId} (h : m.Books rest)
    {tx : Transaction} (htx : tx ∈ m.held) : transactionId tx ∈ m.containedTxs := by
  unfold Books at h
  rw [← Finset.mem_val, h]
  exact Multiset.mem_add.mpr (Or.inl (Multiset.mem_map_of_mem _ htx))

theorem Books.notMem {m : Mempool parkedMaxTxCount} {rest : Multiset TransactionId}
    (h : m.Books rest) {tx : Transaction} (htx : tx ∈ m.held) : transactionId tx ∉ rest := by
  have hnodup := m.containedTxs.nodup
  unfold Books at h
  rw [h, Multiset.nodup_add] at hnodup
  exact Multiset.disjoint_left.mp hnodup.2.2 (Multiset.mem_map_of_mem _ htx)

/-- Promotions that are refused do not change what is tracked before the inserted transaction is. -/
theorem containedTxs_promote {id : TransactionId} {n : ℕ} {b : Balances}
    {l : List TimemarkedTransaction} {m : Mempool parkedMaxTxCount} (hid : id ∉ m.containedTxs) :
    (promote (fun _ => id) n b l m).containedTxs = m.containedTxs := by
  induction l generalizing m with
  | nil => rfl
  | cons t l ih =>
    rw [promote]
    cases m.pending.add t n b with
    | ok pending => exact ih hid
    | error e =>
      have hsame : (m.untrack id).containedTxs = m.containedTxs := Finset.erase_eq_of_notMem hid
      dsimp only
      rw [ih (by rwa [hsame]), hsame]

theorem insert_panics {ttx : TimemarkedTransaction} {n : ℕ} {b : Balances}
    {m : Mempool parkedMaxTxCount} {pending : PendingTransactions}
    (hadd : m.pending.add ttx n b = .ok pending) (hmax : u32Max < ttx.nonce + 1) :
    ∃ panic, (m.insert ttx n b).1 = .error panic := by
  unfold insert
  rw [hadd]
  dsimp only
  rw [checkedAdd_eq_none.mpr hmax]
  exact ⟨_, rfl⟩

/-- An insertion panics exactly if pending takes the transaction at the greatest nonce. -/
theorem insert_panics_iff {ttx : TimemarkedTransaction} {n : ℕ} {b : Balances}
    {m : Mempool parkedMaxTxCount} :
    (∃ panic, (m.insert ttx n b).1 = .error panic) ↔
      ttx.nonce = u32Max ∧ ∃ pending, m.pending.add ttx n b = .ok pending := by
  have hle : ttx.nonce ≤ u32Max := ttx.nonce_le
  constructor
  · rintro ⟨panic, hpanic⟩
    unfold insert at hpanic
    cases hadd : m.pending.add ttx n b with
    | ok pending =>
      refine ⟨?_, pending, rfl⟩
      rw [hadd] at hpanic
      dsimp only at hpanic
      cases hnext : checkedAdd u32Max ttx.nonce 1 with
      | none =>
        have hmax := checkedAdd_eq_none.mp hnext
        omega
      | some target =>
        rw [hnext] at hpanic
        cases hpanic
    | error e =>
      rw [hadd] at hpanic
      cases e with
      | nonceGap | accountBalanceTooLow =>
        dsimp only at hpanic
        cases hparked : m.parked.add ttx n b with
        | ok parked =>
          rw [hparked] at hpanic
          cases hpanic
        | error err =>
          rw [hparked] at hpanic
          cases hpanic
      | _ => cases hpanic
  · rintro ⟨hmax, pending, hadd⟩
    exact insert_panics hadd (by omega)

/-- An insertion reports nothing. -/
theorem cache_insert (ttx : TimemarkedTransaction) (n : ℕ) (b : Balances)
    (m : Mempool parkedMaxTxCount) :
    (m.insert ttx n b).2.cometBftRemovalCache = m.cometBftRemovalCache := by
  rcases m.insert_cases ttx n b with heq | ⟨parked, -, -, heq⟩ | ⟨pending, -, ⟨-, heq⟩ | heq⟩
  · rw [heq]
  · rw [heq]
    rfl
  · rw [heq]
  · rw [heq]
    exact promote_cache _ _ _ _ _

/-- An insertion that returns tracks the transaction if it changes the mempool. -/
theorem insert_tracks {ttx : TimemarkedTransaction} {n : ℕ} {b : Balances}
    {m : Mempool parkedMaxTxCount} (hnew : ttx.id ∉ m.containedTxs)
    (hreturns : ∀ panic, (m.insert ttx n b).1 ≠ .error panic) :
    (m.insert ttx n b).2 = m ∨
      (m.insert ttx n b).2.containedTxs = Insert.insert ttx.id m.containedTxs := by
  rcases m.insert_cases ttx n b with heq | ⟨parked, -, -, heq⟩ | ⟨pending, hadd, ⟨hmax, -⟩ | heq⟩
  · exact Or.inl heq
  · right
    rw [heq]
    rfl
  · obtain ⟨panic, hpanic⟩ := insert_panics (m := m) hadd hmax
    exact absurd hpanic (hreturns panic)
  · right
    rw [heq]
    exact congrArg (Insert.insert ttx.id) (containedTxs_promote hnew)

/-- In a run over a chain on which no account's nonce decreases, and whose transactions have distinct
hashes, the tracked hashes are those of the transactions held, if pending takes no transaction that is
parked, and none with the greatest nonce. -/
theorem containedTxs_eq_held {txs : Set Transaction} (hinj : Set.InjOn transactionId txs)
    {nonces : Nonces} {m : Mempool parkedMaxTxCount}
    (run : Run (fun ν ν' m c => ν ≤ ν' ∧ c.Within txs ∧ m.TakesOnce c) nonces m) :
    m.containedTxs = (m.held.map transactionId).toFinset := by
  have hinv : m.Books 0 ∧ ∀ tx ∈ m.held, tx ∈ txs := by
    induction run with
    | new nonces => exact ⟨rfl, fun tx htx => absurd htx (Multiset.notMem_zero tx)⟩
    | @call nonces nonces' m c run hat hallowed ih =>
      obtain ⟨hle, hwithin, honce⟩ := hallowed
      have hchained := (run.chained fun _ _ _ _ h => h.1).mono hle
      cases c with
      | insert ttx n b =>
        obtain rfl : n = nonces' ttx.address := hat
        refine ⟨ih.1.insert run.filed hchained hinj ih.2 hwithin honce, ?_⟩
        intro tx htx
        rcases m.held_insert_le ttx (nonces' ttx.address) b with
          hsub | ⟨hsub, -⟩
        · exact ih.2 tx (Multiset.mem_of_le hsub htx)
        · rcases Multiset.mem_add.mp (Multiset.mem_of_le hsub htx) with htx | htx
          · exact ih.2 tx htx
          · rw [Multiset.mem_singleton.mp htx]
            exact hwithin
      | removeTxInvalid tx reason =>
        exact ⟨ih.1.removeTxInvalid tx reason, fun tx' htx =>
          ih.2 tx' (Multiset.mem_of_le (m.held_removeTxInvalid_le tx reason) htx)⟩
      | checkRemovedCometBft txHash => exact ih
      | runMaintenance state recost clock addresses =>
        exact ⟨ih.1.runMaintenance run.filed state recost clock addresses, fun tx htx =>
          ih.2 tx (Multiset.mem_of_le
            (held_runMaintenance_le run.filed state recost clock addresses) htx)⟩
  have hbooks := hinv.1
  unfold Books at hbooks
  rw [add_zero] at hbooks
  rw [← hbooks, Finset.val_toFinset]

end

/-! ## One transaction, or one nonce, in both containers -/

section

open TestUtils

/-- Alice's transaction with nonce 1, which is inserted at her nonce 0 and parked. -/
def early : TimemarkedTransaction := pooled [1] 1

/-- Another one with the same nonce. -/
def other : TimemarkedTransaction := pooled [2] 1

/-- The first one is parked. -/
def earlyParked : Mempool 10 := (new 10).after (insertion early 0)

theorem run_earlyParked {Allowed : Nonces → Nonces → Mempool 10 → Call → Prop}
    (h : Allowed (fun _ => 0) (fun _ => 0) (new 10) (insertion early 0)) :
    Run Allowed (fun _ => 0) earlyParked :=
  .call (.new fun _ => 0) rfl h

/-- At alice's nonce 1 it is inserted again, and then her balance is gone. -/
def trackedTwice : Mempool 10 := (earlyParked.after (insertion early 1)).after (maintenance 1 0)

set_option maxRecDepth 10000 in
theorem takesOnce_early : (new 10).TakesOnce (insertion early 0) := by
  rintro ⟨pending, hadd⟩
  have hgap : ((new 10).pending.add early 0 (nativeBalance 1)).isOk = false := by decide +kernel
  rw [hadd] at hgap
  exact absurd hgap Bool.false_ne_true.symm

theorem containedTxs_eq_held_early :
    earlyParked.containedTxs = (earlyParked.held.map transactionId).toFinset :=
  containedTxs_eq_held (Set.injOn_singleton transactionId early.signedTx)
    (run_earlyParked ⟨le_refl _, rfl, takesOnce_early⟩)

set_option maxRecDepth 10000 in
/-- The demotion of the pending copy untracks the transaction, which stays parked. -/
theorem trackedTwice_lost :
    Run (fun ν ν' _ c => ν ≤ ν' ∧ c.Within {early.signedTx}) (fun _ => 1) trackedTwice ∧
      Set.InjOn transactionId {early.signedTx} ∧
      trackedTwice.containedTxs ≠ (trackedTwice.held.map transactionId).toFinset := by
  have haddresses : (earlyParked.after (insertion early 1)).pending.addresses =
        [aliceAddress.bytes] ∧
      (earlyParked.after (insertion early 1)).parked.addresses = [aliceAddress.bytes] := by
    decide +kernel
  refine ⟨?_, Set.injOn_singleton _ _, ?_⟩
  · have hat : (insertion early 1).At (fun _ => 1) earlyParked := rfl
    refine .call (.call (run_earlyParked ⟨le_refl _, rfl⟩) hat ⟨?_, rfl⟩)
      ⟨fun a n h => (Except.ok.inj h).symm, List.nodup_singleton _, ?_⟩ ⟨le_refl _, trivial⟩
    · exact fun _ => Nat.zero_le 1
    · rw [haddresses.1, haddresses.2]
      simp
  · have hcontained : trackedTwice.containedTxs = ∅ := by decide +kernel
    have hparked : trackedTwice.parked.len = 1 := by decide +kernel
    rw [TransactionsContainer.len_eq_card] at hparked
    obtain ⟨tx, htx⟩ := Multiset.card_pos_iff_exists_mem.mp (hparked.symm ▸ Nat.one_pos)
    intro h
    rw [hcontained] at h
    have hmem : transactionId tx ∈ (trackedTwice.held.map transactionId).toFinset := by
      rw [Multiset.mem_toFinset]
      exact Multiset.mem_map_of_mem _ (Multiset.mem_add.mpr (Or.inr htx))
    rw [← h] at hmem
    exact absurd hmem (Finset.notMem_empty _)

/-- At alice's nonce 1 another transaction with that nonce is inserted. -/
def replaced : Mempool 10 := earlyParked.after (insertion other 1)

theorem findsNonceFree_early : (new 10).FindsNonceFree (insertion early 0) :=
  fun _ _ ht => absurd ht List.not_mem_nil

theorem held_uniqueNonces_early : earlyParked.UniqueNonces :=
  held_uniqueNonces (run_earlyParked findsNonceFree_early)

set_option maxRecDepth 10000 in
/-- Pending takes it, while the first one stays parked. -/
theorem replaced_sameNonce :
    Run (fun _ _ _ _ => True) (fun _ => 1) replaced ∧ ¬replaced.UniqueNonces := by
  have hat : (insertion other 1).At (fun _ => 1) earlyParked := rfl
  have hrun : Run (fun _ _ _ _ => True) (fun _ => 0) earlyParked := run_earlyParked trivial
  refine ⟨.call hrun hat trivial, ?_⟩
  have hpending : (replaced.pending.queue early.address).items.map
      (fun t => (t.signedTx.actions.inner, t.nonce)) =
        [(other.signedTx.actions.inner, 1)] := by
    decide +kernel
  have hparked : (replaced.parked.queue early.address).items.map
      (fun t => (t.signedTx.actions.inner, t.nonce)) =
        [(early.signedTx.actions.inner, 1)] := by
    decide +kernel
  obtain ⟨t, ht, hother⟩ := List.mem_map.mp (hpending ▸ List.mem_cons_self)
  obtain ⟨t', ht', hearly⟩ := List.mem_map.mp (hparked ▸ List.mem_cons_self)
  have hfiled : replaced.Filed := hrun.filed.after (insertion other 1)
  intro hunique
  have hsame := hunique t.signedTx
    (Multiset.mem_add.mpr (Or.inl (TransactionsContainer.mem_held.mpr ⟨_, t, ht, rfl⟩)))
    t'.signedTx
    (Multiset.mem_add.mpr (Or.inr (TransactionsContainer.mem_held.mpr ⟨_, t', ht', rfl⟩)))
    ((hfiled.1 _ t ht).trans (hfiled.2 _ t' ht').symm)
    ((congrArg Prod.snd hother).trans (congrArg Prod.snd hearly).symm)
  have hactions := (congrArg Prod.fst hother).symm.trans
    ((congrArg (fun tx => tx.actions.inner) hsame).trans (congrArg Prod.fst hearly))
  exact absurd hactions (by decide +kernel)

end

end Mempool

end Astria.Sequencer
