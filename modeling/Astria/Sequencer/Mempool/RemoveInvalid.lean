import Astria.Core.TransactionConversions
import Astria.Sequencer.Mempool.Bookkeeping

/-!
# What `remove_tx_invalid` removes

`remove_tx_invalid` looks for the transactions of an account by nonce
(`mempool/transactions_container.rs`, lines 486–497 and 646–666), not by hash, and first in pending.
What is parked goes with a pending transaction whatever its nonce is, and what is pending stays when only
parked has the nonce.

Results:
* `removeTxInvalid_spec`: the queues of both containers after the removal, by where the nonce is found;
* `removesIt_iff`: when the removal takes exactly the transaction and its account's with higher nonces;
* `replacement_removed`: a transaction that is not in the mempool takes another one of its nonce along.
-/

namespace Astria.Sequencer

open Astria.Core Astria.Lib

namespace Mempool

section

variable {parkedMaxTxCount : ℕ} [External] [TransactionCodec]

/-! ## Specification -/

/-- The transaction is in one of the containers, by hash. -/
def Contains (tx : Transaction) (m : Mempool parkedMaxTxCount) : Prop :=
  ∃ a, (∃ t ∈ (m.pending.queue a).items, t.id = transactionId tx) ∨
    ∃ t ∈ (m.parked.queue a).items, t.id = transactionId tx

/-- What is to go with an invalid transaction: itself, and its account's transactions with higher
nonces. -/
def Goes (tx : Transaction) (a : AddressBytes) (t : TimemarkedTransaction) : Prop :=
  t.id = transactionId tx ∨ a = signer tx ∧ tx.params.nonce < t.nonce

/-- Exactly what is to go is gone from a container. -/
def Leaves {d : Discipline} (tx : Transaction) (c c' : TransactionsContainer d) : Prop :=
  ∀ a t, t ∈ (c'.queue a).items ↔ t ∈ (c.queue a).items ∧ ¬Goes tx a t

/-- If the transaction is in the mempool, exactly what is to go is gone; if not, both containers hold what
they held. -/
def RemovesIt (tx : Transaction) (m m' : Mempool parkedMaxTxCount) : Prop :=
  (m.Contains tx → Leaves tx m.pending m'.pending ∧ Leaves tx m.parked m'.parked) ∧
    (¬m.Contains tx → ∀ a, m'.pending.queue a = m.pending.queue a ∧
      m'.parked.queue a = m.parked.queue a)

/-- The transaction alone has its nonce where the nonce is looked up: a pending transaction of its
account with its nonce is the transaction, and then what is parked has higher nonces or is it too; if the
nonce is not pending, then a parked transaction with the nonce is the transaction, and then what is pending
has lower nonces. -/
def FindsIt (tx : Transaction) (m : Mempool parkedMaxTxCount) : Prop :=
  (∀ t ∈ (m.pending.queue (signer tx)).items, t.nonce = tx.params.nonce →
      t.id = transactionId tx ∧
        ∀ s ∈ (m.parked.queue (signer tx)).items, s.id = transactionId tx ∨ tx.params.nonce < s.nonce) ∧
    ((m.pending.queue (signer tx)).get tx.params.nonce = none →
      ∀ t ∈ (m.parked.queue (signer tx)).items, t.nonce = tx.params.nonce →
        t.id = transactionId tx ∧
          ∀ s ∈ (m.pending.queue (signer tx)).items, s.nonce < tx.params.nonce)

/-! ## The queues afterwards -/

theorem queue_remove {d : Discipline} (tx : Transaction) (c : TransactionsContainer d) :
    (((c.queue (signer tx)).get tx.params.nonce).isSome →
      (∃ removed, (c.remove tx).1 = .ok removed) ∧
        TransactionsContainer.Refiled (signer tx) ((c.queue (signer tx)).below tx.params.nonce) c
          (c.remove tx).2) ∧
      ((c.queue (signer tx)).get tx.params.nonce = none →
        (c.remove tx).1 = .error tx ∧
          TransactionsContainer.Refiled (signer tx) (c.queue (signer tx)) c (c.remove tx).2) := by
  obtain ⟨hremoved, hrefiled⟩ :=
    TransactionsContainer.withAccount_spec (f := Queue.remove tx.params.nonce) rfl (signer tx) c
  unfold TransactionsContainer.remove
  dsimp only
  rw [hremoved]
  cases hget : (c.queue (signer tx)).get tx.params.nonce with
  | none =>
    have hqueue : Queue.remove tx.params.nonce (c.queue (signer tx)) = ([], c.queue (signer tx)) := by
      unfold Queue.remove
      rw [hget]
    rw [hqueue] at hrefiled ⊢
    exact ⟨fun h => absurd h Bool.false_ne_true, fun _ => ⟨rfl, hrefiled⟩⟩
  | some t =>
    obtain ⟨hmem, hnonce⟩ := KeyedQueue.mem_of_get hget
    have hqueue : Queue.remove tx.params.nonce (c.queue (signer tx)) =
        (((c.queue (signer tx)).atLeast tx.params.nonce).items.map TimemarkedTransaction.id,
          (c.queue (signer tx)).below tx.params.nonce) := by
      unfold Queue.remove
      rw [hget]
    have hne : ((c.queue (signer tx)).atLeast tx.params.nonce).items ≠ [] :=
      List.ne_nil_of_mem (KeyedQueue.mem_atLeast.mpr ⟨hmem, hnonce.ge⟩)
    rw [hqueue] at hrefiled ⊢
    refine ⟨fun _ => ⟨?_, hrefiled⟩, fun h => nomatch h⟩
    dsimp only
    rw [if_neg (by simpa using hne)]
    exact ⟨_, rfl⟩

omit [External] [TransactionCodec] in
theorem queues_reportInvalid (txHash : TransactionId) (reason : RemovalReason)
    (removedTxs : List TransactionId) (m : Mempool parkedMaxTxCount) :
    (reportInvalid txHash reason removedTxs m).pending = m.pending ∧
      (reportInvalid txHash reason removedTxs m).parked = m.parked :=
  pending_report _ _

/-- Where the nonce is pending, the lower nonces stay pending and nothing stays parked; where it is only
parked, the lower nonces stay parked; otherwise both containers hold what they held. -/
theorem removeTxInvalid_spec (tx : Transaction) (reason : RemovalReason)
    (m : Mempool parkedMaxTxCount) :
    (((m.pending.queue (signer tx)).get tx.params.nonce).isSome →
      TransactionsContainer.Refiled (signer tx) ((m.pending.queue (signer tx)).below tx.params.nonce)
          m.pending (m.removeTxInvalid tx reason).pending ∧
        TransactionsContainer.Refiled (signer tx) .empty m.parked
          (m.removeTxInvalid tx reason).parked) ∧
    ((m.pending.queue (signer tx)).get tx.params.nonce = none →
      TransactionsContainer.Refiled (signer tx) (m.pending.queue (signer tx))
          m.pending (m.removeTxInvalid tx reason).pending ∧
        (((m.parked.queue (signer tx)).get tx.params.nonce).isSome →
          TransactionsContainer.Refiled (signer tx)
            ((m.parked.queue (signer tx)).below tx.params.nonce)
            m.parked (m.removeTxInvalid tx reason).parked) ∧
        ((m.parked.queue (signer tx)).get tx.params.nonce = none →
          TransactionsContainer.Refiled (signer tx) (m.parked.queue (signer tx))
            m.parked (m.removeTxInvalid tx reason).parked)) := by
  obtain ⟨hfound, hmissing⟩ := queue_remove tx m.pending
  obtain ⟨hfound', hmissing'⟩ := queue_remove tx m.parked
  obtain ⟨-, hcleared⟩ := TransactionsContainer.clearAccount_refiled (signer tx) m.parked
  unfold removeTxInvalid
  refine ⟨fun hget => ?_, fun hget => ?_⟩
  · obtain ⟨⟨removed, hremoved⟩, hrefiled⟩ := hfound hget
    cases h : m.pending.remove tx with
    | mk result pending =>
    rw [h] at hremoved hrefiled
    dsimp only at hremoved hrefiled
    rw [hremoved]
    dsimp only
    rw [(queues_reportInvalid _ _ _ _).1, (queues_reportInvalid _ _ _ _).2]
    exact ⟨hrefiled, hcleared⟩
  · obtain ⟨hremoved, hrefiled⟩ := hmissing hget
    cases h : m.pending.remove tx with
    | mk result pending =>
    rw [h] at hremoved hrefiled
    dsimp only at hremoved hrefiled
    rw [hremoved]
    dsimp only
    cases h' : m.parked.remove tx with
    | mk result' parked =>
    rw [h'] at hfound' hmissing'
    dsimp only at hfound' hmissing'
    cases result' with
    | ok removed' =>
      dsimp only
      rw [(queues_reportInvalid _ _ _ _).1, (queues_reportInvalid _ _ _ _).2]
      exact ⟨hrefiled, fun hget' => (hfound' hget').2, fun hget' => (hmissing' hget').2⟩
    | error tx' =>
      exact ⟨hrefiled, fun hget' => (hfound' hget').2, fun hget' => (hmissing' hget').2⟩

/-! ## What goes -/

omit [External] [TransactionCodec] in
theorem mem_held_of_mem {a : AddressBytes} {t : TimemarkedTransaction} {m : Mempool parkedMaxTxCount}
    (ht : t ∈ (m.pending.queue a).items ∨ t ∈ (m.parked.queue a).items) : t.signedTx ∈ m.held := by
  unfold held
  rw [Multiset.mem_add]
  exact ht.imp (fun ht => TransactionsContainer.mem_held.mpr ⟨a, t, ht, rfl⟩)
    fun ht => TransactionsContainer.mem_held.mpr ⟨a, t, ht, rfl⟩

/-- The transactions of the account with the invalid one's hash have its nonce, if no other transaction
that is held has the hash. -/
theorem of_id_eq {tx : Transaction} {m : Mempool parkedMaxTxCount} (hfiled : m.Filed)
    (hhash : ∀ tx' ∈ m.held, transactionId tx' = transactionId tx → tx' = tx) {a : AddressBytes}
    {t : TimemarkedTransaction}
    (ht : t ∈ (m.pending.queue a).items ∨ t ∈ (m.parked.queue a).items)
    (hid : t.id = transactionId tx) : a = signer tx ∧ t.nonce = tx.params.nonce := by
  have hsame : t.signedTx = tx := hhash t.signedTx (mem_held_of_mem ht) hid
  have haddress : t.address = a := ht.elim (hfiled.1 a t) (hfiled.2 a t)
  constructor
  · rw [← haddress, ← hsame]
    rfl
  · rw [← hsame]
    rfl

/-- A container that keeps its account's lower nonces has lost what is to go, if the transaction alone
has its nonce. -/
theorem leaves_below {d : Discipline} {tx : Transaction} {c c' : TransactionsContainer d}
    (hid : ∀ a, ∀ t ∈ (c.queue a).items, t.id = transactionId tx →
      a = signer tx ∧ t.nonce = tx.params.nonce)
    (halone : ∀ t ∈ (c.queue (signer tx)).items, t.nonce = tx.params.nonce →
      t.id = transactionId tx)
    (h : TransactionsContainer.Refiled (signer tx) ((c.queue (signer tx)).below tx.params.nonce)
      c c') : Leaves tx c c' := by
  intro a t
  unfold Goes
  rw [h.queue]
  split_ifs with ha
  · rw [KeyedQueue.mem_below, ha]
    constructor
    · rintro ⟨ht, hlt⟩
      have hlt' : t.nonce < tx.params.nonce := hlt
      refine ⟨ht, ?_⟩
      rintro (hsame | ⟨-, hgt⟩)
      · have := (hid _ t ht hsame).2
        omega
      · omega
    · rintro ⟨ht, hstays⟩
      refine ⟨ht, lt_of_le_of_ne (not_lt.mp fun hgt => hstays (Or.inr ⟨rfl, hgt⟩)) ?_⟩
      intro hsame
      exact hstays (Or.inl (halone t ht hsame))
  · constructor
    · intro ht
      refine ⟨ht, ?_⟩
      rintro (hsame | ⟨haccount, -⟩)
      · exact ha (hid a t ht hsame).1
      · exact ha haccount
    · exact fun h => h.1

/-- The same for a container that keeps nothing of the account, if all of it is to go. -/
theorem leaves_cleared {d : Discipline} {tx : Transaction} {c c' : TransactionsContainer d}
    (hid : ∀ a, ∀ t ∈ (c.queue a).items, t.id = transactionId tx →
      a = signer tx ∧ t.nonce = tx.params.nonce)
    (hgo : ∀ t ∈ (c.queue (signer tx)).items, t.id = transactionId tx ∨ tx.params.nonce < t.nonce)
    (h : TransactionsContainer.Refiled (signer tx) .empty c c') : Leaves tx c c' := by
  intro a t
  unfold Goes
  rw [h.queue]
  split_ifs with ha
  · rw [ha]
    constructor
    · intro ht
      exact absurd ht List.not_mem_nil
    · rintro ⟨ht, hstays⟩
      exact absurd ((hgo t ht).imp_right fun hgt => ⟨rfl, hgt⟩) hstays
  · constructor
    · intro ht
      refine ⟨ht, ?_⟩
      rintro (hsame | ⟨haccount, -⟩)
      · exact ha (hid a t ht hsame).1
      · exact ha haccount
    · exact fun h => h.1

omit [TransactionCodec] in
/-- Refiling an account's own queue changes nothing. -/
theorem queue_of_refiled_self {d : Discipline} {tx : Transaction} {c c' : TransactionsContainer d}
    (h : TransactionsContainer.Refiled (signer tx) (c.queue (signer tx)) c c') (a : AddressBytes) :
    c'.queue a = c.queue a := by
  rw [h.queue]
  split_ifs with ha
  · rw [ha]
  · rfl

/-- The same for a container that keeps everything, if nothing of it is to go. -/
theorem leaves_unchanged {d : Discipline} {tx : Transaction} {c c' : TransactionsContainer d}
    (hstay : ∀ t ∈ (c.queue (signer tx)).items, t.nonce < tx.params.nonce)
    (hid : ∀ a, ∀ t ∈ (c.queue a).items, t.id = transactionId tx →
      a = signer tx ∧ t.nonce = tx.params.nonce)
    (h : TransactionsContainer.Refiled (signer tx) (c.queue (signer tx)) c c') :
    Leaves tx c c' := by
  intro a t
  rw [queue_of_refiled_self h]
  refine ⟨fun ht => ⟨ht, ?_⟩, fun ht => ht.1⟩
  rintro (hsame | ⟨rfl, hgt⟩)
  · obtain ⟨rfl, hnonce⟩ := hid a t ht hsame
    have := hstay t ht
    omega
  · have := hstay t ht
    omega

/-- In every mempool that calls reach, `remove_tx_invalid` takes exactly the transaction and its account's
transactions with higher nonces, or nothing if the transaction is not there, if and only if the transaction
alone has its nonce where the nonce is looked up. -/
theorem removesIt_iff {nonces : Nonces} {m : Mempool parkedMaxTxCount}
    (run : Run (fun _ _ _ _ => True) nonces m) (tx : Transaction)
    (hhash : ∀ tx' ∈ m.held, transactionId tx' = transactionId tx → tx' = tx)
    (reason : RemovalReason) :
    m.RemovesIt tx (m.removeTxInvalid tx reason) ↔ m.FindsIt tx := by
  have hid : ∀ a t, t ∈ (m.pending.queue a).items ∨ t ∈ (m.parked.queue a).items →
      t.id = transactionId tx → a = signer tx ∧ t.nonce = tx.params.nonce :=
    fun a t ht => of_id_eq run.filed hhash ht
  obtain ⟨hpending, hmissing⟩ := m.removeTxInvalid_spec tx reason
  cases hget : (m.pending.queue (signer tx)).get tx.params.nonce with
  | some t =>
    -- the nonce is pending
    obtain ⟨ht, hnonce⟩ := KeyedQueue.mem_of_get hget
    obtain ⟨hbelow, hcleared⟩ := hpending (by rw [hget]; rfl)
    have hgone : t ∉ ((m.removeTxInvalid tx reason).pending.queue (signer tx)).items := by
      rw [hbelow.queue, if_pos rfl, KeyedQueue.mem_below]
      rintro ⟨-, hlt⟩
      exact absurd hlt (hnonce ▸ lt_irrefl _)
    constructor
    · intro h
      have hcontains : m.Contains tx := by
        by_contra hnot
        rw [((h.2 hnot) (signer tx)).1] at hgone
        exact hgone ht
      obtain ⟨hleaves, hleaves'⟩ := h.1 hcontains
      refine ⟨?_, fun hnone => absurd (hget.symm.trans hnone) (by simp)⟩
      intro s hs hsnonce
      obtain rfl : s = t := KeyedQueue.eq_of_key_eq hs ht (hsnonce.trans hnonce.symm)
      constructor
      · have hgoes : Goes tx (signer tx) s := by
          by_contra hstays
          exact hgone ((hleaves _ s).mpr ⟨hs, hstays⟩)
        refine hgoes.resolve_right ?_
        rintro ⟨-, hgt⟩
        omega
      · intro s' hs'
        have hgoes : Goes tx (signer tx) s' := by
          by_contra hstays
          have hin := (hleaves' _ s').mpr ⟨hs', hstays⟩
          rw [hcleared.queue, if_pos rfl] at hin
          exact List.not_mem_nil hin
        exact hgoes.imp_right fun h => h.2
    · intro h
      obtain ⟨hsame, hparked⟩ := h.1 t ht hnonce
      refine ⟨fun _ => ⟨?_, ?_⟩, fun hnot => absurd ⟨_, Or.inl ⟨t, ht, hsame⟩⟩ hnot⟩
      · exact leaves_below (fun a s hs => hid a s (Or.inl hs))
          (fun s hs hsnonce => (h.1 s hs hsnonce).1) hbelow
      · exact leaves_cleared (fun a s hs => hid a s (Or.inr hs)) hparked hcleared
  | none =>
    obtain ⟨hself, hfound, hnowhere⟩ := hmissing hget
    have hne := KeyedQueue.get_eq_none_iff.mp hget
    cases hget' : (m.parked.queue (signer tx)).get tx.params.nonce with
    | some t =>
      -- the nonce is only parked
      obtain ⟨ht, hnonce⟩ := KeyedQueue.mem_of_get hget'
      have hbelow := hfound (by rw [hget']; rfl)
      have hgone : t ∉ ((m.removeTxInvalid tx reason).parked.queue (signer tx)).items := by
        rw [hbelow.queue, if_pos rfl, KeyedQueue.mem_below]
        rintro ⟨-, hlt⟩
        exact absurd hlt (hnonce ▸ lt_irrefl _)
      constructor
      · intro h
        have hcontains : m.Contains tx := by
          by_contra hnot
          rw [((h.2 hnot) (signer tx)).2] at hgone
          exact hgone ht
        obtain ⟨hleaves, hleaves'⟩ := h.1 hcontains
        refine ⟨fun s hs hsnonce => absurd hsnonce (hne s hs), fun _ => ?_⟩
        intro s hs hsnonce
        obtain rfl : s = t := KeyedQueue.eq_of_key_eq hs ht (hsnonce.trans hnonce.symm)
        constructor
        · have hgoes : Goes tx (signer tx) s := by
            by_contra hstays
            exact hgone ((hleaves' _ s).mpr ⟨hs, hstays⟩)
          refine hgoes.resolve_right ?_
          rintro ⟨-, hgt⟩
          omega
        · intro s' hs'
          have hin : s' ∈ ((m.removeTxInvalid tx reason).pending.queue (signer tx)).items := by
            rw [queue_of_refiled_self hself]
            exact hs'
          have hstays := ((hleaves _ s').mp hin).2
          refine lt_of_le_of_ne (not_lt.mp fun hgt => hstays (Or.inr ⟨rfl, hgt⟩)) ?_
          exact hne s' hs'
      · intro h
        obtain ⟨hsame, hlower⟩ := h.2 hget t ht hnonce
        refine ⟨fun _ => ⟨?_, ?_⟩, fun hnot => absurd ⟨_, Or.inr ⟨t, ht, hsame⟩⟩ hnot⟩
        · exact leaves_unchanged hlower (fun a s hs => hid a s (Or.inl hs)) hself
        · exact leaves_below (fun a s hs => hid a s (Or.inr hs))
            (fun s hs hsnonce => (h.2 hget s hs hsnonce).1) hbelow
    | none =>
      -- nobody has the nonce
      have hne' := KeyedQueue.get_eq_none_iff.mp hget'
      have hself' := hnowhere hget'
      constructor
      · intro _
        exact ⟨fun s hs hsnonce => absurd hsnonce (hne s hs),
          fun _ s hs hsnonce => absurd hsnonce (hne' s hs)⟩
      · intro _
        refine ⟨?_, fun _ a => ⟨queue_of_refiled_self hself a, queue_of_refiled_self hself' a⟩⟩
        rintro ⟨a, ⟨t, ht, hsame⟩ | ⟨t, ht, hsame⟩⟩
        · obtain ⟨rfl, hnonce⟩ := hid a t (Or.inl ht) hsame
          exact absurd hnonce (hne t ht)
        · obtain ⟨rfl, hnonce⟩ := hid a t (Or.inr ht) hsame
          exact absurd hnonce (hne' t ht)

end

/-! ## Another transaction of the nonce -/

section

open TestUtils TestFormats

/-- Alice signs a transfer of some amount to bob, with nonce 1. -/
def transferOf (amount : ℕ) : Transaction :=
  TransactionBody.sign
    { actions :=
        { group := .bundleableGeneral
          inner := [.transfer { bobTransfer with amount := amount }]
          nonempty := by simp
          sameGroup := by simp [Action.group, Action.kind, ActionKind.group]
          single := by simp }
      params := { nonce := 1, chainId := "test" } } aliceSeed

/-- The first one, which costs one unit of the native asset. -/
def firstTransfer : TimemarkedTransaction where
  signedTx := transferOf 5
  nonce_le := show 1 ≤ u32Max by decide
  timeFirstSeen := 0
  cost := [(nria.toIbcPrefixed, 1)]

/-- It is parked, at alice's nonce 0. -/
def transferParked : Mempool 10 := (new 10).after (insertion firstTransfer 0)

theorem run_transferParked : Run (fun _ _ _ _ => True) (fun _ => 0) transferParked :=
  .call (.new fun _ => 0) rfl trivial

/-- It is the only transaction that is held. -/
theorem held_transferParked {tx : Transaction} (htx : tx ∈ transferParked.held) :
    tx = transferOf 5 := by
  have hle : transferParked.held ≤ (new 10).held + {transferOf 5} := by
    rcases (new 10).held_insert_le firstTransfer 0 (nativeBalance 1) with hle | ⟨hle, -⟩
    · exact hle.trans (Multiset.le_add_right _ _)
    · exact hle
  rcases Multiset.mem_add.mp (Multiset.mem_of_le hle htx) with hnew | hfirst
  · exact absurd hnew (Multiset.notMem_zero tx)
  · exact Multiset.mem_singleton.mp hfirst

theorem removesIt_iff_transfer :
    transferParked.RemovesIt (transferOf 5) (transferParked.removeTxInvalid (transferOf 5) .expired) ↔
      transferParked.FindsIt (transferOf 5) :=
  removesIt_iff run_transferParked (transferOf 5) (fun _ htx _ => held_transferParked htx) .expired

set_option maxRecDepth 10000 in
/-- A transfer of another amount with the same nonce, which is not in the mempool, takes the parked one
along. -/
theorem replacement_removed :
    Run (fun _ _ _ _ => True) (fun _ => 0) transferParked ∧
      ¬transferParked.RemovesIt (transferOf 6)
        (transferParked.removeTxInvalid (transferOf 6) .expired) := by
  refine ⟨run_transferParked, fun h => ?_⟩
  have hne : transactionId (transferOf 5) ≠ transactionId (transferOf 6) := by decide +kernel
  have hnot : ¬transferParked.Contains (transferOf 6) := by
    have hids : ∀ a t, t ∈ (transferParked.pending.queue a).items ∨
        t ∈ (transferParked.parked.queue a).items → t.id ≠ transactionId (transferOf 6) := by
      intro a t ht hsame
      unfold TimemarkedTransaction.id at hsame
      rw [held_transferParked (mem_held_of_mem ht)] at hsame
      exact hne hsame
    rintro ⟨a, ⟨t, ht, hsame⟩ | ⟨t, ht, hsame⟩⟩
    · exact hids a t (Or.inl ht) hsame
    · exact hids a t (Or.inr ht) hsame
  have hqueue := ((h.2 hnot) (signer (transferOf 6))).2
  have hlength := congrArg (fun q : Queue => q.items.length) hqueue
  exact absurd hlength (by decide +kernel)

end

end Mempool

end Astria.Sequencer
