import Astria.Sequencer.Mempool.Bookkeeping
import Astria.Sequencer.Mempool.Maintenance

/-!
# What the mempool reports as removed

A transaction that leaves the mempool is put in the removal cache, from which CometBFT learns that it
can drop it as well.

Results:
* `untracked_reported`: what `remove_tx_invalid` and `run_maintenance` stop tracking they put in the
  removal cache, where it stays unless it was dropped from the full cache, as long as parked has room
  for the transactions that maintenance demotes;
* `demoted_dropped`: a demoted transaction that parked refuses is not reported.
-/

namespace Astria.Sequencer

open Astria.Core Astria.Lib

/-! ## The removal cache -/

namespace RemovalCache

/-- Adds removed transactions one after the other. -/
def addAll : List (TransactionId × RemovalReason) → RemovalCache → RemovalCache
  | [], c => c
  | (txHash, reason) :: rest, c => addAll rest (c.add txHash reason)

/-- What an addition drops: the oldest hash, if the hash is new and the queue is full. -/
def dropped (txHash : TransactionId) (c : RemovalCache) : List TransactionId :=
  if (c.cache.lookup txHash).isSome then []
  else if c.removeQueue.length = c.maxSize then c.removeQueue.take 1
  else []

/-- What additions one after the other drop. -/
def evicted : List (TransactionId × RemovalReason) → RemovalCache → List TransactionId
  | [], _ => []
  | (txHash, reason) :: rest, c => c.dropped txHash ++ evicted rest (c.add txHash reason)

theorem lookup_add_self (txHash : TransactionId) (reason : RemovalReason) (c : RemovalCache) :
    ((c.add txHash reason).cache.lookup txHash).isSome = true := by
  unfold add
  split_ifs with h
  · exact h
  · dsimp only
    rw [AList.lookup_insert]
    rfl

/-- An addition leaves the entries of the other hashes that it does not drop. -/
theorem lookup_add_of_ne {id txHash : TransactionId} {c : RemovalCache} (hne : id ≠ txHash)
    (hkept : id ∉ c.dropped txHash) (reason : RemovalReason) :
    (c.add txHash reason).cache.lookup id = c.cache.lookup id := by
  unfold add
  unfold dropped at hkept
  by_cases hin : (c.cache.lookup txHash).isSome
  · rw [if_pos hin]
  · rw [if_neg hin] at hkept ⊢
    dsimp only
    rw [AList.lookup_insert_ne hne]
    unfold makeRoom
    cases hqueue : c.removeQueue with
    | nil => rfl
    | cons removedTx rest =>
      rw [hqueue] at hkept
      dsimp only
      split_ifs with hfull
      · rw [if_pos hfull] at hkept
        have hother : id ≠ removedTx := fun h => hkept (List.mem_singleton.mpr h)
        exact AList.lookup_erase_ne hother
      · rfl

theorem lookup_add {id : TransactionId} {c : RemovalCache} (h : (c.cache.lookup id).isSome = true)
    (txHash : TransactionId) (reason : RemovalReason) :
    ((c.add txHash reason).cache.lookup id).isSome = true ∨ id ∈ c.dropped txHash := by
  by_cases hsame : id = txHash
  · left
    rw [hsame]
    exact lookup_add_self txHash reason c
  · by_cases hkept : id ∈ c.dropped txHash
    · exact Or.inr hkept
    · left
      rwa [lookup_add_of_ne hsame hkept]

/-- What is in the cache stays there unless it is dropped. -/
theorem lookup_addAll {id : TransactionId} (l : List (TransactionId × RemovalReason))
    {c : RemovalCache} (h : (c.cache.lookup id).isSome = true) :
    ((c.addAll l).cache.lookup id).isSome = true ∨ id ∈ c.evicted l := by
  induction l generalizing c with
  | nil => exact Or.inl h
  | cons e l ih =>
    rcases lookup_add h e.1 e.2 with h | h
    · exact (ih h).imp_right fun h => List.mem_append_right _ h
    · exact Or.inr (List.mem_append_left _ h)

/-- What is added is in the cache afterwards unless it is dropped. -/
theorem lookup_addAll_of_mem {id : TransactionId} {l : List (TransactionId × RemovalReason)}
    {c : RemovalCache} (h : id ∈ l.map (·.1)) :
    ((c.addAll l).cache.lookup id).isSome = true ∨ id ∈ c.evicted l := by
  induction l generalizing c with
  | nil => exact absurd h List.not_mem_nil
  | cons e l ih =>
    rw [List.map_cons, List.mem_cons] at h
    refine (?_ : _ ∨ id ∈ evicted l (c.add e.1 e.2)).imp_right
      fun h => List.mem_append_right _ h
    rcases h with rfl | h
    · exact lookup_addAll l (lookup_add_self e.1 e.2 c)
    · exact ih h

/-- The reason with which a hash is added first. -/
def firstReason (id : TransactionId) : List (TransactionId × RemovalReason) → Option RemovalReason
  | [] => none
  | (txHash, reason) :: rest => if id = txHash then some reason else firstReason id rest

/-- A reason stays what it is unless the hash is dropped. -/
theorem lookup_addAll_of_some {id : TransactionId} {reason : RemovalReason}
    {l : List (TransactionId × RemovalReason)} {c : RemovalCache}
    (h : c.cache.lookup id = some reason) (hkept : id ∉ c.evicted l) :
    (c.addAll l).cache.lookup id = some reason := by
  induction l generalizing c with
  | nil => exact h
  | cons e l ih =>
    rw [evicted, List.mem_append, not_or] at hkept
    refine ih ?_ hkept.2
    by_cases hsame : id = e.1
    · have hin : (c.cache.lookup e.1).isSome := by
        rw [← hsame, h]
        rfl
      unfold add
      rwa [if_pos hin]
    · rwa [lookup_add_of_ne hsame hkept.1]

/-- A hash without a reason gets the first one. -/
theorem lookup_addAll_of_none {id : TransactionId} {l : List (TransactionId × RemovalReason)}
    {c : RemovalCache} (h : c.cache.lookup id = none) (hkept : id ∉ c.evicted l) :
    (c.addAll l).cache.lookup id = firstReason id l := by
  induction l generalizing c with
  | nil => exact h
  | cons e l ih =>
    rw [evicted, List.mem_append, not_or] at hkept
    rw [firstReason]
    by_cases hsame : id = e.1
    · rw [if_pos hsame]
      refine lookup_addAll_of_some (c := c.add e.1 e.2) ?_ hkept.2
      have hout : ¬(c.cache.lookup e.1).isSome := by
        rw [← hsame, h]
        exact Bool.false_ne_true
      unfold add
      rw [if_neg hout, hsame]
      exact AList.lookup_insert _
    · rw [if_neg hsame]
      exact ih (c := c.add e.1 e.2) (by rwa [lookup_add_of_ne hsame hkept.1]) hkept.2

/-- A hash without a reason that is not added has none afterwards. -/
theorem lookup_addAll_eq_none {id : TransactionId} {l : List (TransactionId × RemovalReason)}
    {c : RemovalCache} (h : c.cache.lookup id = none) (hid : id ∉ l.map (·.1)) :
    (c.addAll l).cache.lookup id = none := by
  induction l generalizing c with
  | nil => exact h
  | cons e l ih =>
    rw [List.map_cons, List.mem_cons, not_or] at hid
    refine ih ?_ hid.2
    unfold add
    split_ifs
    · exact h
    · dsimp only
      rw [AList.lookup_insert_ne hid.1]
      unfold makeRoom
      cases c.removeQueue with
      | nil => exact h
      | cons removedTx rest =>
        dsimp only
        split_ifs
        · by_cases hdropped : id = removedTx
          · rw [hdropped]
            exact AList.lookup_erase _ _
          · rwa [AList.lookup_erase_ne hdropped]
        · exact h

theorem length_makeRoom (c : RemovalCache) :
    c.makeRoom.maxSize = c.maxSize ∧ c.makeRoom.removeQueue.length ≤ c.removeQueue.length := by
  unfold makeRoom
  cases hqueue : c.removeQueue with
  | nil => exact ⟨rfl, by rw [hqueue]⟩
  | cons removedTx rest =>
    dsimp only
    split_ifs
    · exact ⟨rfl, Nat.le_succ _⟩
    · exact ⟨rfl, by rw [hqueue]⟩

theorem length_removeQueue_add (txHash : TransactionId) (reason : RemovalReason)
    (c : RemovalCache) :
    (c.add txHash reason).maxSize = c.maxSize ∧
      (c.add txHash reason).removeQueue.length ≤ c.removeQueue.length + 1 := by
  obtain ⟨hsize, hlength⟩ := c.length_makeRoom
  unfold add
  split_ifs
  · exact ⟨rfl, Nat.le_succ _⟩
  · refine ⟨hsize, ?_⟩
    dsimp only
    rw [List.length_append, List.length_singleton]
    omega

end RemovalCache

namespace Mempool

section

variable {parkedMaxTxCount : ℕ} [External] [TransactionCodec]

/-! ## Reports -/

omit [External] [TransactionCodec] in
theorem cache_report (l : List (TransactionId × RemovalReason)) (m : Mempool parkedMaxTxCount) :
    (m.report l).cometBftRemovalCache = m.cometBftRemovalCache.addAll l := by
  induction l generalizing m with
  | nil => rfl
  | cons e l ih => exact ih _

omit [External] [TransactionCodec] in
theorem mem_report {id : TransactionId} (l : List (TransactionId × RemovalReason))
    (m : Mempool parkedMaxTxCount) :
    id ∈ (m.report l).containedTxs ↔ id ∈ m.containedTxs ∧ id ∉ l.map (·.1) := by
  induction l generalizing m with
  | nil => simp [report]
  | cons e l ih =>
    rw [report, ih, List.map_cons, List.mem_cons, not_or]
    dsimp only
    rw [Finset.mem_erase]
    tauto

/-! ## Room for demoted transactions -/

/-- Parked has room for the transactions that the balance of an account demotes: for the account and
in all, and at their nonces. -/
def FitsParked (a : AddressBytes) (b : Balances) (m : Mempool parkedMaxTxCount) : Prop :=
  let demotionTxs := ((m.pending.queue a).findDemotables b).1
  demotionTxs = [] ∨
    (m.parked.queue a).items.length + demotionTxs.length ≤ maxParkedTxsPerAccount ∧
      m.parked.len + demotionTxs.length ≤ parkedMaxTxCount ∧
      ∀ t ∈ demotionTxs, (m.parked.queue a).get t.nonce = none

/-- At the turn of every account whose reads succeed, once it is cleaned, parked has room for what is
demoted. -/
def DemotionsFit (state : StateReads) (recost : Bool) (clock : Clock) :
    List AddressBytes → Mempool parkedMaxTxCount → Prop
  | [], _ => True
  | a :: rest, m =>
    (∀ n b, state.getAccountNonce a = .ok n → state.getAccountBalances a = .ok b →
      (m.cleanAccount state recost clock a n).2.FitsParked a b) ∧
      DemotionsFit state recost clock rest (m.maintainAccount state recost clock a).2

/-- Transactions for which there is room are all demoted. -/
theorem demote_all {n : ℕ} {b : Balances} {a : AddressBytes} {l : List TimemarkedTransaction}
    {m : Mempool parkedMaxTxCount} (haddress : ∀ t ∈ l, t.address = a)
    (hasc : l.Pairwise fun s t => s.nonce < t.nonce) (hge : ∀ t ∈ l, n ≤ t.nonce)
    (haccount : (m.parked.queue a).items.length + l.length ≤ maxParkedTxsPerAccount)
    (htotal : m.parked.len + l.length ≤ parkedMaxTxCount)
    (hfree : ∀ t ∈ l, (m.parked.queue a).get t.nonce = none) :
    ∃ parked, demote n b l m = { m with parked := parked } := by
  induction l generalizing m with
  | nil => exact ⟨m.parked, rfl⟩
  | cons t l ih =>
    obtain rfl : t.address = a := haddress t List.mem_cons_self
    rw [List.length_cons] at haccount htotal
    have hget := hfree t List.mem_cons_self
    -- parked takes the first transaction
    obtain ⟨parked, hadd⟩ : ∃ parked, m.parked.add t n b = .ok parked := by
      refine ⟨_, TransactionsContainer.add_eq_ok.mpr ⟨if_neg (by omega), _,
        Queue.add_eq_ok.mpr ⟨decide_eq_false (by omega), hge t List.mem_cons_self, hget, rfl, rfl,
          rfl⟩, rfl⟩⟩
    obtain ⟨-, hrefiled, hheld⟩ := TransactionsContainer.refiled_of_add hadd
    have hperm := KeyedQueue.perm_insert hget
    rw [demote, hadd]
    dsimp only
    obtain ⟨parked', hdemote⟩ := ih (m := { m with parked := parked })
      (fun s hs => haddress s (List.mem_cons_of_mem _ hs)) (List.Pairwise.of_cons hasc)
      (fun s hs => hge s (List.mem_cons_of_mem _ hs))
      (by
        dsimp only
        rw [hrefiled.queue_self, hperm.length_eq, List.length_cons]
        omega)
      (by
        dsimp only
        rw [TransactionsContainer.len_eq_card] at htotal ⊢
        rw [hheld, Multiset.card_add, Multiset.card_singleton]
        omega)
      (by
        intro s hs
        dsimp only
        rw [hrefiled.queue_self, KeyedQueue.get_eq_none_iff]
        intro s' hs'
        rcases List.mem_cons.mp (hperm.mem_iff.mp hs') with rfl | hs'
        · exact ne_of_lt (List.rel_of_pairwise_cons hasc hs)
        · exact KeyedQueue.get_eq_none_iff.mp (hfree s (List.mem_cons_of_mem _ hs)) s' hs')
    exact ⟨parked', hdemote⟩

/-- Moves with room for what is demoted track what was tracked, and report nothing. -/
theorem moveAccount_keeps {a : AddressBytes} {n : ℕ} {b : Balances}
    {m : Mempool parkedMaxTxCount} (hfiled : m.Filed)
    (hge : ∀ t ∈ (m.pending.queue a).items, n ≤ t.nonce) (hfits : m.FitsParked a b) :
    (m.moveAccount a n b).containedTxs = m.containedTxs ∧
      (m.moveAccount a n b).cometBftRemovalCache = m.cometBftRemovalCache := by
  rcases moveAccount_cases (b := b) (hfiled.2 a) hge with
    ⟨-, target, pending, parked, q, rest, l, -, -, -, -, -, -, -, -, heq⟩ |
      ⟨hsome, pending, -, heq⟩
  · rw [heq]
    exact ⟨rfl, rfl⟩
  · obtain ⟨hitems, -, -⟩ := (m.pending.queue a).findDemotables_spec b
    rcases hfits with hnone | ⟨haccount, htotal, hfree⟩
    · exact absurd hnone hsome
    · have hmem : ∀ t ∈ ((m.pending.queue a).findDemotables b).1,
          t ∈ (m.pending.queue a).items := by
        intro t ht
        rw [hitems]
        exact List.mem_append_right _ ht
      have hasc := (m.pending.queue a).ascending
      rw [hitems, List.pairwise_append] at hasc
      obtain ⟨parked, hdemote⟩ := demote_all (n := n) (b := b) (m := { m with pending := pending })
        (fun t ht => hfiled.1 a t (hmem t ht)) hasc.2.1 (fun t ht => hge t (hmem t ht))
        haccount htotal hfree
      rw [heq, hdemote]
      exact ⟨rfl, rfl⟩

theorem maintainAccounts_keepTracking {state : StateReads} {recost : Bool} {clock : Clock}
    {addresses : List AddressBytes} {m : Mempool parkedMaxTxCount} (hfiled : m.Filed)
    (hfit : DemotionsFit state recost clock addresses m) :
    (m.maintainAccounts state recost clock addresses).2.containedTxs = m.containedTxs ∧
      (m.maintainAccounts state recost clock addresses).2.cometBftRemovalCache =
        m.cometBftRemovalCache := by
  induction addresses generalizing m with
  | nil => exact ⟨rfl, rfl⟩
  | cons a rest ih =>
    obtain ⟨hfits, hrest⟩ := hfit
    have hturn : (m.maintainAccount state recost clock a).2.containedTxs = m.containedTxs ∧
        (m.maintainAccount state recost clock a).2.cometBftRemovalCache =
          m.cometBftRemovalCache := by
      rcases m.maintainAccount_cases state recost clock a with ⟨heq, -⟩ | ⟨n, b, hn, hb, heq⟩
      · rw [heq]
        exact ⟨rfl, rfl⟩
      · have hmoves := moveAccount_keeps (hfiled.cleanAccount state recost clock a n)
          (fun t ht => le_nonce_cleanAccount ht) (hfits n b hn hb)
        obtain ⟨pending, parked, q, q', out, out', -, -, -, -, -, hcleaned⟩ :=
          m.cleanAccount_spec state recost clock a n
        rw [heq]
        refine ⟨hmoves.1.trans ?_, hmoves.2.trans ?_⟩ <;> rw [hcleaned]
    obtain ⟨hcontained, hcache⟩ := ih (hfiled.maintainAccount state recost clock a) hrest
    exact ⟨hcontained.trans hturn.1, hcache.trans hturn.2⟩

/-! ## What is reported -/

/-- What the removal of an invalid transaction reports, in this order: the transaction itself, and those
that the containers take out. -/
def invalidatedTxs (signedTx : Transaction) (reason : RemovalReason) (m : Mempool parkedMaxTxCount) :
    List (TransactionId × RemovalReason) :=
  let report (removedTxs : List TransactionId) : List (TransactionId × RemovalReason) :=
    (transactionId signedTx, reason) ::
      removedTxs.map fun id => (id, RemovalReason.lowerNonceInvalidated)
  match (m.pending.remove signedTx).1 with
  | .ok removedTxs => report (removedTxs ++ (m.parked.clearAccount (signer signedTx)).1)
  | .error signedTx =>
    match (m.parked.remove signedTx).1 with
    | .ok removedTxs => report removedTxs
    | .error _ => []

/-- What is taken out of the containers is reported, after the transaction itself. -/
theorem removeTxInvalid_reports (tx : Transaction) (reason : RemovalReason)
    (m : Mempool parkedMaxTxCount) :
    ∃ (m' : Mempool parkedMaxTxCount) (out : List TimemarkedTransaction),
      m.held = m'.held + (out.map TimemarkedTransaction.signedTx : List _) ∧
        m'.containedTxs = m.containedTxs ∧ m'.cometBftRemovalCache = m.cometBftRemovalCache ∧
        (m.removeTxInvalid tx reason =
              reportInvalid (transactionId tx) reason (out.map TimemarkedTransaction.id) m' ∧
            m.invalidatedTxs tx reason = (transactionId tx, reason) ::
              (out.map TimemarkedTransaction.id).map
                (fun id => (id, RemovalReason.lowerNonceInvalidated)) ∨
          m.removeTxInvalid tx reason = m' ∧ m.invalidatedTxs tx reason = []) := by
  obtain ⟨q, out, hrefiled, hitems, -, hremoved⟩ :=
    TransactionsContainer.remove_refiled tx m.pending
  unfold removeTxInvalid invalidatedTxs
  cases h : m.pending.remove tx with
  | mk removed pending =>
  rw [h] at hremoved hrefiled
  dsimp only at hremoved hrefiled ⊢
  rw [hremoved]
  by_cases hnone : out = []
  · obtain ⟨q', out', hrefiled', hitems', -, hremoved'⟩ :=
      TransactionsContainer.remove_refiled tx m.parked
    rw [if_pos hnone]
    dsimp only
    cases h' : m.parked.remove tx with
    | mk removed' parked =>
    rw [h'] at hremoved' hrefiled'
    dsimp only at hremoved' hrefiled' ⊢
    rw [hremoved']
    refine ⟨{ m with pending := pending, parked := parked }, out', ?_, rfl, rfl, ?_⟩
    · have hheld := held_of_refiled hrefiled hrefiled' (Queue.txs_eq_add (Or.inl hitems))
        (Queue.txs_eq_add (Or.inl hitems'))
      rw [hnone, List.map_nil, Multiset.coe_nil, zero_add] at hheld
      exact hheld
    · by_cases hnone' : out' = []
      · rw [if_pos hnone']
        exact Or.inr ⟨rfl, rfl⟩
      · rw [if_neg hnone']
        exact Or.inl ⟨rfl, rfl⟩
  · obtain ⟨hcleared, hrefiled'⟩ := TransactionsContainer.clearAccount_refiled (signer tx) m.parked
    rw [if_neg hnone]
    refine ⟨{ m with pending := pending, parked := (m.parked.clearAccount (signer tx)).2 },
      out ++ (m.parked.queue (signer tx)).items, ?_, rfl, rfl, Or.inl ?_⟩
    · rw [List.map_append, ← Multiset.coe_add]
      exact held_of_refiled hrefiled hrefiled' (Queue.txs_eq_add (Or.inl hitems))
        (Queue.txs_eq_add (Or.inl rfl))
    · rw [List.map_append, hcleared]
      exact ⟨rfl, rfl⟩

/-- An invalid transaction is not held any more. -/
theorem notMem_held_removeTxInvalid {m : Mempool parkedMaxTxCount} (hfiled : m.Filed)
    (tx : Transaction) (reason : RemovalReason) : tx ∉ (m.removeTxInvalid tx reason).held := by
  have hpending : tx ∉ (m.pending.remove tx).2.held :=
    TransactionsContainer.notMem_held_remove hfiled.1 tx
  unfold removeTxInvalid
  cases h : m.pending.remove tx with
  | mk removed pending =>
  rw [h] at hpending
  cases removed with
  | ok removedTxs =>
    have hparked : tx ∉ (m.parked.clearAccount (signer tx)).2.held :=
      TransactionsContainer.notMem_held_clearAccount hfiled.2 tx
    dsimp only
    unfold reportInvalid
    rw [held_report]
    exact fun hmem => (Multiset.mem_add.mp hmem).elim hpending hparked
  | error tx' =>
    obtain rfl : tx' = tx := by
      obtain ⟨-, out, -, -, -, hremoved⟩ := TransactionsContainer.remove_refiled tx m.pending
      rw [h] at hremoved
      dsimp only at hremoved
      split_ifs at hremoved
      exact Except.error.inj hremoved
    have hparked : tx' ∉ (m.parked.remove tx').2.held :=
      TransactionsContainer.notMem_held_remove hfiled.2 tx'
    dsimp only
    cases h' : m.parked.remove tx' with
    | mk removed' parked =>
    rw [h'] at hparked
    cases removed' with
    | ok removedTxs' =>
      dsimp only
      unfold reportInvalid
      rw [held_report]
      exact fun hmem => (Multiset.mem_add.mp hmem).elim hpending hparked
    | error _ => exact fun hmem => (Multiset.mem_add.mp hmem).elim hpending hparked

/-- Maintenance reports nothing before it has visited all accounts. -/
theorem cache_maintainAccounts (state : StateReads) (recost : Bool) (clock : Clock)
    (addresses : List AddressBytes) (m : Mempool parkedMaxTxCount) :
    (m.maintainAccounts state recost clock addresses).2.cometBftRemovalCache =
      m.cometBftRemovalCache := by
  refine maintainAccounts_keeps
    (P := fun m' => m'.cometBftRemovalCache = m.cometBftRemovalCache) state recost clock ?_
    addresses rfl
  intro a m' hm'
  rcases m'.maintainAccount_cases state recost clock a with ⟨heq, -⟩ | ⟨n, b, -, -, heq⟩
  · rw [heq]
    exact hm'
  · rw [heq, ← hm']
    show (moveAccount _ _ _ _).cometBftRemovalCache = _
    unfold moveAccount
    dsimp only
    split_ifs
    · exact promote_cache _ _ _ _ _
    · exact demote_cache _ _ _ _

/-! ## The calls that report -/

/-- The removal of an invalid transaction, or maintenance with room for what it demotes. -/
def ReportsRemovals (m : Mempool parkedMaxTxCount) : Call → Prop
  | .removeTxInvalid _ _ => True
  | .runMaintenance state recost clock addresses => DemotionsFit state recost clock addresses m
  | _ => False

/-- In every mempool that a run reaches, what a removal or maintenance stops tracking it reports, and
the report is in the cache unless it was dropped from it. -/
theorem untracked_reported {nonces : Nonces} {m : Mempool parkedMaxTxCount}
    (run : Run (fun _ _ _ _ => True) nonces m) {c : Call} (hreports : m.ReportsRemovals c) :
    ∃ removedTxs, (m.after c).cometBftRemovalCache = m.cometBftRemovalCache.addAll removedTxs ∧
      ∀ id ∈ m.containedTxs, id ∉ (m.after c).containedTxs →
        ((m.after c).cometBftRemovalCache.cache.lookup id).isSome = true ∨
          id ∈ m.cometBftRemovalCache.evicted removedTxs := by
  -- it suffices that all of what is not tracked any more is reported
  suffices hsuff : ∃ removedTxs,
      (m.after c).cometBftRemovalCache = m.cometBftRemovalCache.addAll removedTxs ∧
        ∀ id ∈ m.containedTxs, id ∉ (m.after c).containedTxs → id ∈ removedTxs.map (·.1) by
    obtain ⟨removedTxs, hcache, hmem⟩ := hsuff
    refine ⟨removedTxs, hcache, fun id htracked hgone => ?_⟩
    rw [hcache]
    exact RemovalCache.lookup_addAll_of_mem (hmem id htracked hgone)
  cases c with
  | insert ttx n b => exact hreports.elim
  | checkRemovedCometBft txHash => exact hreports.elim
  | removeTxInvalid tx reason =>
    obtain ⟨pending, parked, q, q', out, out', -, -, -, -, -, hcases⟩ :=
      m.removeTxInvalid_cases tx reason
    show ∃ removedTxs, (m.removeTxInvalid tx reason).cometBftRemovalCache = _ ∧
      ∀ id ∈ m.containedTxs, id ∉ (m.removeTxInvalid tx reason).containedTxs → _
    rcases hcases with heq | ⟨-, -, heq⟩
    · rw [heq]
      unfold reportInvalid
      refine ⟨(transactionId tx, reason) :: _, cache_report _ _, ?_⟩
      intro id htracked hgone
      rw [mem_report, not_and, not_not] at hgone
      exact List.mem_cons_of_mem _ (hgone htracked)
    · rw [heq]
      exact ⟨[], rfl, fun id htracked hgone => absurd htracked hgone⟩
  | runMaintenance state recost clock addresses =>
    obtain ⟨hcontained, hcache⟩ := maintainAccounts_keepTracking run.filed hreports
    refine ⟨(m.maintainAccounts state recost clock addresses).1, ?_, ?_⟩
    · show (report _ _).cometBftRemovalCache = _
      rw [cache_report, hcache]
    · intro id htracked hgone
      have hgone' : id ∉ (report (m.maintainAccounts state recost clock addresses).1
        (m.maintainAccounts state recost clock addresses).2).containedTxs := hgone
      rw [mem_report, not_and, not_not, hcontained] at hgone'
      exact hgone' htracked

end

/-! ## A demoted transaction without room -/

section

open TestUtils

def firstPooled : TimemarkedTransaction := pooled [1] 0

def secondPooled : TimemarkedTransaction := pooled [1] 1

/-- Two pending transactions of alice, with room for one parked one. -/
def twoPending : Mempool 1 :=
  ((new 1).after (.insert firstPooled 0 (nativeBalance 2))).after
    (.insert secondPooled 0 (nativeBalance 2))

theorem run_twoPending : Run (fun _ _ _ _ => True) (fun _ => 0) twoPending := by
  have hfirst : (Call.insert firstPooled 0 (nativeBalance 2)).At (fun _ => 0) (new 1) := rfl
  have hsecond : (Call.insert secondPooled 0 (nativeBalance 2)).At (fun _ => 0)
    ((new 1).after (.insert firstPooled 0 (nativeBalance 2))) := rfl
  exact .call (.call (.new fun _ => 0) hfirst trivial) hsecond trivial

set_option maxRecDepth 10000 in
theorem demotionsFit_fifth : fifthPending.ReportsRemovals (maintenance 6 0) := by
  refine ⟨fun n b hn hb => Or.inr ?_, trivial⟩
  obtain rfl := Except.ok.inj hn
  obtain rfl := Except.ok.inj hb
  have hroom : ((fifthPending.cleanAccount (chainReads 6 0) false startClock
        aliceAddress.bytes 6).2.parked.queue aliceAddress.bytes).items.isEmpty = true ∧
      (fifthPending.cleanAccount (chainReads 6 0) false startClock
        aliceAddress.bytes 6).2.parked.len = 0 ∧
      (((fifthPending.cleanAccount (chainReads 6 0) false startClock
        aliceAddress.bytes 6).2.pending.queue aliceAddress.bytes).findDemotables
          (nativeBalance 0)).1.length = 0 := by
    decide +kernel
  obtain ⟨hparked, htotal, hdemoted⟩ := hroom
  rw [List.isEmpty_iff] at hparked
  refine ⟨?_, ?_, ?_⟩
  · rw [hparked, hdemoted]
    decide
  · rw [htotal, hdemoted]
    decide
  · intro t _
    rw [KeyedQueue.get_eq_none_iff, hparked]
    exact fun s hs => absurd hs List.not_mem_nil

set_option maxRecDepth 10000 in
/-- At alice's nonce 6 the transaction is stale: it is not tracked any more, and it is reported. -/
theorem untracked_reported_fifth :
    ∃ removedTxs, (fifthPending.after (maintenance 6 0)).cometBftRemovalCache =
        fifthPending.cometBftRemovalCache.addAll removedTxs ∧
      (pooled [1] 5).id ∈ fifthPending.containedTxs ∧
      (pooled [1] 5).id ∉ (fifthPending.after (maintenance 6 0)).containedTxs ∧
      (((fifthPending.after (maintenance 6 0)).cometBftRemovalCache.cache.lookup
          (pooled [1] 5).id).isSome = true ∨
        (pooled [1] 5).id ∈ fifthPending.cometBftRemovalCache.evicted removedTxs) := by
  have htracked : (pooled [1] 5).id ∈ fifthPending.containedTxs := by decide +kernel
  have hgone : (pooled [1] 5).id ∉ (fifthPending.after (maintenance 6 0)).containedTxs := by
    decide +kernel
  obtain ⟨removedTxs, hcache, hreported⟩ :=
    untracked_reported (run_fifthPending fun _ _ _ => trivial) demotionsFit_fifth
  exact ⟨removedTxs, hcache, htracked, hgone, hreported _ htracked hgone⟩

set_option maxRecDepth 10000 in
/-- When the balance is gone, parked takes the first one only; the second one is not tracked any more,
and nothing was ever put in the removal cache. -/
theorem demoted_dropped :
    Run (fun _ _ _ _ => True) (fun _ => 0) twoPending ∧
      (maintenance 0 0).At (fun _ => 0) twoPending ∧
      secondPooled.id ∈ twoPending.containedTxs ∧
      secondPooled.id ∉ (twoPending.after (maintenance 0 0)).containedTxs ∧
      (twoPending.after (maintenance 0 0)).cometBftRemovalCache.removeQueue = [] ∧
      (twoPending.after (maintenance 0 0)).cometBftRemovalCache.cache.lookup secondPooled.id =
        none := by
  have haddresses : twoPending.pending.addresses = [aliceAddress.bytes] ∧
      twoPending.parked.addresses = [] := by
    decide +kernel
  refine ⟨run_twoPending, ⟨fun a n h => (Except.ok.inj h).symm, List.nodup_singleton _, ?_⟩, ?_⟩
  · rw [haddresses.1, haddresses.2]
    simp
  · decide +kernel

end

end Mempool

end Astria.Sequencer
