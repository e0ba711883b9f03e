import Mathlib.Order.Basic
import Astria.Sequencer.Mempool
import Astria.Sequencer.TestUtils

/-!
# Runs of the mempool

Sequences of calls of the mempool, each made with the account nonces of some state of the chain.

Results:
* `Run.filed`: in every run, a transaction is in the queue of its signer;
* `Run.chained`: in a run over which no account's nonce decreases, every pending nonce is reached from
  the account's nonce through pending ones.
-/

namespace Astria.Sequencer

open Astria.Core Astria.Lib

namespace Mempool

variable {parkedMaxTxCount : ℕ} [External] [TransactionCodec]

/-! ## Calls -/

/-- The account nonces of a state of the chain. -/
abbrev Nonces := AddressBytes → ℕ

/-- The calls that change the mempool. -/
inductive Call where
  | insert (ttx : TimemarkedTransaction) (currentAccountNonce : ℕ)
      (currentAccountBalances : Balances)
  | removeTxInvalid (signedTx : Transaction) (reason : RemovalReason)
  | checkRemovedCometBft (txHash : TransactionId)
  | runMaintenance (state : StateReads) (recost : Bool) (clock : Clock)
      (addresses : List AddressBytes)

/-- The mempool after a call, whether or not it panics. -/
def after (c : Call) (m : Mempool parkedMaxTxCount) : Mempool parkedMaxTxCount :=
  match c with
  | .insert ttx n b => (m.insert ttx n b).2
  | .removeTxInvalid tx reason => m.removeTxInvalid tx reason
  | .checkRemovedCometBft txHash => (m.checkRemovedCometBft txHash).2
  | .runMaintenance state recost clock addresses => m.runMaintenance state recost clock addresses

/-- A call is made with the account nonces of a state of the chain, and the loop of `run_maintenance`
visits every account of either container once. -/
def Call.At (nonces : Nonces) (m : Mempool parkedMaxTxCount) : Call → Prop
  | .insert ttx n _ => n = nonces ttx.address
  | .removeTxInvalid _ _ => True
  | .checkRemovedCometBft _ => True
  | .runMaintenance state _ _ addresses =>
    (∀ a n, state.getAccountNonce a = .ok n → n = nonces a) ∧ addresses.Nodup ∧
      ∀ a, a ∈ addresses ↔ a ∈ m.pending.addresses ∨ a ∈ m.parked.addresses

/-- The mempools that calls reach from the empty one, with the account nonces of the last call, if every
step between two states of the chain is allowed. -/
inductive Run (Allowed : Nonces → Nonces → Mempool parkedMaxTxCount → Call → Prop) :
    Nonces → Mempool parkedMaxTxCount → Prop
  | new (nonces : Nonces) : Run Allowed nonces (.new parkedMaxTxCount)
  | call {nonces nonces' : Nonces} {m : Mempool parkedMaxTxCount} {c : Call}
      (run : Run Allowed nonces m) (at_ : c.At nonces' m) (allowed : Allowed nonces nonces' m c) :
      Run Allowed nonces' (m.after c)

/-- A run under a stronger condition is one under a weaker condition. -/
theorem Run.mono {Allowed Allowed' : Nonces → Nonces → Mempool parkedMaxTxCount → Call → Prop}
    (himp : ∀ ν ν' m c, Allowed ν ν' m c → Allowed' ν ν' m c) {nonces : Nonces}
    {m : Mempool parkedMaxTxCount} (h : Run Allowed nonces m) : Run Allowed' nonces m := by
  induction h with
  | new nonces => exact .new nonces
  | call _ hat hallowed ih => exact .call ih hat (himp _ _ _ _ hallowed)

/-! ## Where transactions are -/

/-- Every transaction is in the queue of its signer. -/
def Filed (m : Mempool parkedMaxTxCount) : Prop := m.pending.Filed ∧ m.parked.Filed

theorem filed_add {d : Discipline} {t : TimemarkedTransaction} {n : ℕ} {b : Balances}
    {c c' : TransactionsContainer d} (h : c.add t n b = .ok c') (hc : c.Filed) : c'.Filed := by
  obtain ⟨hget, hrefiled, -⟩ := TransactionsContainer.refiled_of_add h
  refine hrefiled.filed hc ?_
  intro s hs
  rcases List.mem_cons.mp ((KeyedQueue.perm_insert hget).mem_iff.mp hs) with rfl | hs
  · rfl
  · exact hc _ s hs

theorem filed_promote (refused : TimemarkedTransaction → TransactionId) (n : ℕ) (b : Balances)
    (l : List TimemarkedTransaction) {m : Mempool parkedMaxTxCount} (h : m.Filed) :
    (promote refused n b l m).Filed := by
  induction l generalizing m with
  | nil => exact h
  | cons t l ih =>
    rw [promote]
    cases hadd : m.pending.add t n b with
    | ok pending => exact ih ⟨filed_add hadd h.1, h.2⟩
    | error e => exact ih h

theorem filed_demote (n : ℕ) (b : Balances) (l : List TimemarkedTransaction)
    {m : Mempool parkedMaxTxCount} (h : m.Filed) : (demote n b l m).Filed := by
  induction l generalizing m with
  | nil => exact h
  | cons t l ih =>
    rw [demote]
    cases hadd : m.parked.add t n b with
    | ok parked => exact ih ⟨h.1, filed_add hadd h.2⟩
    | error e => exact ih h

omit [External] [TransactionCodec] in
theorem pending_report (l : List (TransactionId × RemovalReason)) (m : Mempool parkedMaxTxCount) :
    (m.report l).pending = m.pending ∧ (m.report l).parked = m.parked := by
  induction l generalizing m with
  | nil => exact ⟨rfl, rfl⟩
  | cons e l ih => exact ih _

omit [TransactionCodec] in
/-- A part of a filed queue. -/
theorem filed_sub {d : Discipline} {c : TransactionsContainer d} (hc : c.Filed) {a : AddressBytes}
    {q : Queue} (hq : ∀ t ∈ q.items, ∃ s ∈ (c.queue a).items, s.signedTx = t.signedTx) :
    ∀ t ∈ q.items, t.address = a := by
  intro t ht
  obtain ⟨s, hs, hsame⟩ := hq t ht
  rw [← hc a s hs]
  unfold TimemarkedTransaction.address
  rw [hsame]

theorem Filed.insert {m : Mempool parkedMaxTxCount} (h : m.Filed) (ttx : TimemarkedTransaction)
    (n : ℕ) (b : Balances) : (m.insert ttx n b).2.Filed := by
  rcases m.insert_cases ttx n b with heq | ⟨parked, -, hadd, heq⟩ | ⟨pending, hadd, ⟨-, heq⟩ | heq⟩
  · rw [heq]
    exact h
  · rw [heq]
    exact ⟨h.1, filed_add hadd h.2⟩
  · rw [heq]
    exact ⟨filed_add hadd h.1, h.2⟩
  · rw [heq]
    refine filed_promote _ _ _ _ ⟨filed_add hadd h.1, ?_⟩
    obtain ⟨-, hrefiled⟩ := TransactionsContainer.findPromotables_refiled ttx.address (ttx.nonce + 1)
      (pending.subtractContainedCosts ttx.address b) m.parked
    refine hrefiled.filed h.2 ?_
    refine filed_sub h.2 ?_
    intro t ht
    refine ⟨t, ?_, rfl⟩
    rw [((m.parked.queue ttx.address).findPromotables_spec _ _).1]
    exact List.mem_append_right _ ht

theorem Filed.removeTxInvalid {m : Mempool parkedMaxTxCount} (h : m.Filed) (tx : Transaction)
    (reason : RemovalReason) : (m.removeTxInvalid tx reason).Filed := by
  obtain ⟨pending, parked, q, q', out, out', hrefiled, hrefiled', hitems, hitems', -, hcases⟩ :=
    m.removeTxInvalid_cases tx reason
  have hboth : pending.Filed ∧ parked.Filed := by
    constructor
    · refine hrefiled.filed h.1 (filed_sub h.1 ?_)
      intro t ht
      exact ⟨t, by rw [hitems]; exact List.mem_append_left _ ht, rfl⟩
    · refine hrefiled'.filed h.2 (filed_sub h.2 ?_)
      intro t ht
      exact ⟨t, by rw [hitems']; exact List.mem_append_left _ ht, rfl⟩
  rcases hcases with heq | ⟨-, -, heq⟩
  · rw [heq]
    unfold reportInvalid Filed
    rw [(pending_report _ _).1, (pending_report _ _).2]
    exact hboth
  · rw [heq]
    exact hboth

theorem Filed.cleanAccount {m : Mempool parkedMaxTxCount} (h : m.Filed) (state : StateReads)
    (recost : Bool) (clock : Clock) (a : AddressBytes) (n : ℕ) :
    (m.cleanAccount state recost clock a n).2.Filed := by
  obtain ⟨pending, parked, q, q', out, out', hclean, hclean', hrefiled, hrefiled', -, heq⟩ :=
    m.cleanAccount_spec state recost clock a n
  rw [heq]
  exact ⟨hrefiled.filed h.1 (filed_sub h.1 hclean.mem),
    hrefiled'.filed h.2 (filed_sub h.2 hclean'.mem)⟩

/-- A cleaned account has no stale pending transaction. -/
theorem le_nonce_cleanAccount {m : Mempool parkedMaxTxCount} {state : StateReads} {recost : Bool}
    {clock : Clock} {a : AddressBytes} {n : ℕ} {t : TimemarkedTransaction}
    (ht : t ∈ ((m.cleanAccount state recost clock a n).2.pending.queue a).items) :
    n ≤ t.nonce := by
  obtain ⟨pending, parked, q, q', out, out', hclean, -, hrefiled, -, -, heq⟩ :=
    m.cleanAccount_spec state recost clock a n
  rw [heq] at ht
  dsimp only at ht
  rw [hrefiled.queue_self] at ht
  exact hclean.le_nonce t ht

theorem Filed.moveAccount {m : Mempool parkedMaxTxCount} (h : m.Filed) {a : AddressBytes} {n : ℕ}
    {b : Balances} (hge : ∀ t ∈ (m.pending.queue a).items, n ≤ t.nonce) :
    (m.moveAccount a n b).Filed := by
  rcases moveAccount_cases (h.2 a) hge with
    ⟨-, target, pending, parked, q, rest, l, -, -, -, hq, hrest, -, hrefiled, hrefiled', heq⟩ |
      ⟨-, pending, hrefiled, heq⟩
  · rw [heq]
    have hparked : ∀ t ∈ l ++ rest.items, t.address = a := by
      rw [← hrest]
      exact h.2 a
    refine ⟨hrefiled.filed h.1 ?_, hrefiled'.filed h.2 ?_⟩
    · intro t ht
      rw [hq] at ht
      rcases List.mem_append.mp ht with ht | ht
      · exact h.1 a t ht
      · exact hparked t (List.mem_append_left _ ht)
    · intro t ht
      exact hparked t (List.mem_append_right _ ht)
  · rw [heq]
    refine filed_demote _ _ _ ⟨hrefiled.filed h.1 ?_, h.2⟩
    intro t ht
    refine h.1 a t ?_
    rw [((m.pending.queue a).findDemotables_spec b).1]
    exact List.mem_append_left _ ht

theorem Filed.maintainAccount {m : Mempool parkedMaxTxCount} (h : m.Filed) (state : StateReads)
    (recost : Bool) (clock : Clock) (a : AddressBytes) :
    (m.maintainAccount state recost clock a).2.Filed := by
  rcases m.maintainAccount_cases state recost clock a with ⟨heq, -⟩ | ⟨n, b, -, -, heq⟩
  · rw [heq]
    exact h
  · rw [heq]
    exact (h.cleanAccount state recost clock a n).moveAccount fun t ht => le_nonce_cleanAccount ht

/-- What the turn of every account keeps, the loop keeps. -/
theorem maintainAccounts_keeps {P : Mempool parkedMaxTxCount → Prop} (state : StateReads)
    (recost : Bool) (clock : Clock)
    (hstep : ∀ a m, P m → P (m.maintainAccount state recost clock a).2)
    (addresses : List AddressBytes) {m : Mempool parkedMaxTxCount} (h : P m) :
    P (m.maintainAccounts state recost clock addresses).2 := by
  induction addresses generalizing m with
  | nil => exact h
  | cons a rest ih => exact ih (hstep a m h)

theorem Filed.runMaintenance {m : Mempool parkedMaxTxCount} (h : m.Filed) (state : StateReads)
    (recost : Bool) (clock : Clock) (addresses : List AddressBytes) :
    (m.runMaintenance state recost clock addresses).Filed := by
  unfold Mempool.runMaintenance Filed
  dsimp only
  rw [(pending_report _ _).1, (pending_report _ _).2]
  exact maintainAccounts_keeps state recost clock
    (fun a m hm => hm.maintainAccount state recost clock a) addresses h

theorem Filed.after {m : Mempool parkedMaxTxCount} (h : m.Filed) (c : Call) : (m.after c).Filed := by
  cases c with
  | insert ttx n b => exact h.insert ttx n b
  | removeTxInvalid tx reason => exact h.removeTxInvalid tx reason
  | checkRemovedCometBft txHash => exact h
  | runMaintenance state recost clock addresses =>
    exact h.runMaintenance state recost clock addresses

omit [TransactionCodec] in
theorem filed_new : (new parkedMaxTxCount).Filed := by
  constructor <;> exact fun a t ht => absurd ht List.not_mem_nil

theorem Run.filed {Allowed : Nonces → Nonces → Mempool parkedMaxTxCount → Call → Prop}
    {nonces : Nonces} {m : Mempool parkedMaxTxCount} (h : Run Allowed nonces m) : m.Filed := by
  induction h with
  | new => exact filed_new
  | call _ _ _ ih => exact ih.after _

end Mempool

/-! ## Chains of pending nonces -/

namespace Queue

/-- Every nonce is at most the account's, or follows another one of the queue. -/
def Chained (n : ℕ) (q : Queue) : Prop :=
  ∀ t ∈ q.items, t.nonce ≤ n ∨ ∃ s ∈ q.items, s.nonce + 1 = t.nonce

/-- Contiguous nonces that start at the account's, with costs that a balance covers. -/
structure Settled (n : ℕ) (b : Balances) (q : Queue) : Prop where
  contiguous : q.items.map TimemarkedTransaction.nonce = List.range' n q.items.length
  affordable : Affordable q.items b

theorem Chained.mono {n n' : ℕ} {q : Queue} (h : q.Chained n) (hn : n ≤ n') : q.Chained n' :=
  fun t ht => (h t ht).imp_left fun hle => le_trans hle hn

theorem Chained.cleaned {n : ℕ} {q q' : Queue} {out : List TimemarkedTransaction} (h : q.Chained n)
    (hc : Cleaned n q out q') : q'.Chained n := by
  intro t ht
  obtain ⟨t', ht', hsame⟩ := hc.mem t ht
  have hnonce : t'.nonce = t.nonce := by
    unfold TimemarkedTransaction.nonce
    rw [hsame]
  rcases h t' ht' with hle | ⟨s, hs, hpred⟩
  · left
    rwa [hnonce] at hle
  · rw [hnonce] at hpred
    by_cases hn : n ≤ s.nonce
    · obtain ⟨s', hs', hsame'⟩ := hc.pred s hs t ht hpred hn
      exact Or.inr ⟨s', hs', by rw [hsame', hpred]⟩
    · left
      omega

/-- The front of a chained queue is chained. -/
theorem Chained.front {n : ℕ} {q q' : Queue} {out : List TimemarkedTransaction} (h : q.Chained n)
    (hitems : q.items = q'.items ++ out) : q'.Chained n := by
  intro t ht
  have hasc := q.ascending
  rw [hitems, List.pairwise_append] at hasc
  refine (h t (by rw [hitems]; exact List.mem_append_left _ ht)).imp_right ?_
  rintro ⟨s, hs, hpred⟩
  rw [hitems] at hs
  rcases List.mem_append.mp hs with hs | hs
  · exact ⟨s, hs, hpred⟩
  · have := hasc.2.2 t ht s hs
    omega

theorem Chained.insert {n : ℕ} {q : Queue} {t : TimemarkedTransaction} (h : q.Chained n)
    (hget : q.get t.nonce = none) (ht : t.nonce = n ∨ ∃ s ∈ q.items, s.nonce + 1 = t.nonce) :
    Chained n (q.insert t) := by
  have hmem : ∀ s, s ∈ (q.insert t).items ↔ s = t ∨ s ∈ q.items := by
    intro s
    rw [(KeyedQueue.perm_insert hget).mem_iff, List.mem_cons]
  have hpred : ∀ k, (∃ s ∈ q.items, s.nonce + 1 = k) →
      ∃ s ∈ (q.insert t).items, s.nonce + 1 = k := by
    rintro k ⟨s, hs, hk⟩
    exact ⟨s, (hmem s).mpr (Or.inr hs), hk⟩
  intro s hs
  rcases (hmem s).mp hs with rfl | hs
  · exact ht.imp le_of_eq (hpred _)
  · exact (h s hs).imp_right (hpred _)

/-- A chained queue stays so with a run of nonces that follows one of its own. -/
theorem Chained.append_range' {n k : ℕ} {q q' : Queue} {l : List TimemarkedTransaction}
    (h : q.Chained n) (hitems : q'.items = q.items ++ l)
    (hrange : l.map TimemarkedTransaction.nonce = List.range' (k + 1) l.length)
    (hk : ∃ s ∈ q.items, s.nonce = k) : q'.Chained n := by
  have hmem : ∀ i, (∃ t ∈ l, t.nonce = i) ↔ k + 1 ≤ i ∧ i < k + 1 + l.length := by
    intro i
    rw [← List.mem_range'_1, ← hrange, List.mem_map]
  intro t ht
  rw [hitems] at ht ⊢
  rcases List.mem_append.mp ht with ht | ht
  · refine (h t ht).imp_right ?_
    rintro ⟨s, hs, hpred⟩
    exact ⟨s, List.mem_append_left _ hs, hpred⟩
  · right
    obtain ⟨hle, hlt⟩ := (hmem t.nonce).mp ⟨t, ht, rfl⟩
    by_cases hfirst : t.nonce = k + 1
    · obtain ⟨s, hs, hsk⟩ := hk
      exact ⟨s, List.mem_append_left _ hs, by omega⟩
    · obtain ⟨s, hs, hnonce⟩ := (hmem (t.nonce - 1)).mpr ⟨by omega, by omega⟩
      exact ⟨s, List.mem_append_right _ hs, by omega⟩

/-- A nonce that is free and not below the account's is above all nonces of a chained queue. -/
theorem Chained.nonce_lt {n k : ℕ} {q : Queue} (h : q.Chained n) (hn : n ≤ k)
    (hget : q.get k = none) : ∀ t ∈ q.items, t.nonce < k := by
  have hne := KeyedQueue.get_eq_none_iff.mp hget
  -- a nonce above it would have a predecessor that is, too
  have hnot : ∀ i, ∀ t ∈ q.items, t.nonce ≠ k + 1 + i := by
    intro i
    induction i with
    | zero =>
      intro t ht heq
      rcases h t ht with hle | ⟨s, hs, hpred⟩
      · omega
      · exact hne s hs (by omega)
    | succ i ih =>
      intro t ht heq
      rcases h t ht with hle | ⟨s, hs, hpred⟩
      · omega
      · exact ih s hs (by omega)
  intro t ht
  have hk := hne t ht
  by_contra hlt
  exact hnot (t.nonce - k - 1) t ht (by omega)

theorem Settled.chained {n : ℕ} {b : Balances} {q : Queue} (h : q.Settled n b) : q.Chained n := by
  have hmem : ∀ k, (∃ t ∈ q.items, t.nonce = k) ↔ n ≤ k ∧ k < n + q.items.length := by
    intro k
    rw [← List.mem_range'_1, ← h.contiguous, List.mem_map]
  intro t ht
  obtain ⟨hle, hlt⟩ := (hmem t.nonce).mp ⟨t, ht, rfl⟩
  by_cases hn : t.nonce ≤ n
  · exact Or.inl hn
  · obtain ⟨s, hs, hnonce⟩ := (hmem (t.nonce - 1)).mpr ⟨by omega, by omega⟩
    exact Or.inr ⟨s, hs, by omega⟩

/-- A chained queue without stale transactions is contiguous. -/
theorem Chained.contiguous {n : ℕ} {q : Queue} (h : q.Chained n)
    (hge : ∀ t ∈ q.items, n ≤ t.nonce) :
    q.items.map TimemarkedTransaction.nonce = List.range' n q.items.length := by
  refine KeyedQueue.keys_eq_range' q hge ?_
  intro t ht
  have := hge t ht
  exact (h t ht).imp_left fun hle => by omega

end Queue

namespace Mempool

variable {parkedMaxTxCount : ℕ} [External] [TransactionCodec]

/-- Every pending queue is chained from its account's nonce. -/
def Chained (nonces : Nonces) (m : Mempool parkedMaxTxCount) : Prop :=
  ∀ a, (m.pending.queue a).Chained (nonces a)

/-- After the moves of a cleaned account, its pending transactions are settled. -/
theorem moveAccount_settles {a : AddressBytes} {n : ℕ} {b : Balances}
    {m : Mempool parkedMaxTxCount} (hparked : ∀ t ∈ (m.parked.queue a).items, t.address = a)
    (hge : ∀ t ∈ (m.pending.queue a).items, n ≤ t.nonce)
    (hchained : (m.pending.queue a).Chained n) :
    ∃ q, TransactionsContainer.Refiled a q m.pending (m.moveAccount a n b).pending ∧
      q.Settled n b := by
  have hcontiguous := hchained.contiguous hge
  rcases moveAccount_cases hparked hge with
    ⟨-, target, pending, parked, q, rest, l, hnext, -, hrange, hq, -, hafford, hrefiled, -, heq⟩ |
      ⟨-, pending, hrefiled, heq⟩
  · rw [heq]
    refine ⟨q, hrefiled, ?_, hafford⟩
    -- the promoted run starts where the pending one ends
    have htarget : target = n + (m.pending.queue a).items.length := by
      rcases hnext with ⟨hnil, rfl⟩ | ⟨last, hlast, rfl⟩
      · rw [hnil, List.length_nil, Nat.add_zero]
      · have hlast' : ((m.pending.queue a).items.map TimemarkedTransaction.nonce).getLast? =
            some last.nonce := by
          rw [List.getLast?_map, hlast, Option.map_some]
        rw [hcontiguous, List.getLast?_range'] at hlast'
        split_ifs at hlast' with hlen
        have := Option.some.inj hlast'
        omega
    rw [hq, List.map_append, hcontiguous, hrange, htarget, List.length_append,
      ← List.range'_append_1]
  · obtain ⟨hitems, hafford, -⟩ := (m.pending.queue a).findDemotables_spec b
    rw [heq, demote_pending]
    refine ⟨_, hrefiled, ?_, hafford⟩
    exact (hchained.front hitems).contiguous fun t ht =>
      hge t (by rw [hitems]; exact List.mem_append_left _ ht)

/-- The turn of an account touches no other account's pending transactions.  It keeps its own chained,
and settles them if the reads succeed. -/
theorem maintainAccount_pending {m : Mempool parkedMaxTxCount} (hfiled : m.Filed) {n : ℕ}
    {state : StateReads} (recost : Bool) (clock : Clock) {a : AddressBytes}
    (hchained : (m.pending.queue a).Chained n)
    (hnonce : ∀ k, state.getAccountNonce a = .ok k → k = n) :
    ∃ q, TransactionsContainer.Refiled a q m.pending
        (m.maintainAccount state recost clock a).2.pending ∧
      q.Chained n ∧
        ∀ b, state.getAccountNonce a = .ok n → state.getAccountBalances a = .ok b →
          q.Settled n b := by
  rcases m.maintainAccount_cases state recost clock a with ⟨heq, hfail⟩ | ⟨k, b, hk, hb, heq⟩
  · rw [heq]
    exact ⟨_, .refl a m.pending, hchained, fun b h h' => absurd h' (hfail n b h)⟩
  · obtain rfl := hnonce k hk
    rw [heq]
    obtain ⟨pending, parked, q, q', out, out', hclean, -, hrefiled, -, -, hcleaned⟩ :=
      m.cleanAccount_spec state recost clock a k
    have hfiled' := hfiled.cleanAccount state recost clock a k
    have hge : ∀ t ∈ ((m.cleanAccount state recost clock a k).2.pending.queue a).items,
        k ≤ t.nonce := fun t ht => le_nonce_cleanAccount ht
    rw [hcleaned] at hfiled' hge ⊢
    obtain ⟨q₁, hrefiled', hsettled⟩ := moveAccount_settles (b := b) (hfiled'.2 a) hge
      (by
        dsimp only
        rw [hrefiled.queue_self]
        exact hchained.cleaned hclean)
    refine ⟨q₁, hrefiled.trans hrefiled', hsettled.chained, ?_⟩
    intro b' _ hb'
    rw [hb] at hb'
    obtain rfl := Except.ok.inj hb'
    exact hsettled

/-- The loop of `run_maintenance` keeps the queues chained, and settles those of the visited accounts
whose reads succeed. -/
theorem maintainAccounts_pending {m : Mempool parkedMaxTxCount} (hfiled : m.Filed)
    {nonces : Nonces} (hchained : m.Chained nonces) {state : StateReads} (recost : Bool)
    (clock : Clock) (hnonce : ∀ a n, state.getAccountNonce a = .ok n → n = nonces a)
    (addresses : List AddressBytes) (hnodup : addresses.Nodup) :
    (m.maintainAccounts state recost clock addresses).2.Chained nonces ∧
      (∀ a ∉ addresses, (m.maintainAccounts state recost clock addresses).2.pending.queue a =
        m.pending.queue a) ∧
      ∀ a ∈ addresses, ∀ b, state.getAccountNonce a = .ok (nonces a) →
        state.getAccountBalances a = .ok b →
          ((m.maintainAccounts state recost clock addresses).2.pending.queue a).Settled
            (nonces a) b := by
  induction addresses generalizing m with
  | nil => exact ⟨hchained, fun a _ => rfl, fun a ha => absurd ha List.not_mem_nil⟩
  | cons a rest ih =>
    obtain ⟨q, hrefiled, hq, hsettled⟩ :=
      maintainAccount_pending hfiled recost clock (hchained a) (hnonce a)
    rw [List.nodup_cons] at hnodup
    have hchained' : (m.maintainAccount state recost clock a).2.Chained nonces := by
      intro c
      rw [hrefiled.queue]
      split_ifs with hc
      · rw [hc]
        exact hq
      · exact hchained c
    obtain ⟨hkeep, hother, hvisited⟩ :=
      ih (hfiled.maintainAccount state recost clock a) hchained' hnodup.2
    refine ⟨hkeep, ?_, ?_⟩
    · intro c hc
      rw [List.mem_cons, not_or] at hc
      exact (hother c hc.2).trans (hrefiled.queue_of_ne hc.1)
    · intro c hc b hn hb
      rcases List.mem_cons.mp hc with rfl | hc
      · -- the other turns do not touch the account again
        have hsame := (hother c hnodup.1).trans hrefiled.queue_self
        show (((m.maintainAccount state recost clock c).2.maintainAccounts state recost clock
          rest).2.pending.queue c).Settled _ _
        rw [hsame]
        exact hsettled b hn hb
      · exact hvisited c hc b hn hb

/-- A transaction that pending takes with a nonce above those of its account goes to the end of the
queue, and the parked transactions that follow it and are affordable are all promoted. -/
theorem insert_promotes_of_above {ttx : TimemarkedTransaction} {n : ℕ} {b : Balances}
    {m : Mempool parkedMaxTxCount} (hfiled : m.Filed)
    (habove : ∀ s ∈ (m.pending.queue ttx.address).items, s.nonce < ttx.nonce)
    {pending : PendingTransactions} (hadd : m.pending.add ttx n b = .ok pending) :
    ∃ pending' q rest l,
      q.items = (m.pending.queue ttx.address).items ++ ttx :: l ∧
        (m.parked.queue ttx.address).items = l ++ rest.items ∧
        l.map TimemarkedTransaction.nonce = List.range' (ttx.nonce + 1) l.length ∧
        Affordable q.items b ∧
        TransactionsContainer.Refiled ttx.address q m.pending pending' ∧
        TransactionsContainer.Refiled ttx.address rest m.parked
          (m.parked.findPromotables ttx.address (ttx.nonce + 1)
            (pending.subtractContainedCosts ttx.address b)).2 ∧
        promote (fun _ => ttx.id) n b
            (m.parked.findPromotables ttx.address (ttx.nonce + 1)
              (pending.subtractContainedCosts ttx.address b)).1
            { m with
              pending := pending
              parked := (m.parked.findPromotables ttx.address (ttx.nonce + 1)
                (pending.subtractContainedCosts ttx.address b)).2 } =
          { m with
            pending := pending'
            parked := (m.parked.findPromotables ttx.address (ttx.nonce + 1)
              (pending.subtractContainedCosts ttx.address b)).2 } := by
  obtain ⟨-, hrefiled, -⟩ := TransactionsContainer.refiled_of_add hadd
  obtain ⟨-, q₀, hq₀, -⟩ := TransactionsContainer.add_eq_ok.mp hadd
  obtain ⟨-, hn, -, -, hbal, -⟩ := Queue.add_eq_ok.mp hq₀
  rw [Discipline.hasBalanceToCover_pending] at hbal
  have hitems := KeyedQueue.items_insert_of_above habove
  obtain ⟨hpromoted, hrest⟩ := TransactionsContainer.findPromotables_refiled ttx.address
    (ttx.nonce + 1) (pending.subtractContainedCosts ttx.address b) m.parked
  obtain ⟨hfront, hrange, hcovered⟩ := Queue.findPromotables_spec (ttx.nonce + 1)
    (pending.subtractContainedCosts ttx.address b) (m.parked.queue ttx.address)
  rw [← hpromoted] at hfront hrange hcovered
  have hboth : Affordable ((m.pending.queue ttx.address).items ++ [ttx] ++
      (m.parked.findPromotables ttx.address (ttx.nonce + 1)
        (pending.subtractContainedCosts ttx.address b)).1) b := by
    intro asset
    have hpending := hbal asset
    have hextra := hcovered asset
    rw [TransactionsContainer.amount_subtractContainedCosts, hrefiled.queue_self, hitems] at hextra
    rw [Queue.costOf_append]
    omega
  obtain ⟨pending', q, hpromote, hq, hrefiled'⟩ :=
    promote_all (fun _ => ttx.id) (a := ttx.address) (n := n) (b := b)
      (l := (m.parked.findPromotables ttx.address (ttx.nonce + 1)
        (pending.subtractContainedCosts ttx.address b)).1)
      (m := { m with
        pending := pending
        parked := (m.parked.findPromotables ttx.address (ttx.nonce + 1)
          (pending.subtractContainedCosts ttx.address b)).2 })
      (by
        intro t ht
        refine hfiled.2 _ t ?_
        rw [hfront]
        exact List.mem_append_left _ ht)
      hrange (Nat.le_succ_of_le hn)
      (by
        dsimp only
        rw [hrefiled.queue_self, hitems]
        intro s hs
        rcases List.mem_append.mp hs with hs | hs
        · exact Nat.lt_succ_of_lt (habove s hs)
        · rw [List.mem_singleton.mp hs]
          exact Nat.lt_succ_self _)
      (by
        dsimp only
        rw [hrefiled.queue_self, hitems]
        exact Or.inr ⟨ttx, List.mem_append_right _ List.mem_cons_self, rfl⟩)
      (by
        dsimp only
        rw [hrefiled.queue_self, hitems]
        exact hboth)
  dsimp only at hq
  rw [hrefiled.queue_self, hitems] at hq
  refine ⟨pending', q, _, _, ?_, hfront, hrange, ?_, hrefiled.trans hrefiled', hrest, hpromote⟩
  · rw [hq, List.append_assoc]
    rfl
  · rw [hq]
    exact hboth

/-- A transaction that pending takes goes to the end of its account's queue, and the parked
transactions that follow it and are affordable are all promoted. -/
theorem insert_promotes {ttx : TimemarkedTransaction} {n : ℕ} {b : Balances}
    {m : Mempool parkedMaxTxCount} (hfiled : m.Filed)
    (hchained : (m.pending.queue ttx.address).Chained n) {pending : PendingTransactions}
    (hadd : m.pending.add ttx n b = .ok pending) :
    ∃ pending' q rest l,
      q.items = (m.pending.queue ttx.address).items ++ ttx :: l ∧
        (m.parked.queue ttx.address).items = l ++ rest.items ∧ q.Chained n ∧
        Affordable q.items b ∧
        TransactionsContainer.Refiled ttx.address q m.pending pending' ∧
        TransactionsContainer.Refiled ttx.address rest m.parked
          (m.parked.findPromotables ttx.address (ttx.nonce + 1)
            (pending.subtractContainedCosts ttx.address b)).2 ∧
        promote (fun _ => ttx.id) n b
            (m.parked.findPromotables ttx.address (ttx.nonce + 1)
              (pending.subtractContainedCosts ttx.address b)).1
            { m with
              pending := pending
              parked := (m.parked.findPromotables ttx.address (ttx.nonce + 1)
                (pending.subtractContainedCosts ttx.address b)).2 } =
          { m with
            pending := pending'
            parked := (m.parked.findPromotables ttx.address (ttx.nonce + 1)
              (pending.subtractContainedCosts ttx.address b)).2 } := by
  obtain ⟨hget, -, -⟩ := TransactionsContainer.refiled_of_add hadd
  obtain ⟨-, q₀, hq₀, -⟩ := TransactionsContainer.add_eq_ok.mp hadd
  obtain ⟨-, hn, -, hseq, -, -⟩ := Queue.add_eq_ok.mp hq₀
  have hpred := Discipline.isSequentialNoncePreconditionMet_pending hseq
  have habove := hchained.nonce_lt hn hget
  have hitems := KeyedQueue.items_insert_of_above habove
  obtain ⟨pending', q, rest, l, hq, hfront, hrange, hafford, hrefiled, hrefiled', hpromote⟩ :=
    insert_promotes_of_above hfiled habove hadd
  refine ⟨pending', q, rest, l, hq, hfront, ?_, hafford, hrefiled, hrefiled', hpromote⟩
  refine Queue.Chained.append_range' (hchained.insert hget hpred) ?_ hrange ?_
  · rw [hq, hitems, List.append_assoc]
    rfl
  · exact ⟨ttx, by rw [hitems]; exact List.mem_append_right _ List.mem_cons_self, rfl⟩

theorem Chained.insert {ttx : TimemarkedTransaction} {b : Balances} {m : Mempool parkedMaxTxCount}
    {nonces : Nonces} (hfiled : m.Filed) (hchained : m.Chained nonces) :
    (m.insert ttx (nonces ttx.address) b).2.Chained nonces := by
  have hrefile {q : Queue} {pending : PendingTransactions}
      (hrefiled : TransactionsContainer.Refiled ttx.address q m.pending pending)
      (hq : q.Chained (nonces ttx.address)) (a : AddressBytes) :
      (pending.queue a).Chained (nonces a) := by
    rw [hrefiled.queue]
    split_ifs with ha
    · rwa [ha]
    · exact hchained a
  rcases m.insert_cases ttx (nonces ttx.address) b with
    heq | ⟨parked, -, -, heq⟩ | ⟨pending, hadd, ⟨-, heq⟩ | heq⟩
  · rw [heq]
    exact hchained
  · rw [heq]
    exact hchained
  · rw [heq]
    obtain ⟨hget, hrefiled, -⟩ := TransactionsContainer.refiled_of_add hadd
    obtain ⟨-, q, hq, -⟩ := TransactionsContainer.add_eq_ok.mp hadd
    obtain ⟨-, -, -, hseq, -, -⟩ := Queue.add_eq_ok.mp hq
    exact hrefile hrefiled ((hchained _).insert hget
      (Discipline.isSequentialNoncePreconditionMet_pending hseq))
  · rw [heq]
    obtain ⟨pending', q, rest, l, -, -, hq, -, hrefiled, -, hpromote⟩ :=
      insert_promotes hfiled (hchained _) hadd
    rw [hpromote]
    exact hrefile hrefiled hq

theorem Chained.removeTxInvalid {m : Mempool parkedMaxTxCount} {nonces : Nonces}
    (h : m.Chained nonces) (tx : Transaction) (reason : RemovalReason) :
    (m.removeTxInvalid tx reason).Chained nonces := by
  obtain ⟨pending, parked, q, q', out, out', hrefiled, -, hitems, -, -, hcases⟩ :=
    m.removeTxInvalid_cases tx reason
  have hpending : ∀ a, (pending.queue a).Chained (nonces a) := by
    intro a
    rw [hrefiled.queue]
    split_ifs with ha
    · rw [ha]
      exact (h _).front hitems
    · exact h a
  rcases hcases with heq | ⟨-, -, heq⟩
  · rw [heq]
    unfold reportInvalid Chained
    rw [(pending_report _ _).1]
    exact hpending
  · rw [heq]
    exact hpending

theorem Chained.after {m : Mempool parkedMaxTxCount} {nonces : Nonces} (h : m.Chained nonces)
    (hfiled : m.Filed) {c : Call} (hat : c.At nonces m) : (m.after c).Chained nonces := by
  cases c with
  | insert ttx n b =>
    obtain rfl : n = nonces ttx.address := hat
    exact Chained.insert hfiled h
  | removeTxInvalid tx reason => exact h.removeTxInvalid tx reason
  | checkRemovedCometBft txHash => exact h
  | runMaintenance state recost clock addresses =>
    obtain ⟨hnonce, hnodup, -⟩ := hat
    intro a
    show ((report _ _).pending.queue a).Chained _
    rw [(pending_report _ _).1]
    exact (maintainAccounts_pending hfiled h recost clock hnonce addresses hnodup).1 a

omit [External] [TransactionCodec] in
theorem Chained.mono {m : Mempool parkedMaxTxCount} {nonces nonces' : Nonces}
    (h : m.Chained nonces) (hle : nonces ≤ nonces') : m.Chained nonces' :=
  fun a => (h a).mono (hle a)

/-- In a run over which no account's nonce decreases, the pending queues stay chained. -/
theorem Run.chained {Allowed : Nonces → Nonces → Mempool parkedMaxTxCount → Call → Prop}
    (hallowed : ∀ ν ν' m c, Allowed ν ν' m c → ν ≤ ν') {nonces : Nonces}
    {m : Mempool parkedMaxTxCount} (h : Run Allowed nonces m) : m.Chained nonces := by
  induction h with
  | new nonces => exact fun a t ht => absurd ht List.not_mem_nil
  | call run hat hall ih => exact (ih.mono (hallowed _ _ _ _ hall)).after run.filed hat

end Mempool

/-! ## Test values -/

namespace TestUtils

open Mempool

/-- A transaction of alice with some rollup data, which costs one unit of the native asset. -/
def pooled (data : Bytes) (nonce : ℕ) : TimemarkedTransaction where
  signedTx := signedTransaction aliceKey (min nonce u32Max) (.rollupDataSubmission
    { rollupId := { inner := List.Vector.replicate 32 7 }
      data := data
      feeAsset := .tracePrefixed nria })
  nonce_le := Nat.min_le_right nonce u32Max
  timeFirstSeen := 0
  cost := [(nria.toIbcPrefixed, 1)]

/-- A balance of the native asset. -/
def nativeBalance (balance : ℕ) : Balances :=
  Function.update (fun _ => none) nria.toIbcPrefixed (some balance)

/-- The insertion of a transaction, with a balance of one. -/
def insertion (ttx : TimemarkedTransaction) (currentNonce : ℕ) : Call :=
  .insert ttx currentNonce (nativeBalance 1)

/-- What maintenance reads at some nonce and balance of alice, without new costs. -/
def chainReads (currentNonce balance : ℕ) : StateReads where
  getAccountNonce _ := .ok currentNonce
  getAccountBalances _ := .ok (nativeBalance balance)
  getTotalTransactionCost _ := .error []

/-- Nothing is old. -/
def startClock : Clock := { pending := fun _ => 0, parked := fun _ => 0 }

/-- Maintenance when alice is the only account. -/
def maintenance (currentNonce balance : ℕ) : Call :=
  .runMaintenance (chainReads currentNonce balance) false startClock [aliceAddress.bytes]

end TestUtils

end Astria.Sequencer
