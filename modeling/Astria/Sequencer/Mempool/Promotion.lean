import Astria.Sequencer.Mempool.Bookkeeping

/-!
# Completeness of promotions

`find_promotables` only looks at the front of the parked queue
(`mempool/transactions_container.rs`, lines 347–371).  A parked transaction that is not above the pending
ones, because the account or pending has used its nonce, hides those behind it.

Results:
* `Queue.findPromotables_complete`, `findPromotables_blocked`: from a queue without nonces below the
  target, all that can follow is promoted; from one with such a nonce, nothing is;
* `promoted_iff`: when no parked transaction could be pending, after an insertion that pending takes and
  after maintenance that demotes nothing;
* `blocked_stuck`: a parked transaction stays although it could be pending.
-/

namespace Astria.Sequencer

open Astria.Core Astria.Lib

namespace Queue

/-- A transaction that could follow the pending ones: its nonce is the next one, or the account's if there
are none, and what they leave of the balance covers its cost. -/
def CanFollow (n : ℕ) (b : Balances) (pending : Queue) (t : TimemarkedTransaction) : Prop :=
  t.nonce = pending.pendingAccountNonce.getD n ∧
    ∃ b', t.deductCosts (pending.subtractContainedCosts b) = .ok b'

/-- The parked transactions are above the pending ones, or none could follow them. -/
def Unblocked (n : ℕ) (b : Balances) (pending parked : Queue) : Prop :=
  (∀ t ∈ parked.items, ∀ s ∈ pending.items, s.nonce < t.nonce) ∨
    ∀ t ∈ parked.items, ¬CanFollow n b pending t

/-- The queue of an account after its cleaning in `run_maintenance`. -/
def clean [External] [TransactionCodec] (newCost : Transaction → Except Report Costs) (recost : Bool)
    (n : ℕ) (now : Time) (ttl : ℕ) (q : Queue) : Queue :=
  let q := (q.cleanStaleExpired n now ttl).2
  if recost then q.recost newCost else q

/-- From a queue without nonces below the target, what stays does not follow what is promoted, or is not
affordable beside it. -/
theorem findPromotables_complete {target : ℕ} {b : Balances} {q : Queue}
    (hge : ∀ t ∈ q.items, target ≤ t.nonce) {t : TimemarkedTransaction}
    (ht : t ∈ (q.findPromotables target b).2.items)
    (hnonce : t.nonce = target + (q.findPromotables target b).1.length) :
    ¬Affordable ((q.findPromotables target b).1 ++ [t]) b := by
  obtain ⟨hitems, hrange, -, hstop⟩ := q.findPromotables_front target b
  have hasc := q.ascending
  rw [hitems] at hge hasc
  generalize (q.findPromotables target b).1 = front at *
  generalize (q.findPromotables target b).2.items = rest at *
  rw [List.pairwise_append] at hasc
  cases rest with
  | nil => exact absurd ht List.not_mem_nil
  | cons first rest =>
    -- the first one that stays has at least the nonce after the promoted ones
    have hfirst : target + front.length ≤ first.nonce := by
      cases hfront : front.getLast? with
      | none =>
        rw [List.getLast?_eq_none_iff.mp hfront]
        exact hge first (by simp)
      | some last =>
        have hlast : (front.map TimemarkedTransaction.nonce).getLast? = some last.nonce := by
          rw [List.getLast?_map, hfront, Option.map_some]
        rw [hrange, List.getLast?_range'] at hlast
        have hlt := hasc.2.2 last (List.mem_of_getLast? hfront) first List.mem_cons_self
        split_ifs at hlast with hlen
        have := Option.some.inj hlast
        omega
    rcases List.mem_cons.mp ht with rfl | hrest
    · exact hstop t rfl hnonce
    · have hlt := (List.pairwise_cons.mp hasc.2.1).1 t hrest
      omega

/-- From a queue with a nonce below the target, nothing is promoted. -/
theorem findPromotables_blocked {target : ℕ} {b : Balances} {q : Queue}
    {t : TimemarkedTransaction} (ht : t ∈ q.items) (hlt : t.nonce < target) :
    q.findPromotables target b = ([], q) := by
  obtain ⟨hitems, hrange, -, -⟩ := q.findPromotables_front target b
  have hnil : (q.findPromotables target b).1 = [] := by
    refine List.eq_nil_iff_forall_not_mem.mpr ?_
    intro s hs
    have hmem : s.nonce ∈ List.range' target (q.findPromotables target b).1.length := by
      rw [← hrange]
      exact List.mem_map_of_mem hs
    rw [List.mem_range'_1] at hmem
    have hasc := q.ascending
    -- the front has no lower nonce, and the rest is above it
    rw [hitems] at ht hasc
    rcases List.mem_append.mp ht with ht | ht
    · have hmem' : t.nonce ∈ List.range' target (q.findPromotables target b).1.length := by
        rw [← hrange]
        exact List.mem_map_of_mem ht
      rw [List.mem_range'_1] at hmem'
      omega
    · have := (List.pairwise_append.mp hasc).2.2 s hs t ht
      omega
  rw [hnil, List.nil_append] at hitems
  exact Prod.ext hnil (KeyedQueue.ext hitems.symm)

/-- The nonce after some pending transactions and a run that follows them. -/
theorem eq_add_length_of_canFollow {n target : ℕ} {b : Balances} {q q' : Queue}
    {l : List TimemarkedTransaction} {t : TimemarkedTransaction}
    (hq : q'.items = q.items ++ l) (htarget : target = q.pendingAccountNonce.getD n)
    (hrange : l.map TimemarkedTransaction.nonce = List.range' target l.length)
    (habove : ∀ s ∈ l, s.nonce < t.nonce) (h : CanFollow n b q' t) :
    t.nonce = target + l.length := by
  have hnonce := h.1
  unfold pendingAccountNonce at hnonce
  cases hl : l.getLast? with
  | none =>
    have hnil := List.getLast?_eq_none_iff.mp hl
    rw [hnil, List.append_nil] at hq
    rw [hnil, List.length_nil, htarget, hnonce, hq]
    rfl
  | some last =>
    have hlast : (l.map TimemarkedTransaction.nonce).getLast? = some last.nonce := by
      rw [List.getLast?_map, hl, Option.map_some]
    rw [hrange, List.getLast?_range'] at hlast
    split_ifs at hlast with hlen
    have hlast := Option.some.inj hlast
    have hlt := habove last (List.mem_of_getLast? hl)
    rw [hq, List.getLast?_append, hl, Option.some_or, Option.map_some, Option.getD_some] at hnonce
    have hmax : t.nonce ≤ u32Max := t.nonce_le
    unfold saturatingAdd at hnonce
    omega

/-- After the promotions of a queue, none of what stays parked could follow the pending ones, if and only
if the queue was not blocked before. -/
theorem promotions_complete_iff {n target : ℕ} {b : Balances} {q q' parked rest : Queue}
    {l : List TimemarkedTransaction} (hnext : Mempool.IsNextNonce q n target)
    (hmax : ∀ s ∈ q.items, s.nonce < u32Max) (hn : ∀ t ∈ parked.items, n ≤ t.nonce ∨ q.items ≠ [])
    (hsplit : parked.findPromotables target (q.subtractContainedCosts b) = (l, rest))
    (hq : q'.items = q.items ++ l) :
    (∀ t ∈ rest.items, ¬CanFollow n b q' t) ↔ Unblocked n b q parked := by
  obtain ⟨hitems, hrange, hafford, -⟩ :=
    parked.findPromotables_front target (q.subtractContainedCosts b)
  have htarget : target = q.pendingAccountNonce.getD n := by
    unfold pendingAccountNonce
    rcases hnext with ⟨hnil, rfl⟩ | ⟨last, hlast, rfl⟩
    · rw [hnil]
      rfl
    · have hlt := hmax last (List.mem_of_getLast? hlast)
      rw [hlast, Option.map_some, Option.getD_some]
      unfold saturatingAdd
      omega
  by_cases hge : ∀ t ∈ parked.items, target ≤ t.nonce
  · refine iff_of_true ?_ (Or.inl fun t ht s hs => (hnext.nonce_lt hs).trans_le (hge t ht))
    intro t ht hfollow
    have hcomplete := findPromotables_complete (b := q.subtractContainedCosts b) hge (t := t)
    rw [hsplit] at hitems hrange hafford hcomplete
    have hasc := parked.ascending
    rw [hitems] at hasc
    have hnonce := eq_add_length_of_canFollow hq htarget hrange
      (fun s hs => (List.pairwise_append.mp hasc).2.2 s hs t ht) hfollow
    refine hcomplete ht hnonce ?_
    -- what covers its cost beside the pending and the promoted ones covers both
    intro asset
    have hcost := TimemarkedTransaction.exists_deductCosts_iff.mp hfollow.2 asset
    have hpromoted := hafford asset
    rw [amount_subtractContainedCosts] at hcost hpromoted ⊢
    rw [hq, costOf_append] at hcost
    rw [costOf_append, costOf_singleton]
    dsimp only at hpromoted ⊢
    omega
  · push Not at hge
    obtain ⟨t, ht, hlt⟩ := hge
    have hblocked := findPromotables_blocked (b := q.subtractContainedCosts b) ht hlt
    rw [hsplit] at hblocked
    obtain ⟨rfl, rfl⟩ := Prod.mk.inj hblocked
    rw [List.append_nil] at hq
    rw [KeyedQueue.ext hq]
    constructor
    · exact Or.inr
    · rintro (habove | hnone)
      · rcases hnext with ⟨hnil, rfl⟩ | ⟨last, hlast, rfl⟩
        · have := (hn t ht).resolve_right fun hne => hne hnil
          omega
        · have := habove t ht last (List.mem_of_getLast? hlast)
          omega
      · exact hnone

end Queue

namespace Mempool

section

variable {parkedMaxTxCount : ℕ} [External] [TransactionCodec]

/-- No parked transaction of an account could follow its pending ones. -/
def Promoted (a : AddressBytes) (n : ℕ) (b : Balances) (m : Mempool parkedMaxTxCount) : Prop :=
  ∀ t ∈ (m.parked.queue a).items, ¬Queue.CanFollow n b (m.pending.queue a) t

/-! ## Insertion -/

/-- What an insertion that pending takes returns, and leaves. -/
theorem insert_of_add {ttx : TimemarkedTransaction} {n : ℕ} {b : Balances}
    {m : Mempool parkedMaxTxCount} {pending : PendingTransactions}
    (hadd : m.pending.add ttx n b = .ok pending)
    (hok : (m.insert ttx n b).1 = .ok (.ok ())) :
    ttx.nonce < u32Max ∧ (m.insert ttx n b).2 =
      (promote (fun _ => ttx.id) n b
        (m.parked.findPromotables ttx.address (ttx.nonce + 1)
          (pending.subtractContainedCosts ttx.address b)).1
        { m with
          pending := pending
          parked := (m.parked.findPromotables ttx.address (ttx.nonce + 1)
            (pending.subtractContainedCosts ttx.address b)).2 }).track ttx.id := by
  unfold insert at hok ⊢
  rw [hadd] at hok ⊢
  dsimp only at hok ⊢
  cases hnext : checkedAdd u32Max ttx.nonce 1 with
  | none =>
    rw [hnext] at hok
    cases hok
  | some next =>
    obtain ⟨rfl, hle⟩ := checkedAdd_eq_some.mp hnext
    exact ⟨by omega, rfl⟩

/-- After an insertion that pending takes, no parked transaction could follow the pending ones, if and only
if the new transaction leaves the parked ones unblocked. -/
theorem insert_promoted_iff {ttx : TimemarkedTransaction} {n : ℕ} {b : Balances}
    {m : Mempool parkedMaxTxCount} (hfiled : m.Filed)
    (hchained : (m.pending.queue ttx.address).Chained n) {pending : PendingTransactions}
    (hadd : m.pending.add ttx n b = .ok pending)
    (hok : (m.insert ttx n b).1 = .ok (.ok ())) :
    Promoted ttx.address n b (m.insert ttx n b).2 ↔
      Queue.Unblocked n b ((m.pending.queue ttx.address).insert ttx)
        (m.parked.queue ttx.address) := by
  obtain ⟨hmax, heq⟩ := insert_of_add hadd hok
  obtain ⟨pending', q, rest, l, hq, hparked, -, -, hrefiled, hrefiled', hpromote⟩ :=
    insert_promotes hfiled hchained hadd
  obtain ⟨hget, hrefiledAdd, -⟩ := TransactionsContainer.refiled_of_add hadd
  obtain ⟨-, q₀, hq₀, -⟩ := TransactionsContainer.add_eq_ok.mp hadd
  obtain ⟨-, hn, -⟩ := Queue.add_eq_ok.mp hq₀
  have habove := hchained.nonce_lt hn hget
  have hitems := KeyedQueue.items_insert_of_above habove
  -- what is promoted is what the parked queue gives
  obtain ⟨-, hsplit⟩ := TransactionsContainer.findPromotables_refiled ttx.address (ttx.nonce + 1)
    (pending.subtractContainedCosts ttx.address b) m.parked
  have hrest : ((m.parked.queue ttx.address).findPromotables (ttx.nonce + 1)
      (pending.subtractContainedCosts ttx.address b)).2 = rest := by
    rw [← hsplit.queue_self, hrefiled'.queue_self]
  obtain ⟨hfront, -⟩ := (m.parked.queue ttx.address).findPromotables_front (ttx.nonce + 1)
    (pending.subtractContainedCosts ttx.address b)
  rw [hrest, hparked] at hfront
  have hl := List.append_cancel_right hfront
  rw [TransactionsContainer.subtractContainedCosts_eq, hrefiledAdd.queue_self] at hrest hl
  rw [heq, hpromote]
  unfold Promoted track
  dsimp only
  rw [hrefiled.queue_self, hrefiled'.queue_self]
  have hpromoted : Queue.findPromotables (ttx.nonce + 1)
      (Queue.subtractContainedCosts b (KeyedQueue.insert ttx (m.pending.queue ttx.address)))
      (m.parked.queue ttx.address) = (l, rest) := Prod.ext hl.symm hrest
  refine Queue.promotions_complete_iff (Or.inr ⟨ttx, ?_, rfl⟩) ?_ ?_ hpromoted ?_
  · rw [hitems, List.getLast?_append]
    rfl
  · intro s hs
    rw [hitems, List.mem_append, List.mem_singleton] at hs
    rcases hs with hs | rfl
    · exact (habove s hs).trans hmax
    · exact hmax
  · intro t _
    right
    rw [hitems]
    simp
  · rw [hq, hitems, List.append_assoc]
    rfl

/-! ## Maintenance -/

theorem cleaned_clean (newCost : Transaction → Except Report Costs) (recost : Bool) (n : ℕ)
    (now : Time) (ttl : ℕ) (q : Queue) :
    ∃ out, Queue.Cleaned n q out (q.clean newCost recost n now ttl) := by
  obtain ⟨out, -, hcleaned⟩ := q.cleaned_cleanStaleExpired n now ttl
  refine ⟨out, ?_⟩
  unfold Queue.clean
  cases recost with
  | false => exact hcleaned
  | true => exact hcleaned.recost newCost

/-- The queue of an account in a container after its cleaning. -/
theorem queue_clean {d : Discipline} (newCost : Transaction → Except Report Costs) (recost : Bool)
    (a : AddressBytes) (n : ℕ) (now : Time) (c : TransactionsContainer d) :
    TransactionsContainer.Refiled a ((c.queue a).clean newCost recost n now c.txTtl) c
      (if recost then (c.cleanAccountStaleExpired a n now).2.recostTransactions a newCost
        else (c.cleanAccountStaleExpired a n now).2) := by
  obtain ⟨-, hrefiled⟩ := TransactionsContainer.cleanAccountStaleExpired_refiled a n now c
  unfold Queue.clean
  cases recost with
  | false => exact hrefiled
  | true =>
    have hrecost := TransactionsContainer.recostTransactions_refiled a newCost
      (c.cleanAccountStaleExpired a n now).2
    rw [hrefiled.queue_self] at hrecost
    exact hrefiled.trans hrecost

/-- The pending queue of an account after its cleaning. -/
def cleanPending (state : StateReads) (recost : Bool) (clock : Clock) (a : AddressBytes) (n : ℕ)
    (m : Mempool parkedMaxTxCount) : Queue :=
  (m.pending.queue a).clean state.getTotalTransactionCost recost n (clock.pending a)
    m.pending.txTtl

/-- The parked queue of an account after its cleaning. -/
def cleanParked (state : StateReads) (recost : Bool) (clock : Clock) (a : AddressBytes) (n : ℕ)
    (m : Mempool parkedMaxTxCount) : Queue :=
  (m.parked.queue a).clean state.getTotalTransactionCost recost n (clock.parked a) m.parked.txTtl

theorem cleanAccount_refiled (state : StateReads) (recost : Bool) (clock : Clock)
    (a : AddressBytes) (n : ℕ) (m : Mempool parkedMaxTxCount) :
    TransactionsContainer.Refiled a (m.cleanPending state recost clock a n) m.pending
        (m.cleanAccount state recost clock a n).2.pending ∧
      TransactionsContainer.Refiled a (m.cleanParked state recost clock a n) m.parked
        (m.cleanAccount state recost clock a n).2.parked :=
  ⟨queue_clean _ _ _ _ _ _, queue_clean _ _ _ _ _ _⟩

/-- The turn of an account whose reads succeed and of which nothing is demoted. -/
theorem maintainAccount_promoted_iff {m : Mempool parkedMaxTxCount} (hfiled : m.Filed)
    {state : StateReads} {recost : Bool} {clock : Clock} {a : AddressBytes} {n : ℕ} {b : Balances}
    (hnonce : state.getAccountNonce a = .ok n) (hbalances : state.getAccountBalances a = .ok b)
    (hnone : ((m.cleanPending state recost clock a n).findDemotables b).1 = []) :
    Promoted a n b (m.maintainAccount state recost clock a).2 ↔
      Queue.Unblocked n b (m.cleanPending state recost clock a n)
        (m.cleanParked state recost clock a n) := by
  have heq : m.maintainAccount state recost clock a =
      ((m.cleanAccount state recost clock a n).1,
        (m.cleanAccount state recost clock a n).2.moveAccount a n b) := by
    unfold maintainAccount
    rw [hnonce, hbalances]
  obtain ⟨hpending, hparked⟩ := m.cleanAccount_refiled state recost clock a n
  have hfiled' := hfiled.cleanAccount state recost clock a n
  have hge : ∀ t ∈ ((m.cleanAccount state recost clock a n).2.pending.queue a).items,
      n ≤ t.nonce := fun t ht => le_nonce_cleanAccount ht
  rw [heq]
  dsimp only
  generalize (m.cleanAccount state recost clock a n).2 = m' at *
  rcases moveAccount_cases (b := b) (hfiled'.2 a) hge with
    ⟨-, target, pending, parked, q, rest, l, hnext, hsplit, -, hq, -, -, hrefiled, hrefiled', hmove⟩ |
      ⟨hsome, -⟩
  · rw [hpending.queue_self] at hnext hsplit hq
    rw [hparked.queue_self] at hsplit
    rw [hmove]
    unfold Promoted
    dsimp only
    rw [hrefiled.queue_self, hrefiled'.queue_self]
    refine Queue.promotions_complete_iff hnext ?_ ?_ hsplit hq
    · exact ((m.cleanPending state recost clock a n).findDemotables_spec b).2.2 hnone
    · intro t ht
      obtain ⟨out, hcleaned⟩ := cleaned_clean state.getTotalTransactionCost recost n
        (clock.parked a) m.parked.txTtl (m.parked.queue a)
      exact Or.inl (hcleaned.le_nonce t ht)
  · rw [hpending.queue_self] at hsome
    exact absurd hnone hsome

/-- An account's transactions are where they were. -/
structure SameAccount (a : AddressBytes) (m m' : Mempool parkedMaxTxCount) : Prop where
  pending : m'.pending.queue a = m.pending.queue a
  parked : m'.parked.queue a = m.parked.queue a
  pendingTtl : m'.pending.txTtl = m.pending.txTtl
  parkedTtl : m'.parked.txTtl = m.parked.txTtl

omit [External] [TransactionCodec] in
theorem SameAccount.trans {a : AddressBytes} {m m' m'' : Mempool parkedMaxTxCount}
    (h : SameAccount a m m') (h' : SameAccount a m' m'') : SameAccount a m m'' :=
  ⟨h'.pending.trans h.pending, h'.parked.trans h.parked, h'.pendingTtl.trans h.pendingTtl,
    h'.parkedTtl.trans h.parkedTtl⟩

omit [External] [TransactionCodec] in
theorem SameAccount.promoted_same {a : AddressBytes} {n : ℕ} {b : Balances}
    {m m' : Mempool parkedMaxTxCount} (h : SameAccount a m m') :
    Promoted a n b m' ↔ Promoted a n b m := by
  unfold Promoted
  rw [h.pending, h.parked]

theorem SameAccount.cleanPending {a : AddressBytes} {m m' : Mempool parkedMaxTxCount}
    (h : SameAccount a m m') (state : StateReads) (recost : Bool) (clock : Clock) (n : ℕ) :
    m'.cleanPending state recost clock a n = m.cleanPending state recost clock a n := by
  unfold Mempool.cleanPending
  rw [h.pending, h.pendingTtl]

theorem SameAccount.cleanParked {a : AddressBytes} {m m' : Mempool parkedMaxTxCount}
    (h : SameAccount a m m') (state : StateReads) (recost : Bool) (clock : Clock) (n : ℕ) :
    m'.cleanParked state recost clock a n = m.cleanParked state recost clock a n := by
  unfold Mempool.cleanParked
  rw [h.parked, h.parkedTtl]

theorem sameAccount_demote {a : AddressBytes} {n : ℕ} {b : Balances}
    {l : List TimemarkedTransaction} (haddress : ∀ t ∈ l, a ≠ t.address)
    (m : Mempool parkedMaxTxCount) : SameAccount a m (demote n b l m) := by
  induction l generalizing m with
  | nil => exact ⟨rfl, rfl, rfl, rfl⟩
  | cons t l ih =>
    have hrest := ih fun s hs => haddress s (List.mem_cons_of_mem _ hs)
    rw [demote]
    cases hadd : m.parked.add t n b with
    | error e =>
      have hstep : SameAccount a m (m.untrack t.id) := ⟨rfl, rfl, rfl, rfl⟩
      exact hstep.trans (hrest (m.untrack t.id))
    | ok parked =>
      obtain ⟨-, hrefiled, -⟩ := TransactionsContainer.refiled_of_add hadd
      have hstep : SameAccount a m { m with parked := parked } :=
        ⟨rfl, hrefiled.queue_of_ne (haddress t List.mem_cons_self), rfl, hrefiled.txTtl⟩
      exact hstep.trans (hrest { m with parked := parked })

/-- The turn of an account leaves the others alone. -/
theorem sameAccount_maintainAccount {m : Mempool parkedMaxTxCount} (hfiled : m.Filed)
    (state : StateReads) (recost : Bool) (clock : Clock) {a c : AddressBytes} (hne : a ≠ c) :
    SameAccount a m (m.maintainAccount state recost clock c).2 := by
  rcases m.maintainAccount_cases state recost clock c with ⟨heq, -⟩ | ⟨n, b, -, -, heq⟩
  · rw [heq]
    exact ⟨rfl, rfl, rfl, rfl⟩
  · obtain ⟨hpending, hparked⟩ := m.cleanAccount_refiled state recost clock c n
    have hfiled' := hfiled.cleanAccount state recost clock c n
    have hge : ∀ t ∈ ((m.cleanAccount state recost clock c n).2.pending.queue c).items,
        n ≤ t.nonce := fun t ht => le_nonce_cleanAccount ht
    have hclean : SameAccount a m (m.cleanAccount state recost clock c n).2 :=
      ⟨hpending.queue_of_ne hne, hparked.queue_of_ne hne, hpending.txTtl, hparked.txTtl⟩
    rw [heq]
    refine hclean.trans ?_
    dsimp only
    rcases moveAccount_cases (b := b) (hfiled'.2 c) hge with
      ⟨-, target, pending, parked, q, rest, l, -, -, -, -, -, -, hrefiled, hrefiled', hmove⟩ |
        ⟨-, pending, hrefiled, hmove⟩
    · rw [hmove]
      exact ⟨hrefiled.queue_of_ne hne, hrefiled'.queue_of_ne hne, hrefiled.txTtl,
        hrefiled'.txTtl⟩
    · rw [hmove]
      have hstep : SameAccount a (m.cleanAccount state recost clock c n).2
          { (m.cleanAccount state recost clock c n).2 with pending := pending } :=
        ⟨hrefiled.queue_of_ne hne, rfl, hrefiled.txTtl, rfl⟩
      refine hstep.trans (sameAccount_demote ?_ _)
      intro t ht
      have hitems := (Queue.findDemotables_spec b
        ((m.cleanAccount state recost clock c n).2.pending.queue c)).1
      rw [hfiled'.1 c t (by rw [hitems]; exact List.mem_append_right _ ht)]
      exact hne

theorem sameAccount_maintainAccounts {m : Mempool parkedMaxTxCount} (hfiled : m.Filed)
    (state : StateReads) (recost : Bool) (clock : Clock) {a : AddressBytes}
    {addresses : List AddressBytes} (ha : a ∉ addresses) :
    SameAccount a m (m.maintainAccounts state recost clock addresses).2 := by
  induction addresses generalizing m with
  | nil => exact ⟨rfl, rfl, rfl, rfl⟩
  | cons c rest ih =>
    rw [List.mem_cons, not_or] at ha
    exact (sameAccount_maintainAccount hfiled state recost clock ha.1).trans
      (ih (hfiled.maintainAccount state recost clock c) ha.2)

/-- The loop promotes of an account what its own turn promotes. -/
theorem maintainAccounts_promoted_iff {m : Mempool parkedMaxTxCount} (hfiled : m.Filed)
    {state : StateReads} {recost : Bool} {clock : Clock} {a : AddressBytes} {n : ℕ} {b : Balances}
    (hnonce : state.getAccountNonce a = .ok n) (hbalances : state.getAccountBalances a = .ok b)
    (hnone : ((m.cleanPending state recost clock a n).findDemotables b).1 = [])
    {addresses : List AddressBytes} (hnodup : addresses.Nodup) (ha : a ∈ addresses) :
    Promoted a n b (m.maintainAccounts state recost clock addresses).2 ↔
      Queue.Unblocked n b (m.cleanPending state recost clock a n)
        (m.cleanParked state recost clock a n) := by
  induction addresses generalizing m with
  | nil => exact absurd ha List.not_mem_nil
  | cons c rest ih =>
    rw [List.nodup_cons] at hnodup
    have hfiled' := hfiled.maintainAccount state recost clock c
    by_cases hsame : a = c
    · subst hsame
      have hrest := sameAccount_maintainAccounts hfiled' state recost clock hnodup.1
      exact hrest.promoted_same.trans (maintainAccount_promoted_iff hfiled hnonce hbalances hnone)
    · have hturn := sameAccount_maintainAccount hfiled state recost clock hsame
      have hrest := ih hfiled' (by rwa [hturn.cleanPending]) hnodup.2
        ((List.mem_cons.mp ha).resolve_left hsame)
      rwa [hturn.cleanPending, hturn.cleanParked] at hrest

theorem runMaintenance_promoted_iff {nonces : Nonces} {m : Mempool parkedMaxTxCount}
    (hfiled : m.Filed) {state : StateReads} {recost : Bool} {clock : Clock}
    {addresses : List AddressBytes}
    (hat : (Call.runMaintenance state recost clock addresses).At nonces m) {a : AddressBytes}
    {n : ℕ} {b : Balances} (hnonce : state.getAccountNonce a = .ok n)
    (hbalances : state.getAccountBalances a = .ok b)
    (hnone : ((m.cleanPending state recost clock a n).findDemotables b).1 = []) :
    Promoted a n b (m.runMaintenance state recost clock addresses) ↔
      Queue.Unblocked n b (m.cleanPending state recost clock a n)
        (m.cleanParked state recost clock a n) := by
  obtain ⟨-, hnodup, hall⟩ := hat
  have hreport : SameAccount a (m.maintainAccounts state recost clock addresses).2
      (m.runMaintenance state recost clock addresses) := by
    unfold runMaintenance
    dsimp only
    obtain ⟨hpending, hparked⟩ := pending_report
      (m.maintainAccounts state recost clock addresses).1
      (m.maintainAccounts state recost clock addresses).2
    exact ⟨by rw [hpending], by rw [hparked], by rw [hpending], by rw [hparked]⟩
  rw [hreport.promoted_same]
  by_cases ha : a ∈ addresses
  · exact maintainAccounts_promoted_iff hfiled hnonce hbalances hnone hnodup ha
  · -- an account that is not visited has no parked transactions
    have hnot : a ∉ m.parked.addresses := fun hmem => ha ((hall a).mpr (Or.inr hmem))
    have hempty : (m.parked.queue a).items = [] := by
      rw [TransactionsContainer.queue_of_notMem hnot]
      rfl
    have hsame := sameAccount_maintainAccounts hfiled state recost clock ha
    refine iff_of_true ?_ (Or.inl ?_)
    · intro t ht
      rw [hsame.parked, hempty] at ht
      exact absurd ht List.not_mem_nil
    · intro t ht
      obtain ⟨out, hcleaned⟩ := cleaned_clean state.getTotalTransactionCost recost n
        (clock.parked a) m.parked.txTtl (m.parked.queue a)
      obtain ⟨s, hs, -⟩ := hcleaned.mem t ht
      rw [hempty] at hs
      exact absurd hs List.not_mem_nil

/-- In every mempool that calls reach over a chain on which no account's nonce decreases: after an
insertion that pending takes, and after maintenance that reads an account and demotes none of its
transactions, no parked transaction of the account could follow its pending ones, if and only if its
parked transactions were not blocked, beside the new transaction or after the cleaning. -/
theorem promoted_iff {nonces nonces' : Nonces} {m : Mempool parkedMaxTxCount}
    (run : Run (fun ν ν' _ _ => ν ≤ ν') nonces m) (hle : nonces ≤ nonces') :
    (∀ ttx b pending, m.pending.add ttx (nonces' ttx.address) b = .ok pending →
      (m.insert ttx (nonces' ttx.address) b).1 = .ok (.ok ()) →
        (Promoted ttx.address (nonces' ttx.address) b (m.insert ttx (nonces' ttx.address) b).2 ↔
          Queue.Unblocked (nonces' ttx.address) b ((m.pending.queue ttx.address).insert ttx)
            (m.parked.queue ttx.address))) ∧
      ∀ state recost clock addresses,
        (Call.runMaintenance state recost clock addresses).At nonces' m →
        ∀ a b, state.getAccountNonce a = .ok (nonces' a) → state.getAccountBalances a = .ok b →
          ((m.cleanPending state recost clock a (nonces' a)).findDemotables b).1 = [] →
            (Promoted a (nonces' a) b (m.runMaintenance state recost clock addresses) ↔
              Queue.Unblocked (nonces' a) b (m.cleanPending state recost clock a (nonces' a))
                (m.cleanParked state recost clock a (nonces' a))) := by
  have hchained := (run.chained fun _ _ _ _ h => h).mono hle
  constructor
  · intro ttx b pending hadd hok
    exact insert_promoted_iff run.filed (hchained _) hadd hok
  · intro state recost clock addresses hat a b hnonce hbalances hnone
    exact runMaintenance_promoted_iff run.filed hat hnonce hbalances hnone

end

/-! ## A stale transaction at the front -/

section

open TestUtils

/-- Alice's transaction with some nonce, and with a balance of five. -/
def fiveInsertion (nonce currentNonce : ℕ) : Call :=
  .insert (pooled [1] nonce) currentNonce (nativeBalance 5)

/-- Those with the nonces 1 and 3 are parked at her nonce 0. -/
def gapsParked : Mempool 10 := ((new 10).after (fiveInsertion 1 0)).after (fiveInsertion 3 0)

theorem run_gapsParked : Run (fun ν ν' _ _ => ν ≤ ν') (fun _ => 0) gapsParked := by
  have hfirst : (fiveInsertion 1 0).At (fun _ => 0) (new 10) := rfl
  have hsecond : (fiveInsertion 3 0).At (fun _ => 0) ((new 10).after (fiveInsertion 1 0)) := rfl
  exact .call (.call (.new fun _ => 0) hfirst (le_refl _)) hsecond (le_refl _)

set_option maxRecDepth 10000 in
theorem add_gapsParked :
    (∃ pending, gapsParked.pending.add (pooled [1] 2) 2 (nativeBalance 5) = .ok pending) ∧
      (gapsParked.insert (pooled [1] 2) 2 (nativeBalance 5)).1 = .ok (.ok ()) := by
  have hadd : (gapsParked.pending.add (pooled [1] 2) 2 (nativeBalance 5)).isOk = true := by
    decide +kernel
  refine ⟨?_, by decide +kernel⟩
  cases h : gapsParked.pending.add (pooled [1] 2) 2 (nativeBalance 5) with
  | error e =>
    rw [h] at hadd
    exact absurd hadd Bool.false_ne_true
  | ok pending => exact ⟨pending, rfl⟩

/-- The transaction with nonce 2 at alice's nonce 2, while the one with nonce 1 is stale. -/
theorem promoted_iff_gaps :
    Promoted aliceAddress.bytes 2 (nativeBalance 5)
        (gapsParked.insert (pooled [1] 2) 2 (nativeBalance 5)).2 ↔
      Queue.Unblocked 2 (nativeBalance 5)
        ((gapsParked.pending.queue aliceAddress.bytes).insert (pooled [1] 2))
        (gapsParked.parked.queue aliceAddress.bytes) := by
  obtain ⟨⟨pending, hadd⟩, hok⟩ := add_gapsParked
  have hle : (fun _ => 0 : Nonces) ≤ fun _ => 2 := fun _ => Nat.zero_le 2
  exact (promoted_iff run_gapsParked hle).1 (pooled [1] 2) (nativeBalance 5) pending hadd hok

set_option maxRecDepth 10000 in
/-- The transaction with nonce 3 stays parked behind the stale one, although it follows the pending one and
alice's balance covers both. -/
theorem blocked_stuck :
    Run (fun ν ν' _ _ => ν ≤ ν') (fun _ => 0) gapsParked ∧
      (∃ pending, gapsParked.pending.add (pooled [1] 2) 2 (nativeBalance 5) = .ok pending) ∧
      (gapsParked.insert (pooled [1] 2) 2 (nativeBalance 5)).1 = .ok (.ok ()) ∧
      ¬Promoted aliceAddress.bytes 2 (nativeBalance 5)
        (gapsParked.insert (pooled [1] 2) 2 (nativeBalance 5)).2 := by
  refine ⟨run_gapsParked, add_gapsParked.1, add_gapsParked.2, fun h => ?_⟩
  have hfound : (((gapsParked.insert (pooled [1] 2) 2 (nativeBalance 5)).2.parked.queue
      aliceAddress.bytes).items.find? fun t => t.nonce = 3).map (fun t =>
        (t.deductCosts (((gapsParked.insert (pooled [1] 2) 2 (nativeBalance 5)).2.pending.queue
          aliceAddress.bytes).subtractContainedCosts (nativeBalance 5))).isOk) = some true := by
    decide +kernel
  have hnext : ((gapsParked.insert (pooled [1] 2) 2 (nativeBalance 5)).2.pending.queue
      aliceAddress.bytes).pendingAccountNonce = some 3 := by decide +kernel
  obtain ⟨t, ht, hok⟩ := Option.map_eq_some_iff.mp hfound
  refine h t (List.mem_of_find?_eq_some ht) ⟨?_, ?_⟩
  · rw [hnext]
    have hnonce := List.find?_some ht
    exact of_decide_eq_true hnonce
  · generalize t.deductCosts _ = result at hok ⊢
    cases result with
    | error e => exact absurd hok Bool.false_ne_true
    | ok b' => exact ⟨b', rfl⟩

end

end Mempool

end Astria.Sequencer
