import Mathlib.Data.Multiset.MapFold
import Astria.Lib.AssocSum
import Astria.Lib.Budget
import Astria.Lib.KeyedQueue
import Astria.Sequencer.Transaction

/-!
# The transaction containers of the mempool

The pending and the parked container of the mempool (`mempool/transactions_container.rs`): for each
account a queue of transactions by nonce.  The two implementers of `TransactionsForAccount` and of
`TransactionsContainer` differ in what `Discipline` says of them.

A transaction's hash and address are functions of it, so they are not stored beside it.

Results:
* `add_eq_ok`: what a queue that takes a transaction has checked;
* `findDemotables_spec`, `findPromotables_spec`: the demoted transactions are the end of the queue and
  the rest is affordable; the promoted ones are the front, contiguous and affordable;
* `Refiled`: what an operation on one account does to the container, and that it does nothing else.
-/

namespace Astria.Sequencer

open Astria.Core Astria.Lib

/-! ## Transactions -/

/-- The balances of an account, as far as it has any. -/
abbrev Balances := Budget IbcPrefixed

/-- `TimemarkedTransaction` (lines 36–44).  The nonce is a `u32`. -/
structure TimemarkedTransaction where
  signedTx : Transaction
  nonce_le : signedTx.params.nonce ≤ u32Max
  timeFirstSeen : Time
  cost : Costs

namespace TimemarkedTransaction

def nonce (t : TimemarkedTransaction) : ℕ := t.signedTx.params.nonce

def address [External] (t : TimemarkedTransaction) : AddressBytes := signer t.signedTx

def id [External] [TransactionCodec] (t : TimemarkedTransaction) : TransactionId :=
  transactionId t.signedTx

/-- `deduct_costs` (lines 73–91). -/
def deductCosts (t : TimemarkedTransaction) (b : Balances) : Except Report Balances :=
  match Budget.spendAll t.cost b with
  | .ok b => .ok b
  | .error (.missing k) =>
    .error ["account missing balance for " ++ (Denom.ibcPrefixed k).toString]
  | .error (.short k) =>
    .error ["cost greater than account's balance for " ++ (Denom.ibcPrefixed k).toString]

def setCostMap (cost : Costs) (t : TimemarkedTransaction) : TimemarkedTransaction :=
  { t with cost := cost }

/-- The body of the loop of `recost_transactions`. -/
def recost (newCost : Transaction → Except Report Costs) (t : TimemarkedTransaction) :
    TimemarkedTransaction :=
  match newCost t.signedTx with
  | .ok cost => t.setCostMap cost
  | .error _ => t

theorem signedTx_recost (newCost : Transaction → Except Report Costs)
    (t : TimemarkedTransaction) : (t.recost newCost).signedTx = t.signedTx := by
  unfold recost
  cases newCost t.signedTx <;> rfl

theorem nonce_recost (newCost : Transaction → Except Report Costs) (t : TimemarkedTransaction) :
    (t.recost newCost).nonce = t.nonce := by
  unfold nonce
  rw [signedTx_recost]

/-- `is_expired`: the difference saturates. -/
def isExpired (now : Time) (ttl : ℕ) (t : TimemarkedTransaction) : Bool :=
  ttl < now - t.timeFirstSeen

end TimemarkedTransaction

inductive InsertionError where
  | alreadyPresent
  | nonceTooLow
  | nonceTaken
  | nonceGap
  | accountSizeLimit
  | accountBalanceTooLow
  | parkedSizeLimit
  deriving DecidableEq

def InsertionError.toString : InsertionError → String
  | .alreadyPresent => "transaction already exists in the mempool"
  | .nonceTooLow => "given nonce has already been used previously"
  | .nonceTaken => "given nonce already exists in the mempool"
  | .nonceGap => "gap in the pending nonce sequence"
  | .accountSizeLimit =>
    "maximum number of pending transactions has been reached for the given account"
  | .accountBalanceTooLow => "account does not have enough balance to cover costs"
  | .parkedSizeLimit => "parked container size limit reached"

/-- `RemovalReason` (`mempool/mod.rs`, lines 48–54). -/
inductive RemovalReason where
  | expired
  | nonceStale
  | lowerNonceInvalidated
  | failedPrepareProposal (reason : String)
  deriving DecidableEq

/-! ## The transactions of one account -/

/-- `BTreeMap<u32, TimemarkedTransaction>`, whose keys are the nonces. -/
abbrev Queue := KeyedQueue TimemarkedTransaction.nonce

/-- The two implementers of the traits, with the limits of the parked one. -/
inductive Discipline where
  | pending
  | parked (maxTxCountPerAccount maxTxCount : ℕ)

namespace Discipline

def isAtTxLimit : Discipline → Queue → Bool
  | .pending, _ => false
  | .parked maxTxCountPerAccount _, q => maxTxCountPerAccount ≤ q.items.length

/-- `try_for_each` of `deduct_costs`. -/
def deductAll : List TimemarkedTransaction → Balances → Except Report Balances
  | [], b => .ok b
  | t :: rest, b =>
    match t.deductCosts b with
    | .error e => .error e
    | .ok b => deductAll rest b

def isSequentialNoncePreconditionMet :
    Discipline → Queue → TimemarkedTransaction → ℕ → Bool
  | .pending, q, t, currentAccountNonce =>
    match checkedSub t.nonce 1 with
    | none => currentAccountNonce = 0
    | some previousNonce => (q.get previousNonce).isSome || t.nonce = currentAccountNonce
  | .parked _ _, _, _, _ => true

def hasBalanceToCover : Discipline → Queue → TimemarkedTransaction → Balances → Bool
  | .pending, q, t, currentAccountBalances =>
    (deductAll (q.items ++ [t]) currentAccountBalances).isOk
  | .parked _ _, _, _, _ => true

/-- `check_total_tx_count`, of a container with a number of transactions. -/
def checkTotalTxCount : Discipline → ℕ → Except InsertionError Unit
  | .pending, _ => .ok ()
  | .parked _ maxTxCount, len =>
    if maxTxCount ≤ len then .error .parkedSizeLimit else .ok ()

end Discipline

namespace Queue

/-- `TransactionsForAccount::add` (lines 445–479). -/
def add [External] [TransactionCodec] (d : Discipline) (t : TimemarkedTransaction)
    (currentAccountNonce : ℕ) (currentAccountBalances : Balances) (q : Queue) :
    Except InsertionError Queue :=
  if d.isAtTxLimit q then .error .accountSizeLimit
  else if t.nonce < currentAccountNonce then .error .nonceTooLow
  else
    match q.get t.nonce with
    | some existing => .error (if existing.id = t.id then .alreadyPresent else .nonceTaken)
    | none =>
      if d.isSequentialNoncePreconditionMet q t currentAccountNonce then
        if d.hasBalanceToCover q t currentAccountBalances then .ok (q.insert t)
        else .error .accountBalanceTooLow
      else .error .nonceGap

/-- `TransactionsForAccount::remove` (lines 487–498). -/
def remove [External] [TransactionCodec] (nonce : ℕ) (q : Queue) : List TransactionId × Queue :=
  match q.get nonce with
  | none => ([], q)
  | some _ => ((q.atLeast nonce).items.map TimemarkedTransaction.id, q.below nonce)

/-- `pending_account_nonce`. -/
def pendingAccountNonce (q : Queue) : Option ℕ :=
  q.items.getLast?.map fun t => saturatingAdd u32Max t.nonce 1

/-- The loop of `find_demotables` (lines 233–255): where to split the queue.  The loop over the costs
of a transaction is that of `deduct_costs`. -/
def demotionSplit : List TimemarkedTransaction → Balances → ℕ → ℕ
  | [], _, splitAt => splitAt
  | t :: rest, b, splitAt =>
    match t.deductCosts b with
    | .error _ => splitAt
    | .ok b => demotionSplit rest b (saturatingAdd u32Max t.nonce 1)

/-- `PendingTransactionsForAccount::find_demotables`. -/
def findDemotables (availableBalances : Balances) (q : Queue) :
    List TimemarkedTransaction × Queue :=
  let splitAt := demotionSplit q.items availableBalances 0
  ((q.atLeast splitAt).items, q.below splitAt)

/-- The loop of `find_promotables` (lines 352–362): where to split the queue, or that all of it goes. -/
def promotionSplit : List TimemarkedTransaction → ℕ → Balances → ℕ → Option ℕ
  | [], _, _, splitAt => some splitAt
  | t :: rest, targetNonce, b, splitAt =>
    if t.nonce ≠ targetNonce then some splitAt
    else
      match t.deductCosts b with
      | .error _ => some splitAt
      | .ok b =>
        match checkedAdd u32Max targetNonce 1 with
        | none => none
        | some nextTarget => promotionSplit rest nextTarget b nextTarget

/-- `ParkedTransactionsForAccount::find_promotables`. -/
def findPromotables (targetNonce : ℕ) (availableBalances : Balances) (q : Queue) :
    List TimemarkedTransaction × Queue :=
  match promotionSplit q.items targetNonce availableBalances 0 with
  | none => (q.items, .empty)
  | some splitAt => ((q.below splitAt).items, q.atLeast splitAt)

/-- `PendingTransactionsForAccount::subtract_contained_costs` (lines 266–283): what is missing is
logged. -/
def subtractContainedCosts (accountBalances : Balances) (q : Queue) : Balances :=
  q.items.foldl (fun b t => Budget.drainAll t.cost b) accountBalances

/-- The body of `clean_account_stale_expired` (lines 688–708). -/
def cleanStaleExpired [External] [TransactionCodec] (currentAccountNonce : ℕ) (now : Time) (ttl : ℕ)
    (q : Queue) : List (TransactionId × RemovalReason) × Queue :=
  let stale := (q.below currentAccountNonce).items.map fun t => (t.id, RemovalReason.nonceStale)
  let rest := q.atLeast currentAccountNonce
  match rest.items with
  | [] => (stale, rest)
  | first :: others =>
    if first.isExpired now ttl then
      (stale ++ (first.id, .expired) :: others.map fun t => (t.id, .lowerNonceInvalidated), .empty)
    else (stale, rest)

/-- Every transaction with its new cost, where that could be computed. -/
def recost (newCost : Transaction → Except Report Costs) (q : Queue) : Queue :=
  q.map (TimemarkedTransaction.recost newCost) (TimemarkedTransaction.nonce_recost newCost)

/-! ### What it holds -/

/-- The transactions of a queue. -/
def txs (q : Queue) : Multiset Transaction := (q.items.map TimemarkedTransaction.signedTx : List _)

/-- The total cost of some transactions in one asset. -/
def costOf (asset : IbcPrefixed) (l : List TimemarkedTransaction) : ℕ :=
  (l.map fun t => Budget.total asset t.cost).sum

end Queue

/-! ## The transactions of all accounts -/

/-- `PendingTransactions` and `ParkedTransactions` (lines 503–517); the limits of the parked one are
those of its discipline. -/
structure TransactionsContainer (d : Discipline) where
  txs : AList fun _ : AddressBytes => Queue
  txTtl : ℕ

namespace TransactionsContainer

variable {d : Discipline}

def addresses (c : TransactionsContainer d) : List AddressBytes := c.txs.keys

/-- The transactions of an account, none if the account has no entry. -/
def queue (a : AddressBytes) (c : TransactionsContainer d) : Queue :=
  (c.txs.lookup a).getD .empty

def len (c : TransactionsContainer d) : ℕ := AssocSum.sumOf (fun q => q.items.length) c.txs

/-- Puts the transactions of an account back, if there are any. -/
def file (a : AddressBytes) (q : Queue) (c : TransactionsContainer d) : TransactionsContainer d :=
  { c with txs := if q.items.isEmpty then c.txs.erase a else c.txs.insert a q }

/-- Takes the transactions of an account out of the container, if it has an entry, and puts what is
left of them back. -/
def withAccount {β : Type} (a : AddressBytes) (f : Queue → List β × Queue)
    (c : TransactionsContainer d) : List β × TransactionsContainer d :=
  match c.txs.lookup a with
  | none => ([], c)
  | some q => ((f q).1, c.file a (f q).2)

/-- `recost_transactions` (lines 579–605). -/
def recostTransactions (a : AddressBytes) (newCost : Transaction → Except Report Costs)
    (c : TransactionsContainer d) : TransactionsContainer d :=
  match c.txs.lookup a with
  | none => c
  | some q => { c with txs := c.txs.insert a (q.recost newCost) }

/-- `find_demotables` (lines 751–769). -/
def findDemotables (a : AddressBytes) (currentBalances : Balances) (c : TransactionsContainer d) :
    List TimemarkedTransaction × TransactionsContainer d :=
  c.withAccount a (Queue.findDemotables currentBalances)

/-- `find_promotables` (lines 849–868). -/
def findPromotables (a : AddressBytes) (targetNonce : ℕ) (availableBalance : Balances)
    (c : TransactionsContainer d) : List TimemarkedTransaction × TransactionsContainer d :=
  c.withAccount a (Queue.findPromotables targetNonce availableBalance)

/-- `subtract_contained_costs` (lines 773–782). -/
def subtractContainedCosts (a : AddressBytes) (currentBalances : Balances)
    (c : TransactionsContainer d) : Balances :=
  match c.txs.lookup a with
  | none => currentBalances
  | some q => q.subtractContainedCosts currentBalances

/-- `pending_nonce`. -/
def pendingNonce (a : AddressBytes) (c : TransactionsContainer d) : Option ℕ :=
  (c.txs.lookup a).bind Queue.pendingAccountNonce

section

variable [External] [TransactionCodec]

/-- `TransactionsContainer::add` (lines 612–639): an account without an entry starts with an empty
queue. -/
def add (t : TimemarkedTransaction) (currentAccountNonce : ℕ) (currentAccountBalances : Balances)
    (c : TransactionsContainer d) : Except InsertionError (TransactionsContainer d) :=
  match d.checkTotalTxCount c.len with
  | .error e => .error e
  | .ok () =>
    match (c.queue t.address).add d t currentAccountNonce currentAccountBalances with
    | .error e => .error e
    | .ok q => .ok { c with txs := c.txs.insert t.address q }

/-- `TransactionsContainer::remove` (lines 646–666). -/
def remove (signedTx : Transaction) (c : TransactionsContainer d) :
    Except Transaction (List TransactionId) × TransactionsContainer d :=
  let (removed, c) := c.withAccount (signer signedTx) (Queue.remove signedTx.params.nonce)
  (if removed.isEmpty then .error signedTx else .ok removed, c)

/-- `clear_account`. -/
def clearAccount (a : AddressBytes) (c : TransactionsContainer d) :
    List TransactionId × TransactionsContainer d :=
  c.withAccount a fun q => (q.items.map TimemarkedTransaction.id, .empty)

/-- `clean_account_stale_expired` (lines 678–717). -/
def cleanAccountStaleExpired (a : AddressBytes) (currentAccountNonce : ℕ) (now : Time)
    (c : TransactionsContainer d) :
    List (TransactionId × RemovalReason) × TransactionsContainer d :=
  c.withAccount a (Queue.cleanStaleExpired currentAccountNonce now c.txTtl)

end

end TransactionsContainer

/-! ## Costs -/

/-- Whether a balance covers the costs of some transactions. -/
def Affordable (l : List TimemarkedTransaction) (b : Balances) : Prop :=
  ∀ asset, Queue.costOf asset l ≤ b.amount asset

namespace Queue

theorem costOf_nil (asset : IbcPrefixed) : costOf asset [] = 0 := rfl

theorem costOf_cons (asset : IbcPrefixed) (t : TimemarkedTransaction)
    (l : List TimemarkedTransaction) :
    costOf asset (t :: l) = Budget.total asset t.cost + costOf asset l := by
  unfold costOf
  rw [List.map_cons, List.sum_cons]

theorem costOf_append (asset : IbcPrefixed) (l r : List TimemarkedTransaction) :
    costOf asset (l ++ r) = costOf asset l + costOf asset r := by
  unfold costOf
  rw [List.map_append, List.sum_append]

theorem costOf_singleton (asset : IbcPrefixed) (t : TimemarkedTransaction) :
    costOf asset [t] = Budget.total asset t.cost := by
  rw [costOf_cons, costOf_nil, Nat.add_zero]

theorem amount_subtractContainedCosts (b : Balances) (q : Queue) (asset : IbcPrefixed) :
    (q.subtractContainedCosts b).amount asset = b.amount asset - costOf asset q.items := by
  unfold subtractContainedCosts
  generalize q.items = l
  induction l generalizing b with
  | nil => rfl
  | cons t l ih =>
    rw [List.foldl_cons, ih, Budget.amount_drainAll, costOf_cons]
    omega

end Queue

theorem Affordable.left {l r : List TimemarkedTransaction} {b : Balances}
    (h : Affordable (l ++ r) b) : Affordable l b := by
  intro asset
  have := h asset
  rw [Queue.costOf_append] at this
  omega

theorem TimemarkedTransaction.deductCosts_eq_ok {t : TimemarkedTransaction} {b b' : Balances}
    (h : t.deductCosts b = .ok b') (asset : IbcPrefixed) :
    Budget.total asset t.cost ≤ b.amount asset ∧
      b'.amount asset = b.amount asset - Budget.total asset t.cost := by
  unfold deductCosts at h
  cases hs : Budget.spendAll t.cost b with
  | ok b₁ =>
    rw [hs] at h
    obtain rfl := Except.ok.inj h
    exact Budget.spendAll_eq_ok hs asset
  | error e =>
    rw [hs] at h
    cases e <;> cases h

theorem TimemarkedTransaction.exists_deductCosts_iff {t : TimemarkedTransaction} {b : Balances} :
    (∃ b', t.deductCosts b = .ok b') ↔ ∀ asset, Budget.total asset t.cost ≤ b.amount asset := by
  constructor
  · rintro ⟨b', h⟩ asset
    exact (deductCosts_eq_ok h asset).1
  · intro h
    obtain ⟨b', hb⟩ := Budget.exists_spendAll_iff.mpr h
    refine ⟨b', ?_⟩
    unfold deductCosts
    rw [hb]

/-- After a first transaction is paid for, the others are affordable exactly if all are. -/
theorem affordable_cons_iff {t : TimemarkedTransaction} {l : List TimemarkedTransaction}
    {b b' : Balances} (h : t.deductCosts b = .ok b') :
    Affordable (t :: l) b ↔ Affordable l b' := by
  unfold Affordable
  refine forall_congr' ?_
  intro asset
  obtain ⟨hle, hb⟩ := t.deductCosts_eq_ok h asset
  rw [Queue.costOf_cons, hb]
  omega

namespace Discipline

theorem exists_deductAll_iff {l : List TimemarkedTransaction} {b : Balances} :
    (∃ b', deductAll l b = .ok b') ↔ Affordable l b := by
  induction l generalizing b with
  | nil =>
    refine ⟨fun _ asset => Nat.zero_le _, fun _ => ⟨b, rfl⟩⟩
  | cons t l ih =>
    rw [deductAll]
    cases hd : t.deductCosts b with
    | ok b₁ =>
      rw [affordable_cons_iff hd, ← ih]
    | error e =>
      constructor
      · rintro ⟨b', h⟩
        cases h
      · intro h
        have hfirst : ∃ b', t.deductCosts b = .ok b' := by
          rw [TimemarkedTransaction.exists_deductCosts_iff]
          intro asset
          have := h asset
          rw [Queue.costOf_cons] at this
          omega
        rw [hd] at hfirst
        obtain ⟨b', h⟩ := hfirst
        cases h

theorem hasBalanceToCover_pending {q : Queue} {t : TimemarkedTransaction} {b : Balances} :
    hasBalanceToCover .pending q t b = true ↔ Affordable (q.items ++ [t]) b := by
  rw [← exists_deductAll_iff]
  show (deductAll (q.items ++ [t]) b).isOk = true ↔ _
  cases deductAll (q.items ++ [t]) b with
  | ok b' => exact ⟨fun _ => ⟨b', rfl⟩, fun _ => rfl⟩
  | error e =>
    refine ⟨fun h => absurd h Bool.false_ne_true, ?_⟩
    rintro ⟨b', h⟩
    cases h

theorem isSequentialNoncePreconditionMet_pending {q : Queue} {t : TimemarkedTransaction} {n : ℕ}
    (h : isSequentialNoncePreconditionMet .pending q t n = true) :
    t.nonce = n ∨ ∃ s ∈ q.items, s.nonce + 1 = t.nonce := by
  unfold isSequentialNoncePreconditionMet checkedSub at h
  dsimp only at h
  split_ifs at h with hpos
  · rw [Bool.or_eq_true, decide_eq_true_iff] at h
    rcases h with h | h
    · obtain ⟨s, hs⟩ := Option.isSome_iff_exists.mp h
      obtain ⟨hmem, hnonce⟩ := KeyedQueue.mem_of_get hs
      exact Or.inr ⟨s, hmem, by omega⟩
    · exact Or.inl h
  · left
    have := of_decide_eq_true h
    omega

theorem isSequentialNoncePreconditionMet_of {q : Queue} {t : TimemarkedTransaction} {n : ℕ}
    (h : t.nonce = n ∨ ∃ s ∈ q.items, s.nonce + 1 = t.nonce) :
    isSequentialNoncePreconditionMet .pending q t n = true := by
  unfold isSequentialNoncePreconditionMet checkedSub
  dsimp only
  by_cases hpos : 1 ≤ t.nonce
  · rw [if_pos hpos]
    dsimp only
    rw [Bool.or_eq_true, decide_eq_true_iff]
    rcases h with h | ⟨s, hs, hnonce⟩
    · exact Or.inr h
    · left
      cases hget : q.get (t.nonce - 1) with
      | some existing => rfl
      | none => exact absurd (by omega) (KeyedQueue.get_eq_none_iff.mp hget s hs)
  · rw [if_neg hpos]
    refine decide_eq_true ?_
    rcases h with h | ⟨s, -, hnonce⟩ <;> omega

end Discipline

/-! ## The queues of one account -/

namespace Queue

@[simp] theorem txs_empty : txs .empty = 0 := rfl

theorem txs_eq_add {q q' : Queue} {l : List TimemarkedTransaction}
    (h : q.items = q'.items ++ l ∨ q.items = l ++ q'.items) :
    q.txs = q'.txs + (l.map TimemarkedTransaction.signedTx : List _) := by
  unfold txs
  rcases h with h | h
  · rw [h, List.map_append, ← Multiset.coe_add]
  · rw [h, List.map_append, ← Multiset.coe_add, add_comm]

theorem txs_insert {q : Queue} {t : TimemarkedTransaction} (h : q.get t.nonce = none) :
    Queue.txs (q.insert t) = q.txs + {t.signedTx} := by
  unfold txs
  rw [Multiset.coe_eq_coe.mpr ((KeyedQueue.perm_insert h).map _), List.map_cons,
    ← Multiset.cons_coe, ← Multiset.singleton_add, add_comm]

theorem add_eq_ok [External] [TransactionCodec] {d : Discipline} {t : TimemarkedTransaction} {n : ℕ}
    {b : Balances} {q q' : Queue} :
    q.add d t n b = .ok q' ↔
      d.isAtTxLimit q = false ∧ n ≤ t.nonce ∧ q.get t.nonce = none ∧
        d.isSequentialNoncePreconditionMet q t n = true ∧ d.hasBalanceToCover q t b = true ∧
          q' = q.insert t := by
  unfold add
  cases hlimit : d.isAtTxLimit q with
  | true => simp
  | false =>
    rw [if_neg Bool.false_ne_true]
    by_cases hn : t.nonce < n
    · rw [if_pos hn]
      simp [Nat.not_le.mpr hn]
    · rw [if_neg hn]
      cases hget : q.get t.nonce with
      | some existing => simp
      | none =>
        dsimp only
        split_ifs with hseq hbal
        · simp [Nat.not_lt.mp hn, hseq, hbal, eq_comm]
        · simp [hbal]
        · simp [hseq]

/-- A gap and a low balance are looked for last: the nonce is free. -/
theorem get_eq_none_of_add_error [External] [TransactionCodec] {d : Discipline}
    {t : TimemarkedTransaction} {n : ℕ} {b : Balances} {q : Queue} {e : InsertionError}
    (h : q.add d t n b = .error e) (he : e = .nonceGap ∨ e = .accountBalanceTooLow) :
    q.get t.nonce = none := by
  unfold add at h
  cases hget : q.get t.nonce with
  | none => rfl
  | some existing =>
    rw [hget] at h
    dsimp only at h
    split_ifs at h <;> (obtain rfl := Except.error.inj h; rcases he with he | he <;> cases he)

/-- The loop stops after an affordable front of the queue. -/
theorem demotionSplit_spec (l : List TimemarkedTransaction) (b : Balances) (splitAt : ℕ) :
    ∃ front rest, l = front ++ rest ∧ Affordable front b ∧
      (front = [] ∧ demotionSplit l b splitAt = splitAt ∨
        ∃ init t, front = init ++ [t] ∧
          demotionSplit l b splitAt = saturatingAdd u32Max t.nonce 1) := by
  induction l generalizing b splitAt with
  | nil => exact ⟨[], [], rfl, fun _ => Nat.zero_le _, Or.inl ⟨rfl, rfl⟩⟩
  | cons t l ih =>
    rw [demotionSplit]
    cases hd : t.deductCosts b with
    | error e => exact ⟨[], t :: l, rfl, fun _ => Nat.zero_le _, Or.inl ⟨rfl, rfl⟩⟩
    | ok b₁ =>
      obtain ⟨front, rest, rfl, hafford, hsplit⟩ := ih b₁ (saturatingAdd u32Max t.nonce 1)
      refine ⟨t :: front, rest, rfl, (affordable_cons_iff hd).mpr hafford, Or.inr ?_⟩
      rcases hsplit with ⟨rfl, h⟩ | ⟨init, s, rfl, h⟩
      · exact ⟨[], t, rfl, h⟩
      · exact ⟨t :: init, s, rfl, h⟩

/-- The demoted transactions are the end of the queue, and what stays is affordable.  If none is
demoted, the last nonce has a successor. -/
theorem findDemotables_spec (b : Balances) (q : Queue) :
    q.items = (q.findDemotables b).2.items ++ (q.findDemotables b).1 ∧
      Affordable (q.findDemotables b).2.items b ∧
        ((q.findDemotables b).1 = [] → ∀ t ∈ q.items, t.nonce < u32Max) := by
  obtain ⟨front, rest, hitems, hafford, hsplit⟩ := demotionSplit_spec q.items b 0
  unfold findDemotables
  dsimp only
  generalize demotionSplit q.items b 0 = splitAt at hsplit ⊢
  have happend := (KeyedQueue.below_append_atLeast splitAt q).symm
  refine ⟨happend, ?_, ?_⟩
  · rcases hsplit with ⟨-, h⟩ | ⟨init, t, rfl, h⟩
    · -- nothing is below the initial split
      have hnil : (q.below splitAt).items = [] := by
        rw [h]
        exact List.filter_eq_nil_iff.mpr fun t _ => by simp
      rw [hnil]
      exact fun _ => Nat.zero_le _
    · have hasc := q.ascending
      rw [hitems, List.pairwise_append] at hasc
      -- the rest of the queue is not below the split
      have hrest : rest.filter (fun s => s.nonce < splitAt) = [] := by
        rw [List.filter_eq_nil_iff]
        intro s hs
        have hlt : t.nonce < s.nonce := hasc.2.2 t (by simp) s hs
        rw [h]
        unfold saturatingAdd
        simp only [decide_eq_true_eq]
        omega
      have hbelow : (q.below splitAt).items =
          (init ++ [t]).filter fun s => s.nonce < splitAt := by
        show q.items.filter _ = _
        rw [hitems, List.filter_append, hrest, List.append_nil]
      rw [hbelow]
      intro asset
      refine le_trans ?_ (hafford asset)
      unfold costOf
      exact List.Sublist.sum_le_sum (List.filter_sublist.map _) fun _ _ => Nat.zero_le _
  · intro hnone t ht
    have hlt : t.nonce < splitAt := by
      rw [happend, hnone, List.append_nil] at ht
      exact (KeyedQueue.mem_below.mp ht).2
    rcases hsplit with ⟨-, h⟩ | ⟨init, s, -, h⟩
    · rw [h] at hlt
      exact absurd hlt (Nat.not_lt_zero _)
    · rw [h] at hlt
      exact lt_of_lt_of_le hlt (saturatingAdd_le _ _ _)

/-- The loop stops after a front of the queue that is contiguous from the target and affordable, at its
end or at a transaction that does not follow or is not affordable beside the front. -/
theorem promotionSplit_spec {l : List TimemarkedTransaction}
    (hl : l.Pairwise fun s t => s.nonce < t.nonce) (target : ℕ) (b : Balances) (splitAt : ℕ) :
    ∃ front rest, l = front ++ rest ∧
      front.map TimemarkedTransaction.nonce = List.range' target front.length ∧ Affordable front b ∧
        (promotionSplit l target b splitAt = none ∧ rest = [] ∨
          front = [] ∧ promotionSplit l target b splitAt = some splitAt ∨
            front ≠ [] ∧ promotionSplit l target b splitAt = some (target + front.length)) ∧
        ∀ t ∈ rest.head?, t.nonce = target + front.length → ¬Affordable (front ++ [t]) b := by
  induction l generalizing target b splitAt with
  | nil =>
    exact ⟨[], [], rfl, rfl, fun _ => Nat.zero_le _, Or.inr (Or.inl ⟨rfl, rfl⟩),
      fun _ ht => nomatch ht⟩
  | cons t l ih =>
    rw [promotionSplit]
    by_cases hne : t.nonce ≠ target
    · rw [if_pos hne]
      refine ⟨[], t :: l, rfl, rfl, fun _ => Nat.zero_le _, Or.inr (Or.inl ⟨rfl, rfl⟩), ?_⟩
      intro s hs hnonce
      obtain rfl : t = s := Option.some.inj hs
      exact absurd hnonce hne
    rw [if_neg hne]
    cases hd : t.deductCosts b with
    | error e =>
      refine ⟨[], t :: l, rfl, rfl, fun _ => Nat.zero_le _, Or.inr (Or.inl ⟨rfl, rfl⟩), ?_⟩
      intro s hs _ hafford
      obtain rfl : t = s := Option.some.inj hs
      obtain ⟨b', hb⟩ := TimemarkedTransaction.exists_deductCosts_iff.mpr fun asset => by
        have hcovered := hafford asset
        rwa [List.nil_append, costOf_singleton] at hcovered
      rw [hb] at hd
      cases hd
    | ok b₁ =>
      dsimp only
      cases hnext : checkedAdd u32Max target 1 with
      | none =>
        -- no nonce is above the greatest one
        have hmax := checkedAdd_eq_none.mp hnext
        have hl' : l = [] := by
          refine List.eq_nil_iff_forall_not_mem.mpr ?_
          intro s hs
          have hlt : t.nonce < s.nonce := List.rel_of_pairwise_cons hl hs
          have hle : s.nonce ≤ u32Max := s.nonce_le
          omega
        subst hl'
        refine ⟨[t], [], rfl, ?_, (affordable_cons_iff hd).mpr fun _ => Nat.zero_le _,
          Or.inl ⟨rfl, rfl⟩, fun _ ht => nomatch ht⟩
        rw [List.map_singleton, List.length_singleton, List.range'_one, not_not.mp hne]
      | some next =>
        obtain ⟨rfl, -⟩ := checkedAdd_eq_some.mp hnext
        obtain ⟨front, rest, rfl, hrange, hafford, hsplit, hstop⟩ :=
          ih (List.Pairwise.of_cons hl) (target + 1) b₁ (target + 1)
        refine ⟨t :: front, rest, rfl, ?_, (affordable_cons_iff hd).mpr hafford, ?_, ?_⟩
        · rw [List.map_cons, List.length_cons, List.range'_succ, hrange, not_not.mp hne]
        · rcases hsplit with ⟨h, hrest⟩ | ⟨rfl, h⟩ | ⟨-, h⟩
          · exact Or.inl ⟨h, hrest⟩
          · exact Or.inr (Or.inr ⟨List.cons_ne_nil _ _, h⟩)
          · refine Or.inr (Or.inr ⟨List.cons_ne_nil _ _, h.trans ?_⟩)
            rw [List.length_cons]
            congr 1
            omega
        · intro s hs hnonce
          rw [List.length_cons] at hnonce
          rw [List.cons_append, affordable_cons_iff hd]
          exact hstop s hs (by omega)

/-- The promoted transactions are the front of the queue, contiguous from the target and affordable, and
the next one does not follow them or is not affordable beside them. -/
theorem findPromotables_front (target : ℕ) (b : Balances) (q : Queue) :
    q.items = (q.findPromotables target b).1 ++ (q.findPromotables target b).2.items ∧
      (q.findPromotables target b).1.map TimemarkedTransaction.nonce =
          List.range' target (q.findPromotables target b).1.length ∧
        Affordable (q.findPromotables target b).1 b ∧
          ∀ t ∈ (q.findPromotables target b).2.items.head?,
            t.nonce = target + (q.findPromotables target b).1.length →
              ¬Affordable ((q.findPromotables target b).1 ++ [t]) b := by
  obtain ⟨front, rest, hitems, hrange, hafford, hsplit, hstop⟩ :=
    promotionSplit_spec q.ascending target b 0
  -- wherever the loop stops, the front is what is returned
  have hfront : (q.findPromotables target b).1 = front ∧
      (q.findPromotables target b).2.items = rest := by
    unfold findPromotables
    rcases hsplit with ⟨h, rfl⟩ | ⟨rfl, h⟩ | ⟨hne, h⟩
    · rw [h, hitems, List.append_nil]
      exact ⟨rfl, rfl⟩
    · rw [h]
      exact KeyedQueue.cut hitems (fun _ ht => absurd ht List.not_mem_nil)
        fun _ _ => Nat.zero_le _
    · rw [h]
      have hmem : ∀ n, n ∈ front.map TimemarkedTransaction.nonce ↔
          target ≤ n ∧ n < target + front.length := by
        intro n
        rw [hrange, List.mem_range'_1]
      refine KeyedQueue.cut hitems ?_ ?_
      · intro t ht
        exact ((hmem _).mp (List.mem_map_of_mem ht)).2
      · -- the last promoted nonce is below all that stay
        intro t ht
        have hpos := List.length_pos_iff.mpr hne
        obtain ⟨s, hs, hnonce⟩ := List.mem_map.mp
          ((hmem (target + front.length - 1)).mpr ⟨by omega, by omega⟩)
        have hasc := q.ascending
        rw [hitems, List.pairwise_append] at hasc
        have hlt : s.nonce < t.nonce := hasc.2.2 s hs t ht
        omega
  rw [hfront.1, hfront.2]
  exact ⟨hitems, hrange, hafford, hstop⟩

theorem findPromotables_spec (target : ℕ) (b : Balances) (q : Queue) :
    q.items = (q.findPromotables target b).1 ++ (q.findPromotables target b).2.items ∧
      (q.findPromotables target b).1.map TimemarkedTransaction.nonce =
          List.range' target (q.findPromotables target b).1.length ∧
        Affordable (q.findPromotables target b).1 b := by
  obtain ⟨hitems, hrange, hafford, -⟩ := q.findPromotables_front target b
  exact ⟨hitems, hrange, hafford⟩

theorem txs_recost (newCost : Transaction → Except Report Costs) (q : Queue) :
    (q.recost newCost).txs = q.txs := by
  unfold txs recost KeyedQueue.map
  dsimp only
  rw [List.map_map]
  congr 2
  funext t
  exact t.signedTx_recost newCost

theorem exists_nonce_recost {newCost : Transaction → Except Report Costs} {q : Queue} {n : ℕ} :
    (∃ t ∈ (q.recost newCost).items, t.nonce = n) ↔ ∃ t ∈ q.items, t.nonce = n := by
  unfold recost KeyedQueue.map
  simp only [List.mem_map, exists_exists_and_eq_and, TimemarkedTransaction.nonce_recost]

section

variable [External] [TransactionCodec]

/-- What cleaning takes out, and that it leaves the queue from the account's nonce on, or nothing. -/
theorem cleanStaleExpired_spec (n : ℕ) (now : Time) (ttl : ℕ) (q : Queue) :
    ∃ out : List TimemarkedTransaction,
      (q.cleanStaleExpired n now ttl).1.map (·.1) = out.map TimemarkedTransaction.id ∧
        q.items = out ++ (q.cleanStaleExpired n now ttl).2.items ∧
          ((q.cleanStaleExpired n now ttl).2 = q.atLeast n ∨
            (q.cleanStaleExpired n now ttl).2 = .empty) := by
  have happend := (KeyedQueue.below_append_atLeast n q).symm
  unfold cleanStaleExpired
  dsimp only
  have hstale : ((q.below n).items.map fun t => (t.id, RemovalReason.nonceStale)).map (·.1) =
      (q.below n).items.map TimemarkedTransaction.id := by
    rw [List.map_map]
    rfl
  cases hrest : (q.atLeast n).items with
  | nil =>
    exact ⟨(q.below n).items, hstale, happend, Or.inl rfl⟩
  | cons first others =>
    dsimp only
    split_ifs
    · refine ⟨(q.below n).items ++ first :: others, ?_, ?_, Or.inr rfl⟩
      · rw [List.map_append, hstale, List.map_append, List.map_cons, List.map_cons, List.map_map]
        rfl
      · rw [KeyedQueue.items_empty, List.append_nil, ← hrest]
        exact happend
    · exact ⟨(q.below n).items, hstale, happend, Or.inl rfl⟩

/-- A queue after its stale transactions, or all of them, were taken out: the others keep their order
and their nonces, which are not below the account's, and each other's predecessors. -/
structure Cleaned (n : ℕ) (q : Queue) (out : List TimemarkedTransaction) (q' : Queue) : Prop where
  txs : q.txs = q'.txs + (out.map TimemarkedTransaction.signedTx : List _)
  le_nonce : ∀ t ∈ q'.items, n ≤ t.nonce
  mem : ∀ t ∈ q'.items, ∃ s ∈ q.items, s.signedTx = t.signedTx
  pred : ∀ s ∈ q.items, ∀ t ∈ q'.items, s.nonce + 1 = t.nonce → n ≤ s.nonce →
    ∃ s' ∈ q'.items, s'.nonce = s.nonce

theorem cleaned_cleanStaleExpired (n : ℕ) (now : Time) (ttl : ℕ) (q : Queue) :
    ∃ out : List TimemarkedTransaction,
      (q.cleanStaleExpired n now ttl).1.map (·.1) = out.map TimemarkedTransaction.id ∧
        Cleaned n q out (q.cleanStaleExpired n now ttl).2 := by
  obtain ⟨out, hout, hitems, hq⟩ := q.cleanStaleExpired_spec n now ttl
  have htxs := txs_eq_add (Or.inr hitems)
  refine ⟨out, hout, ?_⟩
  rcases hq with hq | hq
  · rw [hq] at htxs ⊢
    refine ⟨htxs, ?_, ?_, ?_⟩
    · intro t ht
      exact (KeyedQueue.mem_atLeast.mp ht).2
    · intro t ht
      exact ⟨t, (KeyedQueue.mem_atLeast.mp ht).1, rfl⟩
    · intro s hs t _ _ hn
      exact ⟨s, KeyedQueue.mem_atLeast.mpr ⟨hs, hn⟩, rfl⟩
  · rw [hq] at htxs ⊢
    exact ⟨htxs, fun t ht => absurd ht List.not_mem_nil, fun t ht => absurd ht List.not_mem_nil,
      fun s _ t ht => absurd ht List.not_mem_nil⟩

omit [External] [TransactionCodec] in
theorem Cleaned.recost {n : ℕ} {q q' : Queue} {out : List TimemarkedTransaction}
    (h : Cleaned n q out q') (newCost : Transaction → Except Report Costs) :
    Cleaned n q out (q'.recost newCost) := by
  have hmem : ∀ t ∈ (q'.recost newCost).items, ∃ s ∈ q'.items, s.recost newCost = t := by
    intro t ht
    exact List.mem_map.mp ht
  refine ⟨?_, ?_, ?_, ?_⟩
  · rw [txs_recost]
    exact h.txs
  · intro t ht
    obtain ⟨s, hs, rfl⟩ := hmem t ht
    rw [s.nonce_recost]
    exact h.le_nonce s hs
  · intro t ht
    obtain ⟨s, hs, rfl⟩ := hmem t ht
    rw [s.signedTx_recost]
    exact h.mem s hs
  · intro s hs t ht hnonce hn
    obtain ⟨t', ht', rfl⟩ := hmem t ht
    rw [t'.nonce_recost] at hnonce
    exact exists_nonce_recost.mpr (h.pred s hs t' ht' hnonce hn)

/-- What a removal takes out. -/
theorem remove_spec (n : ℕ) (q : Queue) :
    ∃ out : List TimemarkedTransaction, (q.remove n).1 = out.map TimemarkedTransaction.id ∧
      q.items = (q.remove n).2.items ++ out ∧
        ((q.remove n).2 = q.below n ∨ (q.remove n).2 = q) := by
  unfold remove
  cases q.get n with
  | none => exact ⟨[], rfl, (List.append_nil _).symm, Or.inr rfl⟩
  | some t =>
    exact ⟨(q.atLeast n).items, rfl, (KeyedQueue.below_append_atLeast n q).symm, Or.inl rfl⟩

/-- No transaction with the nonce is left. -/
theorem nonce_ne_of_mem_remove {n : ℕ} {q : Queue} {t : TimemarkedTransaction}
    (ht : t ∈ (q.remove n).2.items) : t.nonce ≠ n := by
  unfold remove at ht
  cases hget : q.get n with
  | none =>
    rw [hget] at ht
    exact KeyedQueue.get_eq_none_iff.mp hget t ht
  | some s =>
    rw [hget] at ht
    exact ne_of_lt (KeyedQueue.mem_below.mp ht).2

end

end Queue

/-! ## The containers -/

namespace TransactionsContainer

variable {d : Discipline}

/-- The transactions of a container. -/
def held (c : TransactionsContainer d) : Multiset Transaction := AssocSum.sumOf Queue.txs c.txs

/-- A container after the queue of one account was replaced: the other queues stay. -/
structure Refiled (a : AddressBytes) (q : Queue) (c c' : TransactionsContainer d) : Prop where
  queue : ∀ b, c'.queue b = if b = a then q else c.queue b
  held : c'.held + (c.queue a).txs = c.held + q.txs
  txTtl : c'.txTtl = c.txTtl

theorem quantityAt_txs (a : AddressBytes) (c : TransactionsContainer d) :
    AssocSum.quantityAt Queue.txs a c.txs = (c.queue a).txs := by
  unfold AssocSum.quantityAt queue
  cases c.txs.lookup a <;> rfl

theorem len_eq_card (c : TransactionsContainer d) : c.len = c.held.card := by
  unfold len held AssocSum.sumOf
  show _ = Multiset.cardHom _
  rw [map_list_sum, List.map_map]
  congr 2
  funext e
  show _ = Multiset.card (Queue.txs e.2)
  unfold Queue.txs
  rw [Multiset.coe_card, List.length_map]

namespace Refiled

variable {a : AddressBytes} {q q' : Queue} {c c' c'' : TransactionsContainer d}

theorem refl (a : AddressBytes) (c : TransactionsContainer d) : Refiled a (c.queue a) c c where
  queue b := by
    split_ifs with h
    · rw [h]
    · rfl
  held := rfl
  txTtl := rfl

theorem queue_self (h : Refiled a q c c') : c'.queue a = q := by
  rw [h.queue, if_pos rfl]

theorem queue_of_ne (h : Refiled a q c c') {b : AddressBytes} (hb : b ≠ a) :
    c'.queue b = c.queue b := by
  rw [h.queue, if_neg hb]

theorem trans (h : Refiled a q c c') (h' : Refiled a q' c' c'') : Refiled a q' c c'' where
  queue b := by
    rw [h'.queue, h.queue]
    split_ifs <;> rfl
  held := by
    have hc := h'.held
    rw [h.queue_self] at hc
    refine add_right_cancel (b := q.txs) ?_
    calc c''.held + (c.queue a).txs + q.txs
        = c''.held + q.txs + (c.queue a).txs := by rw [add_right_comm]
      _ = c'.held + (c.queue a).txs + q'.txs := by rw [hc, add_right_comm]
      _ = c.held + q'.txs + q.txs := by rw [h.held, add_right_comm]
  txTtl := h'.txTtl.trans h.txTtl

/-- If the new queue is the old one without some transactions, then so is the container. -/
theorem held_add (h : Refiled a q c c') {s : Multiset Transaction}
    (hq : (c.queue a).txs = q.txs + s) : c'.held + s = c.held := by
  have hheld := h.held
  rw [hq, add_comm q.txs, ← add_assoc] at hheld
  exact add_right_cancel hheld

/-- If the new queue is the old one with some transactions, then so is the container. -/
theorem held_of_add (h : Refiled a q c c') {s : Multiset Transaction}
    (hq : q.txs = (c.queue a).txs + s) : c'.held = c.held + s := by
  have hheld := h.held
  rw [hq, add_comm (c.queue a).txs, ← add_assoc] at hheld
  exact add_right_cancel hheld

end Refiled

theorem refiled_insert (a : AddressBytes) (q : Queue) (c : TransactionsContainer d) :
    Refiled a q c { c with txs := c.txs.insert a q } where
  queue b := by
    unfold queue
    dsimp only
    by_cases h : b = a
    · rw [if_pos h, h, AList.lookup_insert, Option.getD_some]
    · rw [if_neg h, AList.lookup_insert_ne h]
  held := by
    rw [← quantityAt_txs]
    exact AssocSum.sumOf_insert _ _ _ _
  txTtl := rfl

theorem refiled_file (a : AddressBytes) (q : Queue) (c : TransactionsContainer d) :
    Refiled a q c (c.file a q) := by
  unfold file
  cases hq : q.items with
  | cons t l => exact refiled_insert a q c
  | nil =>
    obtain rfl : q = .empty := KeyedQueue.ext hq
    rw [List.isEmpty_nil, if_pos rfl]
    refine ⟨?_, ?_, rfl⟩
    · intro b
      unfold queue
      dsimp only
      by_cases h : b = a
      · rw [if_pos h, h, AList.lookup_erase, Option.getD_none]
      · rw [if_neg h, AList.lookup_erase_ne h]
    · rw [← quantityAt_txs, Queue.txs_empty, add_zero]
      exact AssocSum.sumOf_erase _ _ _

theorem withAccount_spec {β : Type} {f : Queue → List β × Queue} (hf : f .empty = ([], .empty))
    (a : AddressBytes) (c : TransactionsContainer d) :
    (c.withAccount a f).1 = (f (c.queue a)).1 ∧
      Refiled a (f (c.queue a)).2 c (c.withAccount a f).2 := by
  unfold withAccount
  cases h : c.txs.lookup a with
  | none =>
    have hq : c.queue a = .empty := by
      unfold queue
      rw [h, Option.getD_none]
    refine ⟨by rw [hq, hf], ?_⟩
    have hrefl := Refiled.refl a c
    rw [hq] at hrefl ⊢
    rwa [hf]
  | some q =>
    have hq : c.queue a = q := by
      unfold queue
      rw [h, Option.getD_some]
    rw [hq]
    exact ⟨rfl, refiled_file a _ c⟩

theorem recostTransactions_refiled (a : AddressBytes)
    (newCost : Transaction → Except Report Costs) (c : TransactionsContainer d) :
    Refiled a ((c.queue a).recost newCost) c (c.recostTransactions a newCost) := by
  unfold recostTransactions
  cases h : c.txs.lookup a with
  | none =>
    have hq : c.queue a = .empty := by
      unfold queue
      rw [h, Option.getD_none]
    have hrefl := Refiled.refl a c
    rw [hq] at hrefl ⊢
    exact hrefl
  | some q =>
    have hq : c.queue a = q := by
      unfold queue
      rw [h, Option.getD_some]
    rw [hq]
    exact refiled_insert a _ c

theorem findDemotables_refiled (a : AddressBytes) (b : Balances) (c : TransactionsContainer d) :
    (c.findDemotables a b).1 = ((c.queue a).findDemotables b).1 ∧
      Refiled a ((c.queue a).findDemotables b).2 c (c.findDemotables a b).2 :=
  withAccount_spec (f := Queue.findDemotables b) rfl a c

theorem findPromotables_refiled (a : AddressBytes) (target : ℕ) (b : Balances)
    (c : TransactionsContainer d) :
    (c.findPromotables a target b).1 = ((c.queue a).findPromotables target b).1 ∧
      Refiled a ((c.queue a).findPromotables target b).2 c (c.findPromotables a target b).2 :=
  withAccount_spec (f := Queue.findPromotables target b) rfl a c

/-- An account without an entry has no transactions. -/
theorem queue_of_notMem {a : AddressBytes} {c : TransactionsContainer d} (h : a ∉ c.addresses) :
    c.queue a = .empty := by
  have hnone : c.txs.lookup a = none := by
    rw [AList.lookup_eq_none]
    intro hmem
    exact h (AList.mem_keys.mp hmem)
  unfold queue
  rw [hnone, Option.getD_none]

theorem subtractContainedCosts_eq (a : AddressBytes) (b : Balances) (c : TransactionsContainer d) :
    c.subtractContainedCosts a b = (c.queue a).subtractContainedCosts b := by
  unfold subtractContainedCosts queue
  cases c.txs.lookup a <;> rfl

theorem amount_subtractContainedCosts (a : AddressBytes) (b : Balances)
    (c : TransactionsContainer d) (asset : IbcPrefixed) :
    (c.subtractContainedCosts a b).amount asset =
      b.amount asset - Queue.costOf asset (c.queue a).items := by
  rw [subtractContainedCosts_eq]
  exact (c.queue a).amount_subtractContainedCosts b asset

theorem pendingNonce_eq (a : AddressBytes) (c : TransactionsContainer d) :
    c.pendingNonce a = (c.queue a).pendingAccountNonce := by
  unfold pendingNonce queue
  cases c.txs.lookup a <;> rfl

section

variable [External] [TransactionCodec]

theorem cleanAccountStaleExpired_refiled (a : AddressBytes) (n : ℕ) (now : Time)
    (c : TransactionsContainer d) :
    (c.cleanAccountStaleExpired a n now).1 = ((c.queue a).cleanStaleExpired n now c.txTtl).1 ∧
      Refiled a ((c.queue a).cleanStaleExpired n now c.txTtl).2 c
        (c.cleanAccountStaleExpired a n now).2 :=
  withAccount_spec (f := Queue.cleanStaleExpired n now c.txTtl) rfl a c

/-- Cleaning one account, with or without new costs. -/
theorem clean_spec (newCost : Transaction → Except Report Costs) (recost : Bool) (a : AddressBytes)
    (n : ℕ) (now : Time) (c : TransactionsContainer d) :
    ∃ (c' : TransactionsContainer d) (q : Queue) (out : List TimemarkedTransaction),
      Queue.Cleaned n (c.queue a) out q ∧ Refiled a q c c' ∧
        (c.cleanAccountStaleExpired a n now).1.map (·.1) = out.map TimemarkedTransaction.id ∧
        (if recost then (c.cleanAccountStaleExpired a n now).2.recostTransactions a newCost
          else (c.cleanAccountStaleExpired a n now).2) = c' := by
  obtain ⟨hremoved, hrefiled⟩ := cleanAccountStaleExpired_refiled a n now c
  obtain ⟨out, hout, hcleaned⟩ := (c.queue a).cleaned_cleanStaleExpired n now c.txTtl
  rw [← hremoved] at hout
  cases recost with
  | false => exact ⟨_, _, out, hcleaned, hrefiled, hout, rfl⟩
  | true =>
    have hrecost := recostTransactions_refiled a newCost (c.cleanAccountStaleExpired a n now).2
    rw [hrefiled.queue_self] at hrecost
    exact ⟨_, _, out, hcleaned.recost newCost, hrefiled.trans hrecost, hout, rfl⟩

theorem add_eq_ok {t : TimemarkedTransaction} {n : ℕ} {b : Balances}
    {c c' : TransactionsContainer d} :
    c.add t n b = .ok c' ↔
      d.checkTotalTxCount c.len = .ok () ∧ ∃ q, (c.queue t.address).add d t n b = .ok q ∧
        c' = { c with txs := c.txs.insert t.address q } := by
  unfold add
  cases d.checkTotalTxCount c.len with
  | error e => simp
  | ok u =>
    dsimp only
    cases (c.queue t.address).add d t n b with
    | error e => simp
    | ok q => simp [eq_comm]

theorem get_eq_none_of_add_error {t : TimemarkedTransaction} {n : ℕ} {b : Balances}
    {c : TransactionsContainer .pending} {e : InsertionError} (h : c.add t n b = .error e)
    (he : e = .nonceGap ∨ e = .accountBalanceTooLow) :
    (c.queue t.address).get t.nonce = none := by
  unfold add Discipline.checkTotalTxCount at h
  dsimp only at h
  cases hq : (c.queue t.address).add .pending t n b with
  | ok q =>
    rw [hq] at h
    cases h
  | error e' =>
    rw [hq] at h
    obtain rfl := Except.error.inj h
    exact Queue.get_eq_none_of_add_error hq he

/-- A transaction that is added is put in its account's queue, at a nonce that was free. -/
theorem refiled_of_add {t : TimemarkedTransaction} {n : ℕ} {b : Balances}
    {c c' : TransactionsContainer d} (h : c.add t n b = .ok c') :
    (c.queue t.address).get t.nonce = none ∧
      Refiled t.address ((c.queue t.address).insert t) c c' ∧ c'.held = c.held + {t.signedTx} := by
  obtain ⟨-, q, hq, rfl⟩ := add_eq_ok.mp h
  obtain ⟨-, -, hget, -, -, rfl⟩ := Queue.add_eq_ok.mp hq
  have hrefiled := refiled_insert t.address ((c.queue t.address).insert t) c
  exact ⟨hget, hrefiled, hrefiled.held_of_add (Queue.txs_insert hget)⟩

/-- A removal takes the end of the queue off, or nothing, which it reports as an error. -/
theorem remove_refiled (tx : Transaction) (c : TransactionsContainer d) :
    ∃ (q : Queue) (out : List TimemarkedTransaction),
      Refiled (signer tx) q c (c.remove tx).2 ∧
        (c.queue (signer tx)).items = q.items ++ out ∧
        (q = (c.queue (signer tx)).below tx.params.nonce ∨ q = c.queue (signer tx)) ∧
        (c.remove tx).1 =
          if out = [] then .error tx else .ok (out.map TimemarkedTransaction.id) := by
  obtain ⟨hremoved, hrefiled⟩ :=
    withAccount_spec (f := Queue.remove tx.params.nonce) rfl (signer tx) c
  obtain ⟨out, hout, hitems, hq⟩ := Queue.remove_spec tx.params.nonce (c.queue (signer tx))
  refine ⟨_, out, hrefiled, hitems, hq, ?_⟩
  unfold remove
  dsimp only
  rw [hremoved, hout, List.isEmpty_map]
  cases out <;> rfl

/-- Clearing an account takes all of its transactions out. -/
theorem clearAccount_refiled (a : AddressBytes) (c : TransactionsContainer d) :
    (c.clearAccount a).1 = (c.queue a).items.map TimemarkedTransaction.id ∧
      Refiled a .empty c (c.clearAccount a).2 :=
  withAccount_spec (f := fun q => (q.items.map TimemarkedTransaction.id, .empty)) rfl a c

end

/-- Every transaction is in the queue of its signer. -/
def Filed [External] (c : TransactionsContainer d) : Prop :=
  ∀ a, ∀ t ∈ (c.queue a).items, t.address = a

theorem Refiled.filed [External] {a : AddressBytes} {q : Queue} {c c' : TransactionsContainer d}
    (h : Refiled a q c c') (hc : c.Filed) (hq : ∀ t ∈ q.items, t.address = a) : c'.Filed := by
  intro b t ht
  rw [h.queue] at ht
  split_ifs at ht with hb
  · rw [hb]
    exact hq t ht
  · exact hc b t ht

theorem mem_held {tx : Transaction} {c : TransactionsContainer d} :
    tx ∈ c.held ↔ ∃ a, ∃ t ∈ (c.queue a).items, t.signedTx = tx := by
  constructor
  · intro h
    unfold held at h
    obtain ⟨k, q, hlookup, hq⟩ := AssocSum.exists_of_mem_sumOf h
    refine ⟨k, ?_⟩
    have : c.queue k = q := by
      unfold queue
      rw [hlookup, Option.getD_some]
    rw [this]
    exact List.mem_map.mp hq
  · rintro ⟨a, t, ht, rfl⟩
    -- the queue of the account is a part of the container
    have hle : (c.queue a).txs ≤ c.held := by
      rw [← quantityAt_txs]
      unfold held
      rw [← AssocSum.sumOf_erase Queue.txs a c.txs]
      exact Multiset.le_add_left _ _
    exact Multiset.mem_of_le hle (List.mem_map_of_mem ht)

/-- A transaction that is not in its account's queue is not held. -/
theorem Refiled.notMem_held [External] {tx : Transaction} {q : Queue}
    {c c' : TransactionsContainer d} (h : Refiled (signer tx) q c c') (hc : c.Filed)
    (hq : ∀ t ∈ q.items, t.nonce ≠ tx.params.nonce) : tx ∉ c'.held := by
  intro hmem
  obtain ⟨a, t, ht, rfl⟩ := mem_held.mp hmem
  rw [h.queue] at ht
  split_ifs at ht with ha
  · exact hq t ht rfl
  · exact ha (hc a t ht).symm

theorem notMem_held_remove [External] [TransactionCodec] {c : TransactionsContainer d}
    (hc : c.Filed) (tx : Transaction) : tx ∉ (c.remove tx).2.held := by
  obtain ⟨-, hrefiled⟩ := withAccount_spec (f := Queue.remove tx.params.nonce) rfl (signer tx) c
  exact hrefiled.notMem_held hc fun t ht => Queue.nonce_ne_of_mem_remove ht

theorem notMem_held_clearAccount [External] [TransactionCodec] {c : TransactionsContainer d}
    (hc : c.Filed) (tx : Transaction) : tx ∉ (c.clearAccount (signer tx)).2.held :=
  (clearAccount_refiled (signer tx) c).2.notMem_held hc fun _ ht => absurd ht List.not_mem_nil

end TransactionsContainer

end Astria.Sequencer
