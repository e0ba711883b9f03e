import Mathlib.Data.Finset.Insert
import Mathlib.Data.Finset.Erase
import Astria.Sequencer.Mempool.TransactionsContainer

/-!
# The mempool

The application's mempool (`mempool/mod.rs`): a pending and a parked container, the set of the tracked
transactions beside them, and the cache of the removals to report to CometBFT.

A call holds its locks until it returns, so it is one step; what `run_maintenance` reads of the chain
state, and when it looks at the clock, are arguments.  The order in which `run_maintenance` visits the
accounts is that of a hash set, so it is an argument too.

Results:
* `promote_spec`, `demote_spec`: what moving transactions into a container does to the mempool;
* `maintainAccounts_keeps`: what the turn of one account keeps, the whole loop keeps.
-/

namespace Astria.Sequencer

open Astria.Core Astria.Lib

/-! ## The removal cache -/

/-- `REMOVAL_CACHE_SIZE`. -/
def removalCacheSize : ℕ := 50000

/-- `MAX_PARKED_TXS_PER_ACCOUNT`. -/
def maxParkedTxsPerAccount : ℕ := 15

/-- `TX_TTL`, in nanoseconds. -/
def txTtl : ℕ := 240 * 10 ^ 9

/-- `RemovalCache` (lines 72–77). -/
structure RemovalCache where
  cache : AList fun _ : TransactionId => RemovalReason
  removeQueue : List TransactionId
  maxSize : ℕ

namespace RemovalCache

def new (maxSize : ℕ) : RemovalCache := { cache := ∅, removeQueue := [], maxSize := maxSize }

def remove (txHash : TransactionId) (c : RemovalCache) : Option RemovalReason × RemovalCache :=
  (c.cache.lookup txHash, { c with cache := c.cache.erase txHash })

/-- The oldest hash makes room for a new one.  A full queue is not empty, as the size is not zero. -/
def makeRoom (c : RemovalCache) : RemovalCache :=
  match c.removeQueue with
  | [] => c
  | removedTx :: rest =>
    if c.removeQueue.length = c.maxSize then
      { c with cache := c.cache.erase removedTx, removeQueue := rest }
    else c

/-- `add` (lines 96–118): the first reason is kept. -/
def add (txHash : TransactionId) (reason : RemovalReason) (c : RemovalCache) : RemovalCache :=
  if (c.cache.lookup txHash).isSome then c
  else
    let c := c.makeRoom
    { c with
      cache := c.cache.insert txHash reason
      removeQueue := c.removeQueue ++ [txHash] }

end RemovalCache

/-! ## The mempool -/

abbrev PendingTransactions := TransactionsContainer .pending

abbrev ParkedTransactions (maxTxCount : ℕ) :=
  TransactionsContainer (.parked maxParkedTxsPerAccount maxTxCount)

/-- `Mempool` (lines 178–185), with the greatest number of parked transactions. -/
structure Mempool (parkedMaxTxCount : ℕ) where
  pending : PendingTransactions
  parked : ParkedTransactions parkedMaxTxCount
  cometBftRemovalCache : RemovalCache
  containedTxs : Finset TransactionId

/-- What `run_maintenance` reads of the chain state; a read may fail. -/
structure StateReads where
  getAccountNonce : AddressBytes → Except Report ℕ
  getAccountBalances : AddressBytes → Except Report Balances
  getTotalTransactionCost : Transaction → Except Report Costs

/-- When `run_maintenance` looks at the clock for an account: before its pending and before its parked
transactions are cleaned. -/
structure Clock where
  pending : AddressBytes → Time
  parked : AddressBytes → Time

namespace Mempool

variable {parkedMaxTxCount : ℕ}

/-- `new`. -/
def new (parkedMaxTxCount : ℕ) : Mempool parkedMaxTxCount where
  pending := { txs := ∅, txTtl := txTtl }
  parked := { txs := ∅, txTtl := txTtl }
  cometBftRemovalCache := .new removalCacheSize
  containedTxs := ∅

def len (m : Mempool parkedMaxTxCount) : ℕ := m.containedTxs.card

def isTracked (txHash : TransactionId) (m : Mempool parkedMaxTxCount) : Bool :=
  txHash ∈ m.containedTxs

def pendingNonce (a : AddressBytes) (m : Mempool parkedMaxTxCount) : Option ℕ :=
  m.pending.pendingNonce a

/-- `ContainedTxLock::add`; that the hash is there already is logged. -/
def track (id : TransactionId) (m : Mempool parkedMaxTxCount) : Mempool parkedMaxTxCount :=
  { m with containedTxs := insert id m.containedTxs }

/-- `ContainedTxLock::remove`; that the hash is not there is logged. -/
def untrack (id : TransactionId) (m : Mempool parkedMaxTxCount) : Mempool parkedMaxTxCount :=
  { m with containedTxs := m.containedTxs.erase id }

/-- `check_removed_comet_bft`. -/
def checkRemovedCometBft (txHash : TransactionId) (m : Mempool parkedMaxTxCount) :
    Option RemovalReason × Mempool parkedMaxTxCount :=
  let (reason, cache) := m.cometBftRemovalCache.remove txHash
  (reason, { m with cometBftRemovalCache := cache })

/-- Hands removed transactions to the removal cache and stops tracking them. -/
def report : List (TransactionId × RemovalReason) → Mempool parkedMaxTxCount →
    Mempool parkedMaxTxCount
  | [], m => m
  | (txHash, reason) :: rest, m =>
    report rest
      { m with
        cometBftRemovalCache := m.cometBftRemovalCache.add txHash reason
        containedTxs := m.containedTxs.erase txHash }

section

variable [External] [TransactionCodec]

/-- The promotion loops.  The hash that is not tracked any more when pending refuses a transaction is
the inserted transaction's in `insert`, and its own in `run_maintenance`. -/
def promote (refused : TimemarkedTransaction → TransactionId) (currentNonce : ℕ)
    (currentBalances : Balances) : List TimemarkedTransaction → Mempool parkedMaxTxCount →
    Mempool parkedMaxTxCount
  | [], m => m
  | t :: rest, m =>
    match m.pending.add t currentNonce currentBalances with
    | .ok pending => promote refused currentNonce currentBalances rest { m with pending := pending }
    | .error _ => promote refused currentNonce currentBalances rest (m.untrack (refused t))

/-- The demotion loop of `run_maintenance`. -/
def demote (currentNonce : ℕ) (currentBalances : Balances) : List TimemarkedTransaction →
    Mempool parkedMaxTxCount → Mempool parkedMaxTxCount
  | [], m => m
  | t :: rest, m =>
    match m.parked.add t currentNonce currentBalances with
    | .ok parked => demote currentNonce currentBalances rest { m with parked := parked }
    | .error _ => demote currentNonce currentBalances rest (m.untrack t.id)

/-- `insert` (lines 218–300), of a transaction with its nonce in the range of its type, at a time.  The
outer error is the panic of `expect`, which leaves the mempool as it is then. -/
def insert (ttx : TimemarkedTransaction) (currentAccountNonce : ℕ)
    (currentAccountBalances : Balances) (m : Mempool parkedMaxTxCount) :
    Except String (Except InsertionError Unit) × Mempool parkedMaxTxCount :=
  -- try insert into pending
  match m.pending.add ttx currentAccountNonce currentAccountBalances with
  | .error .nonceGap | .error .accountBalanceTooLow =>
    -- try to add to parked queue
    match m.parked.add ttx currentAccountNonce currentAccountBalances with
    | .ok parked => (.ok (.ok ()), { m with parked := parked }.track ttx.id)
    | .error err => (.ok (.error err), m)
  | .error err => (.ok (.error err), m)
  | .ok pending =>
    -- check parked for txs able to be promoted
    match checkedAdd u32Max ttx.nonce 1 with
    | none => (.error "failed to increment nonce in promotion", { m with pending := pending })
    | some targetNonce =>
      let (toPromote, parked) := m.parked.findPromotables ttx.address targetNonce
        (pending.subtractContainedCosts ttx.address currentAccountBalances)
      let m := promote (fun _ => ttx.id) currentAccountNonce currentAccountBalances toPromote
        { m with pending := pending, parked := parked }
      (.ok (.ok ()), m.track ttx.id)

/-- The end of `remove_tx_invalid`: the original transaction first, to preserve its reason. -/
def reportInvalid (txHash : TransactionId) (reason : RemovalReason) (removedTxs : List TransactionId)
    (m : Mempool parkedMaxTxCount) : Mempool parkedMaxTxCount :=
  report (removedTxs.map fun id => (id, RemovalReason.lowerNonceInvalidated))
    { m with cometBftRemovalCache := m.cometBftRemovalCache.add txHash reason }

/-- `remove_tx_invalid` (lines 315–350). -/
def removeTxInvalid (signedTx : Transaction) (reason : RemovalReason)
    (m : Mempool parkedMaxTxCount) : Mempool parkedMaxTxCount :=
  match m.pending.remove signedTx with
  | (.ok removedTxs, pending) =>
    -- remove all of parked
    let (cleared, parked) := m.parked.clearAccount (signer signedTx)
    reportInvalid (transactionId signedTx) reason (removedTxs ++ cleared)
      { m with pending := pending, parked := parked }
  | (.error signedTx, pending) =>
    match m.parked.remove signedTx with
    | (.ok removedTxs, parked) =>
      reportInvalid (transactionId signedTx) reason removedTxs
        { m with pending := pending, parked := parked }
    | (.error _, parked) => { m with pending := pending, parked := parked }

/-! ### Maintenance -/

/-- The cleaning of one account in `run_maintenance` (lines 416–425). -/
def cleanAccount (state : StateReads) (recost : Bool) (clock : Clock) (a : AddressBytes)
    (currentNonce : ℕ) (m : Mempool parkedMaxTxCount) :
    List (TransactionId × RemovalReason) × Mempool parkedMaxTxCount :=
  let (removedPending, pending) :=
    m.pending.cleanAccountStaleExpired a currentNonce (clock.pending a)
  let (removedParked, parked) :=
    m.parked.cleanAccountStaleExpired a currentNonce (clock.parked a)
  (removedPending ++ removedParked,
    { m with
      pending := if recost then pending.recostTransactions a state.getTotalTransactionCost
        else pending
      parked := if recost then parked.recostTransactions a state.getTotalTransactionCost
        else parked })

/-- The moves of one account in `run_maintenance` (lines 427–474). -/
def moveAccount (a : AddressBytes) (currentNonce : ℕ) (currentBalances : Balances)
    (m : Mempool parkedMaxTxCount) : Mempool parkedMaxTxCount :=
  let (demotionTxs, pending) := m.pending.findDemotables a currentBalances
  if demotionTxs.isEmpty then
    -- nothing to demote, check for transactions to promote
    let pendingNonce := (pending.pendingNonce a).getD currentNonce
    let remainingBalances := pending.subtractContainedCosts a currentBalances
    let (promotionTxs, parked) := m.parked.findPromotables a pendingNonce remainingBalances
    promote TimemarkedTransaction.id currentNonce currentBalances promotionTxs
      { m with pending := pending, parked := parked }
  else
    -- add demoted transactions to parked
    demote currentNonce currentBalances demotionTxs { m with pending := pending }

/-- The turn of one account in the loop of `run_maintenance` (lines 393–475): what was removed, and the
mempool after it. -/
def maintainAccount (state : StateReads) (recost : Bool) (clock : Clock) (a : AddressBytes)
    (m : Mempool parkedMaxTxCount) :
    List (TransactionId × RemovalReason) × Mempool parkedMaxTxCount :=
  match state.getAccountNonce a with
  | .error _ => ([], m)
  | .ok currentNonce =>
    match state.getAccountBalances a with
    | .error _ => ([], m)
    | .ok currentBalances =>
      let (removedTxs, m) := m.cleanAccount state recost clock a currentNonce
      (removedTxs, m.moveAccount a currentNonce currentBalances)

/-- The loop over the accounts. -/
def maintainAccounts (state : StateReads) (recost : Bool) (clock : Clock) :
    List AddressBytes → Mempool parkedMaxTxCount →
      List (TransactionId × RemovalReason) × Mempool parkedMaxTxCount
  | [], m => ([], m)
  | a :: rest, m =>
    let (removedTxs, m) := m.maintainAccount state recost clock a
    let (removedRest, m) := maintainAccounts state recost clock rest m
    (removedTxs ++ removedRest, m)

/-- `run_maintenance` (lines 372–488). -/
def runMaintenance (state : StateReads) (recost : Bool) (clock : Clock)
    (addresses : List AddressBytes) (m : Mempool parkedMaxTxCount) : Mempool parkedMaxTxCount :=
  let (removedTxs, m) := m.maintainAccounts state recost clock addresses
  m.report removedTxs

end

/-! ## What a call does -/

section

variable [External] [TransactionCodec]

/-- The transactions held, pending and parked together. -/
def held (m : Mempool parkedMaxTxCount) : Multiset Transaction := m.pending.held + m.parked.held

/-- An insertion is refused, or the transaction is parked at a nonce that is free in both containers, or
it is pending and the parked transactions that follow it are promoted; the greatest nonce panics. -/
theorem insert_cases (ttx : TimemarkedTransaction) (n : ℕ) (b : Balances)
    (m : Mempool parkedMaxTxCount) :
    (m.insert ttx n b).2 = m ∨
      (∃ parked, (m.pending.queue ttx.address).get ttx.nonce = none ∧
        m.parked.add ttx n b = .ok parked ∧
          (m.insert ttx n b).2 = { m with parked := parked }.track ttx.id) ∨
        ∃ pending, m.pending.add ttx n b = .ok pending ∧
          (u32Max < ttx.nonce + 1 ∧ (m.insert ttx n b).2 = { m with pending := pending } ∨
            (m.insert ttx n b).2 =
              (promote (fun _ => ttx.id) n b
                (m.parked.findPromotables ttx.address (ttx.nonce + 1)
                  (pending.subtractContainedCosts ttx.address b)).1
                { m with
                  pending := pending
                  parked := (m.parked.findPromotables ttx.address (ttx.nonce + 1)
                    (pending.subtractContainedCosts ttx.address b)).2 }).track ttx.id) := by
  have hparked (hget : (m.pending.queue ttx.address).get ttx.nonce = none)
      (h : m.insert ttx n b =
        match m.parked.add ttx n b with
        | .ok parked => (.ok (.ok ()), { m with parked := parked }.track ttx.id)
        | .error err => (.ok (.error err), m)) :
      (m.insert ttx n b).2 = m ∨ ∃ parked, (m.pending.queue ttx.address).get ttx.nonce = none ∧
        m.parked.add ttx n b = .ok parked ∧
          (m.insert ttx n b).2 = { m with parked := parked }.track ttx.id := by
    rw [h]
    cases m.parked.add ttx n b with
    | ok parked => exact Or.inr ⟨parked, hget, rfl, rfl⟩
    | error e => exact Or.inl rfl
  cases hadd : m.pending.add ttx n b with
  | ok pending =>
    refine Or.inr (Or.inr ⟨pending, rfl, ?_⟩)
    unfold insert
    rw [hadd]
    dsimp only
    cases hnext : checkedAdd u32Max ttx.nonce 1 with
    | none => exact Or.inl ⟨checkedAdd_eq_none.mp hnext, rfl⟩
    | some target =>
      obtain ⟨rfl, -⟩ := checkedAdd_eq_some.mp hnext
      exact Or.inr rfl
  | error e =>
    have hget := TransactionsContainer.get_eq_none_of_add_error hadd
    unfold insert at hparked ⊢
    rw [hadd] at hparked ⊢
    cases e with
    | nonceGap => exact (hparked (hget (Or.inl rfl)) rfl).imp_right Or.inl
    | accountBalanceTooLow => exact (hparked (hget (Or.inr rfl)) rfl).imp_right Or.inl
    | alreadyPresent => exact Or.inl rfl
    | nonceTooLow => exact Or.inl rfl
    | nonceTaken => exact Or.inl rfl
    | accountSizeLimit => exact Or.inl rfl
    | parkedSizeLimit => exact Or.inl rfl

/-! ### Promotion and demotion -/

theorem promote_cache (refused : TimemarkedTransaction → TransactionId) (n : ℕ) (b : Balances)
    (l : List TimemarkedTransaction) (m : Mempool parkedMaxTxCount) :
    (promote refused n b l m).cometBftRemovalCache = m.cometBftRemovalCache := by
  induction l generalizing m with
  | nil => rfl
  | cons t l ih =>
    rw [promote]
    cases m.pending.add t n b <;> exact ih _

theorem demote_pending (n : ℕ) (b : Balances) (l : List TimemarkedTransaction)
    (m : Mempool parkedMaxTxCount) : (demote n b l m).pending = m.pending := by
  induction l generalizing m with
  | nil => rfl
  | cons t l ih =>
    rw [demote]
    cases m.parked.add t n b <;> exact ih _

theorem demote_cache (n : ℕ) (b : Balances) (l : List TimemarkedTransaction)
    (m : Mempool parkedMaxTxCount) :
    (demote n b l m).cometBftRemovalCache = m.cometBftRemovalCache := by
  induction l generalizing m with
  | nil => rfl
  | cons t l ih =>
    rw [demote]
    cases m.parked.add t n b <;> exact ih _

/-- A run of transactions that follows the pending ones of its account, and whose costs the balance
covers beside theirs, is promoted as a whole. -/
theorem promote_all (refused : TimemarkedTransaction → TransactionId) {n : ℕ} {b : Balances}
    {a : AddressBytes} {l : List TimemarkedTransaction} {target : ℕ} {m : Mempool parkedMaxTxCount}
    (haddress : ∀ t ∈ l, t.address = a)
    (hrange : l.map TimemarkedTransaction.nonce = List.range' target l.length) (hn : n ≤ target)
    (hlt : ∀ s ∈ (m.pending.queue a).items, s.nonce < target)
    (hpred : target = n ∨ ∃ s ∈ (m.pending.queue a).items, s.nonce + 1 = target)
    (hafford : Affordable ((m.pending.queue a).items ++ l) b) :
    ∃ pending q, promote refused n b l m = { m with pending := pending } ∧
      q.items = (m.pending.queue a).items ++ l ∧
        TransactionsContainer.Refiled a q m.pending pending := by
  induction l generalizing target m with
  | nil =>
    exact ⟨m.pending, m.pending.queue a, rfl, (List.append_nil _).symm, .refl a m.pending⟩
  | cons t l ih =>
    obtain rfl : t.address = a := haddress t List.mem_cons_self
    rw [List.map_cons, List.length_cons, List.range'_succ, List.cons.injEq] at hrange
    obtain ⟨rfl, hrange⟩ := hrange
    have hitems := KeyedQueue.items_insert_of_above hlt
    -- pending takes the first transaction
    obtain ⟨pending, hadd⟩ : ∃ pending, m.pending.add t n b = .ok pending := by
      refine ⟨_, TransactionsContainer.add_eq_ok.mpr ⟨rfl, _, Queue.add_eq_ok.mpr
        ⟨rfl, hn, ?_, ?_, ?_, rfl⟩, rfl⟩⟩
      · exact KeyedQueue.get_eq_none_iff.mpr fun s hs => Nat.ne_of_lt (hlt s hs)
      · exact Discipline.isSequentialNoncePreconditionMet_of hpred
      · rw [Discipline.hasBalanceToCover_pending]
        rw [List.append_cons] at hafford
        exact hafford.left
    obtain ⟨-, hrefiled, -⟩ := TransactionsContainer.refiled_of_add hadd
    rw [promote, hadd]
    dsimp only
    -- and is the predecessor of the next one
    obtain ⟨pending', q, hpromote, hq, hrefiled'⟩ :=
      ih (m := { m with pending := pending })
        (fun s hs => haddress s (List.mem_cons_of_mem _ hs)) hrange (Nat.le_succ_of_le hn)
        (by
          intro s hs
          dsimp only at hs
          rw [hrefiled.queue_self, hitems, List.mem_append, List.mem_singleton] at hs
          rcases hs with hs | rfl
          · exact Nat.lt_succ_of_lt (hlt s hs)
          · exact Nat.lt_succ_self _)
        (Or.inr ⟨t, by
          dsimp only
          rw [hrefiled.queue_self, hitems]
          exact List.mem_append_right _ List.mem_cons_self, rfl⟩)
        (by
          dsimp only
          rw [hrefiled.queue_self, hitems, List.append_assoc]
          exact hafford)
    refine ⟨pending', q, hpromote, ?_, hrefiled.trans hrefiled'⟩
    rw [hq]
    dsimp only
    rw [hrefiled.queue_self, hitems, List.append_assoc]
    rfl

/-- The next nonce of a queue: the account's if it is empty, and otherwise the one after the last. -/
def IsNextNonce (q : Queue) (n target : ℕ) : Prop :=
  q.items = [] ∧ target = n ∨ ∃ last, q.items.getLast? = some last ∧ target = last.nonce + 1

omit [External] [TransactionCodec] in
theorem IsNextNonce.nonce_lt {q : Queue} {n target : ℕ} (h : IsNextNonce q n target)
    {t : TimemarkedTransaction} (ht : t ∈ q.items) : t.nonce < target := by
  rcases h with ⟨hnil, -⟩ | ⟨last, hlast, rfl⟩
  · rw [hnil] at ht
    exact absurd ht List.not_mem_nil
  · have hle := KeyedQueue.key_le_getLast hlast ht
    omega

omit [External] [TransactionCodec] in
theorem IsNextNonce.pred {q : Queue} {n target : ℕ} (h : IsNextNonce q n target) :
    target = n ∨ ∃ s ∈ q.items, s.nonce + 1 = target := by
  rcases h with ⟨-, h⟩ | ⟨last, hlast, rfl⟩
  · exact Or.inl h
  · exact Or.inr ⟨last, List.mem_of_getLast? hlast, rfl⟩

/-- The moves of an account without stale transactions: either none is demoted, and the parked ones
that follow and are affordable are all promoted; or the end of its pending ones is demoted. -/
theorem moveAccount_cases {a : AddressBytes} {n : ℕ} {b : Balances}
    {m : Mempool parkedMaxTxCount} (hparked : ∀ t ∈ (m.parked.queue a).items, t.address = a)
    (hge : ∀ t ∈ (m.pending.queue a).items, n ≤ t.nonce) :
    (((m.pending.queue a).findDemotables b).1 = [] ∧
      ∃ target pending parked q rest l,
        IsNextNonce (m.pending.queue a) n target ∧
        (m.parked.queue a).findPromotables target ((m.pending.queue a).subtractContainedCosts b) =
          (l, rest) ∧
        l.map TimemarkedTransaction.nonce = List.range' target l.length ∧
        q.items = (m.pending.queue a).items ++ l ∧ (m.parked.queue a).items = l ++ rest.items ∧
        Affordable q.items b ∧ TransactionsContainer.Refiled a q m.pending pending ∧
        TransactionsContainer.Refiled a rest m.parked parked ∧
        m.moveAccount a n b = { m with pending := pending, parked := parked }) ∨
      ((m.pending.queue a).findDemotables b).1 ≠ [] ∧
        ∃ pending,
          TransactionsContainer.Refiled a ((m.pending.queue a).findDemotables b).2 m.pending
            pending ∧
          m.moveAccount a n b =
            demote n b ((m.pending.queue a).findDemotables b).1 { m with pending := pending } := by
  obtain ⟨hdemoted, hrefiled⟩ := TransactionsContainer.findDemotables_refiled a b m.pending
  obtain ⟨hitems, hafford, hlast⟩ := Queue.findDemotables_spec b (m.pending.queue a)
  unfold moveAccount
  rw [← hdemoted] at hitems hlast ⊢
  cases hmoved : m.pending.findDemotables a b with
  | mk demotionTxs pending =>
  rw [hmoved] at hrefiled hitems hlast
  dsimp only at hrefiled hitems hlast ⊢
  by_cases hnone : demotionTxs = []
  · subst hnone
    left
    refine ⟨rfl, ?_⟩
    rw [if_pos List.isEmpty_nil]
    -- nothing was taken out of pending
    rw [List.append_nil] at hitems
    rw [← KeyedQueue.ext hitems] at hrefiled hafford
    have hlast := hlast rfl
    obtain ⟨hpromoted, hrest⟩ := TransactionsContainer.findPromotables_refiled a
      ((pending.pendingNonce a).getD n) (pending.subtractContainedCosts a b) m.parked
    obtain ⟨hfront, hrange, hcovered⟩ := Queue.findPromotables_spec ((pending.pendingNonce a).getD n)
      (pending.subtractContainedCosts a b) (m.parked.queue a)
    rw [← hpromoted] at hfront hrange hcovered
    have hnext : IsNextNonce (m.pending.queue a) n ((pending.pendingNonce a).getD n) := by
      rw [TransactionsContainer.pendingNonce_eq, hrefiled.queue_self]
      unfold Queue.pendingAccountNonce
      cases hlast? : (m.pending.queue a).items.getLast? with
      | none =>
        left
        exact ⟨List.getLast?_eq_none_iff.mp hlast?, rfl⟩
      | some last =>
        right
        have hlt := hlast last (List.mem_of_getLast? hlast?)
        refine ⟨last, hlast?, ?_⟩
        rw [Option.map_some, Option.getD_some]
        unfold saturatingAdd
        omega
    have hn : n ≤ (pending.pendingNonce a).getD n := by
      rcases hnext.pred with h | ⟨s, hs, h⟩
      · omega
      · have := hge s hs
        omega
    have hboth : Affordable ((m.pending.queue a).items ++
        (m.parked.findPromotables a ((pending.pendingNonce a).getD n)
          (pending.subtractContainedCosts a b)).1) b := by
      intro asset
      have hpending := hafford asset
      have hextra := hcovered asset
      rw [TransactionsContainer.amount_subtractContainedCosts, hrefiled.queue_self] at hextra
      rw [Queue.costOf_append]
      omega
    generalize (pending.pendingNonce a).getD n = target at *
    obtain ⟨pending', q, hpromote, hq, hrefiled'⟩ :=
      promote_all TimemarkedTransaction.id (a := a) (n := n) (b := b)
        (l := (m.parked.findPromotables a target (pending.subtractContainedCosts a b)).1)
        (m := { m with
          pending := pending
          parked := (m.parked.findPromotables a target (pending.subtractContainedCosts a b)).2 })
        (by
          intro t ht
          refine hparked t ?_
          rw [hfront]
          exact List.mem_append_left _ ht)
        hrange hn
        (by
          dsimp only
          rw [hrefiled.queue_self]
          intro s hs
          exact hnext.nonce_lt hs)
        (by
          dsimp only
          rw [hrefiled.queue_self]
          exact hnext.pred)
        (by
          dsimp only
          rw [hrefiled.queue_self]
          exact hboth)
    dsimp only at hq
    rw [hrefiled.queue_self] at hq
    have hsplit : (m.parked.queue a).findPromotables target
        ((m.pending.queue a).subtractContainedCosts b) =
          ((m.parked.findPromotables a target (pending.subtractContainedCosts a b)).1,
            ((m.parked.queue a).findPromotables target (pending.subtractContainedCosts a b)).2) := by
      rw [hpromoted, TransactionsContainer.subtractContainedCosts_eq, hrefiled.queue_self]
    refine ⟨target, pending', _, q, _, _, hnext, hsplit, hrange, hq, hfront, ?_,
      hrefiled.trans hrefiled', hrest, hpromote⟩
    rw [hq]
    exact hboth
  · right
    refine ⟨hnone, pending, hrefiled, ?_⟩
    rw [if_neg (by simpa using hnone)]

/-! ### Removal and cleaning -/

/-- The removal of an invalid transaction takes the ends of its account's queues off and reports what
it took, if it took anything. -/
theorem removeTxInvalid_cases (tx : Transaction) (reason : RemovalReason)
    (m : Mempool parkedMaxTxCount) :
    ∃ (pending : PendingTransactions) (parked : ParkedTransactions parkedMaxTxCount)
        (q q' : Queue) (out out' : List TimemarkedTransaction),
      TransactionsContainer.Refiled (signer tx) q m.pending pending ∧
        TransactionsContainer.Refiled (signer tx) q' m.parked parked ∧
        (m.pending.queue (signer tx)).items = q.items ++ out ∧
        (m.parked.queue (signer tx)).items = q'.items ++ out' ∧
        (q = (m.pending.queue (signer tx)).below tx.params.nonce ∨
          q = m.pending.queue (signer tx)) ∧
        (m.removeTxInvalid tx reason =
            reportInvalid (transactionId tx) reason ((out ++ out').map TimemarkedTransaction.id)
              { m with pending := pending, parked := parked } ∨
          out = [] ∧ out' = [] ∧
            m.removeTxInvalid tx reason = { m with pending := pending, parked := parked }) := by
  obtain ⟨q, out, hrefiled, hitems, hq, hremoved⟩ :=
    TransactionsContainer.remove_refiled tx m.pending
  unfold removeTxInvalid
  cases h : m.pending.remove tx with
  | mk removed pending =>
  rw [h] at hremoved hrefiled
  dsimp only at hremoved hrefiled
  rw [hremoved]
  by_cases hnone : out = []
  · rw [if_pos hnone]
    obtain ⟨q', out', hrefiled', hitems', -, hremoved'⟩ :=
      TransactionsContainer.remove_refiled tx m.parked
    refine ⟨pending, _, q, q', out, out', hrefiled, hrefiled', hitems, hitems', hq, ?_⟩
    dsimp only
    cases h' : m.parked.remove tx with
    | mk removed' parked =>
    rw [h'] at hremoved'
    dsimp only at hremoved'
    rw [hremoved']
    by_cases hnone' : out' = []
    · rw [if_pos hnone']
      exact Or.inr ⟨hnone, hnone', rfl⟩
    · rw [if_neg hnone', hnone, List.nil_append]
      exact Or.inl rfl
  · rw [if_neg hnone]
    obtain ⟨hcleared, hrefiled'⟩ := TransactionsContainer.clearAccount_refiled (signer tx) m.parked
    refine ⟨pending, _, q, .empty, out, _, hrefiled, hrefiled', hitems, rfl, hq, Or.inl ?_⟩
    dsimp only
    rw [hcleared, List.map_append]

/-- What cleaning an account takes out of its queues, and what it leaves: nothing, or the queues from
the account's nonce on, with other costs perhaps. -/
theorem cleanAccount_spec (state : StateReads) (recost : Bool) (clock : Clock) (a : AddressBytes)
    (n : ℕ) (m : Mempool parkedMaxTxCount) :
    ∃ (pending : PendingTransactions) (parked : ParkedTransactions parkedMaxTxCount)
        (q q' : Queue) (out out' : List TimemarkedTransaction),
      Queue.Cleaned n (m.pending.queue a) out q ∧ Queue.Cleaned n (m.parked.queue a) out' q' ∧
        TransactionsContainer.Refiled a q m.pending pending ∧
        TransactionsContainer.Refiled a q' m.parked parked ∧
        (m.cleanAccount state recost clock a n).1.map (·.1) =
          (out ++ out').map TimemarkedTransaction.id ∧
        (m.cleanAccount state recost clock a n).2 =
          { m with pending := pending, parked := parked } := by
  obtain ⟨pending, q, out, hcleaned, hrefiled, hout, hpending⟩ :=
    TransactionsContainer.clean_spec state.getTotalTransactionCost recost a n (clock.pending a)
      m.pending
  obtain ⟨parked, q', out', hcleaned', hrefiled', hout', hparked⟩ :=
    TransactionsContainer.clean_spec state.getTotalTransactionCost recost a n (clock.parked a)
      m.parked
  refine ⟨pending, parked, q, q', out, out', hcleaned, hcleaned', hrefiled, hrefiled', ?_, ?_⟩
  · unfold cleanAccount
    dsimp only
    rw [List.map_append, hout, hout', List.map_append]
  · unfold cleanAccount
    dsimp only
    rw [hpending, hparked]

/-- The turn of an account: it is skipped if a read fails, and otherwise cleaned, before its
transactions are moved. -/
theorem maintainAccount_cases (state : StateReads) (recost : Bool) (clock : Clock)
    (a : AddressBytes) (m : Mempool parkedMaxTxCount) :
    m.maintainAccount state recost clock a = ([], m) ∧
        (∀ n b, state.getAccountNonce a = .ok n → state.getAccountBalances a ≠ .ok b) ∨
      ∃ n b, state.getAccountNonce a = .ok n ∧ state.getAccountBalances a = .ok b ∧
        m.maintainAccount state recost clock a =
          ((m.cleanAccount state recost clock a n).1,
            (m.cleanAccount state recost clock a n).2.moveAccount a n b) := by
  unfold maintainAccount
  cases hn : state.getAccountNonce a with
  | error e => exact Or.inl ⟨rfl, fun n b h => by cases h⟩
  | ok n =>
    cases hb : state.getAccountBalances a with
    | error e => exact Or.inl ⟨rfl, fun n' b _ h => by cases h⟩
    | ok b => exact Or.inr ⟨n, b, rfl, rfl, rfl⟩

end

end Mempool

end Astria.Sequencer
