import Mathlib.Logic.Basic
import Astria.Sequencer.Mempool.Promotion

/-!
# What an insertion leaves

The result of `Mempool::insert` (`mempool/mod.rs`, lines 218–300) and the containers after it.

Pending looks for the nonce of a new transaction in its own queue only, and takes the account's nonce
whatever it holds.  So a transaction that is parked can become pending beside itself, and one with the
account's nonce can leave a gap above older pending transactions of the account.

Results:
* `insert_error`: an insertion that is refused changes nothing;
* `Run.contiguous`: the pending queues stay contiguous in a run in which what pending takes goes on from
  its queue;
* `insert_sound`: in such a run, an insertion that goes on leaves the transaction tracked, in one
  container, and the queue contiguous; and it goes on if it does, on a chained queue.
-/

namespace Astria.Sequencer

open Astria.Core Astria.Lib

/-! ## Contiguous queues -/

namespace Queue

/-- The nonces have no gap. -/
def Contiguous (q : Queue) : Prop :=
  ∃ k, q.items.map TimemarkedTransaction.nonce = List.range' k q.items.length

theorem Contiguous.mem_iff {q : Queue} {k : ℕ}
    (h : q.items.map TimemarkedTransaction.nonce = List.range' k q.items.length) (i : ℕ) :
    (∃ t ∈ q.items, t.nonce = i) ↔ k ≤ i ∧ i < k + q.items.length := by
  rw [← List.mem_range'_1, ← h, List.mem_map]

/-- Of two nonces, the greater one follows another one. -/
theorem Contiguous.pred {q : Queue} (h : q.Contiguous) {s t : TimemarkedTransaction}
    (hs : s ∈ q.items) (ht : t ∈ q.items) (hlt : s.nonce < t.nonce) :
    ∃ r ∈ q.items, r.nonce + 1 = t.nonce := by
  obtain ⟨k, hk⟩ := h
  have hmem := Contiguous.mem_iff hk
  have hs' := (hmem s.nonce).mp ⟨s, hs, rfl⟩
  have ht' := (hmem t.nonce).mp ⟨t, ht, rfl⟩
  obtain ⟨r, hr, hnonce⟩ := (hmem (t.nonce - 1)).mpr ⟨by omega, by omega⟩
  exact ⟨r, hr, by omega⟩

theorem contiguous_of_pred {q : Queue}
    (h : ∀ s ∈ q.items, ∀ t ∈ q.items, s.nonce < t.nonce → ∃ r ∈ q.items, r.nonce + 1 = t.nonce) :
    q.Contiguous := by
  have hasc := q.ascending
  cases hitems : q.items with
  | nil => exact ⟨0, by rw [hitems]; rfl⟩
  | cons first rest =>
    have hfirst : first ∈ q.items := by rw [hitems]; exact List.mem_cons_self
    have hge : ∀ t ∈ q.items, first.nonce ≤ t.nonce := by
      intro t ht
      rw [hitems] at ht hasc
      rcases List.mem_cons.mp ht with rfl | ht
      · exact le_refl _
      · exact le_of_lt (List.rel_of_pairwise_cons hasc ht)
    refine ⟨first.nonce, KeyedQueue.keys_eq_range' q hge ?_⟩
    intro t ht
    rcases (hge t ht).eq_or_lt with heq | hlt
    · exact Or.inl heq.symm
    · exact Or.inr (h first hfirst t ht hlt)

theorem contiguous_empty : Contiguous .empty := ⟨0, rfl⟩

/-- The front of a contiguous queue is contiguous. -/
theorem Contiguous.front {q q' : Queue} {out : List TimemarkedTransaction} (h : q.Contiguous)
    (hitems : q.items = q'.items ++ out) : q'.Contiguous := by
  have hasc := q.ascending
  rw [hitems, List.pairwise_append] at hasc
  refine contiguous_of_pred fun s hs t ht hlt => ?_
  obtain ⟨r, hr, hnonce⟩ := h.pred (by rw [hitems]; exact List.mem_append_left _ hs)
    (by rw [hitems]; exact List.mem_append_left _ ht) hlt
  rw [hitems] at hr
  rcases List.mem_append.mp hr with hr | hr
  · exact ⟨r, hr, hnonce⟩
  · have := hasc.2.2 t ht r hr
    omega

theorem Contiguous.cleaned {n : ℕ} {q q' : Queue} {out : List TimemarkedTransaction}
    (h : q.Contiguous) (hc : Cleaned n q out q') : q'.Contiguous := by
  have hold : ∀ t ∈ q'.items, ∃ s ∈ q.items, s.nonce = t.nonce := by
    intro t ht
    obtain ⟨s, hs, hsame⟩ := hc.mem t ht
    exact ⟨s, hs, congrArg (fun tx => tx.params.nonce) hsame⟩
  refine contiguous_of_pred fun s hs t ht hlt => ?_
  obtain ⟨s', hs', hsame⟩ := hold s hs
  obtain ⟨t', ht', hsame'⟩ := hold t ht
  obtain ⟨r, hr, hnonce⟩ := h.pred hs' ht' (by omega)
  have hle := hc.le_nonce s hs
  obtain ⟨r', hr', hsame''⟩ := hc.pred r hr t ht (by omega) (by omega)
  exact ⟨r', hr', by omega⟩

/-- A contiguous queue goes on with the nonces that follow it. -/
theorem Contiguous.append {n target : ℕ} {q q' : Queue} {l : List TimemarkedTransaction}
    (h : q.Contiguous) (hnext : Mempool.IsNextNonce q n target) (hitems : q'.items = q.items ++ l)
    (hrange : l.map TimemarkedTransaction.nonce = List.range' target l.length) :
    q'.Contiguous := by
  obtain ⟨k, hk⟩ := h
  rcases hnext with ⟨hnil, -⟩ | ⟨last, hlast, rfl⟩
  · rw [hnil, List.nil_append] at hitems
    exact ⟨target, by rw [hitems]; exact hrange⟩
  · have hlast' : (q.items.map TimemarkedTransaction.nonce).getLast? = some last.nonce := by
      rw [List.getLast?_map, hlast, Option.map_some]
    rw [hk, List.getLast?_range'] at hlast'
    split_ifs at hlast' with hlen
    have hnonce := Option.some.inj hlast'
    refine ⟨k, ?_⟩
    rw [hitems, List.map_append, hk, hrange, List.length_append, ← List.range'_append_1]
    congr 2
    omega

end Queue

namespace Mempool

section

variable {parkedMaxTxCount : ℕ} [External] [TransactionCodec]

/-! ## Results of an insertion -/

/-- An insertion that is refused changes nothing. -/
theorem insert_error {ttx : TimemarkedTransaction} {n : ℕ} {b : Balances}
    {m : Mempool parkedMaxTxCount} {e : InsertionError}
    (h : (m.insert ttx n b).1 = .ok (.error e)) : (m.insert ttx n b).2 = m := by
  unfold insert at h ⊢
  cases hadd : m.pending.add ttx n b with
  | ok pending =>
    rw [hadd] at h
    dsimp only at h
    cases hnext : checkedAdd u32Max ttx.nonce 1 with
    | none =>
      rw [hnext] at h
      cases h
    | some target =>
      rw [hnext] at h
      cases h
  | error err =>
    rw [hadd] at h
    cases err <;> try rfl
    all_goals
      dsimp only at h ⊢
      cases hparked : m.parked.add ttx n b with
      | ok parked =>
        rw [hparked] at h
        cases h
      | error err => rfl

/-- An insertion that succeeds parks the transaction at a nonce that pending has not, or pending takes
it. -/
theorem insert_ok_cases {ttx : TimemarkedTransaction} {n : ℕ} {b : Balances}
    {m : Mempool parkedMaxTxCount} (h : (m.insert ttx n b).1 = .ok (.ok ())) :
    (∃ parked, (m.pending.queue ttx.address).get ttx.nonce = none ∧
      m.parked.add ttx n b = .ok parked ∧
        (m.insert ttx n b).2 = { m with parked := parked }.track ttx.id) ∨
      ∃ pending, m.pending.add ttx n b = .ok pending := by
  cases hadd : m.pending.add ttx n b with
  | ok pending => exact Or.inr ⟨pending, rfl⟩
  | error err =>
    left
    have hget := TransactionsContainer.get_eq_none_of_add_error hadd
    unfold insert at h ⊢
    rw [hadd] at h ⊢
    cases err <;> try cases h
    all_goals
      dsimp only at h ⊢
      cases hparked : m.parked.add ttx n b with
      | ok parked => exact ⟨parked, hget (by simp), rfl, rfl⟩
      | error err =>
        rw [hparked] at h
        cases h

/-- Pending takes no transaction that is parked, and the ones it takes go on from the account's pending
ones. -/
def GoesOn (m : Mempool parkedMaxTxCount) : Call → Prop
  | .insert ttx n b =>
    (∃ pending, m.pending.add ttx n b = .ok pending) →
      (∀ t ∈ (m.parked.queue ttx.address).items, t.signedTx ≠ ttx.signedTx) ∧
        ∀ last ∈ (m.pending.queue ttx.address).items.getLast?, ttx.nonce = last.nonce + 1
  | _ => True

/-- What an insertion promises: if it is refused nothing changes, and if it succeeds the transaction is
tracked and in one container, and the pending nonces of its account are contiguous. -/
structure InsertSound (ttx : TimemarkedTransaction) (n : ℕ) (b : Balances)
    (m : Mempool parkedMaxTxCount) : Prop where
  refused : ∀ e, (m.insert ttx n b).1 = .ok (.error e) →
    (m.insert ttx n b).2.pending = m.pending ∧ (m.insert ttx n b).2.parked = m.parked ∧
      (m.insert ttx n b).2.containedTxs = m.containedTxs
  tracked : (m.insert ttx n b).1 = .ok (.ok ()) → ttx.id ∈ (m.insert ttx n b).2.containedTxs
  inOne : (m.insert ttx n b).1 = .ok (.ok ()) →
    Xor (ttx.signedTx ∈ (m.insert ttx n b).2.pending.held)
      (ttx.signedTx ∈ (m.insert ttx n b).2.parked.held)
  contiguous : (m.insert ttx n b).1 = .ok (.ok ()) →
    ((m.insert ttx n b).2.pending.queue ttx.address).Contiguous

omit [TransactionCodec] in
/-- A transaction is held by a container that files it exactly if its account's queue has it. -/
theorem mem_held_iff {d : Discipline} {c : TransactionsContainer d} (hc : c.Filed)
    {tx : Transaction} :
    tx ∈ c.held ↔ ∃ t ∈ (c.queue (signer tx)).items, t.signedTx = tx := by
  rw [TransactionsContainer.mem_held]
  constructor
  · rintro ⟨a, t, ht, rfl⟩
    have haddress : signer t.signedTx = a := hc a t ht
    rw [haddress]
    exact ⟨t, ht, rfl⟩
  · rintro ⟨t, ht, hsame⟩
    exact ⟨_, t, ht, hsame⟩

omit [External] [TransactionCodec] in
/-- A queue that has no transaction at a nonce has not the one with that nonce. -/
theorem signedTx_ne_of_get {q : Queue} {ttx : TimemarkedTransaction} (h : q.get ttx.nonce = none) :
    ∀ t ∈ q.items, t.signedTx ≠ ttx.signedTx :=
  fun t ht hsame => KeyedQueue.get_eq_none_iff.mp h t ht
    (congrArg (fun tx => tx.params.nonce) hsame)

/-- What goes on has a nonce above those of its account. -/
theorem GoesOn.above {m : Mempool parkedMaxTxCount} {ttx : TimemarkedTransaction} {n : ℕ}
    {b : Balances} (h : m.GoesOn (.insert ttx n b)) {pending : PendingTransactions}
    (hadd : m.pending.add ttx n b = .ok pending) :
    ∀ s ∈ (m.pending.queue ttx.address).items, s.nonce < ttx.nonce := by
  obtain ⟨-, hlast⟩ := h ⟨pending, hadd⟩
  intro s hs
  cases hget : (m.pending.queue ttx.address).items.getLast? with
  | none =>
    rw [List.getLast?_eq_none_iff.mp hget] at hs
    exact absurd hs List.not_mem_nil
  | some last =>
    have hle := KeyedQueue.key_le_getLast hget hs
    have := hlast last hget
    omega

/-- What goes on is at the next nonce of its account's queue. -/
theorem GoesOn.isNextNonce {m : Mempool parkedMaxTxCount} {ttx : TimemarkedTransaction} {n : ℕ}
    {b : Balances} (h : m.GoesOn (.insert ttx n b)) {pending : PendingTransactions}
    (hadd : m.pending.add ttx n b = .ok pending) :
    IsNextNonce (m.pending.queue ttx.address) ttx.nonce ttx.nonce := by
  obtain ⟨-, hlast⟩ := h ⟨pending, hadd⟩
  cases hget : (m.pending.queue ttx.address).items.getLast? with
  | none => exact Or.inl ⟨List.getLast?_eq_none_iff.mp hget, rfl⟩
  | some last => exact Or.inr ⟨last, hget, hlast last hget⟩

/-! ## Runs -/

/-- Every pending queue is contiguous. -/
def Contiguous (m : Mempool parkedMaxTxCount) : Prop := ∀ a, (m.pending.queue a).Contiguous

omit [External] [TransactionCodec] in
theorem Contiguous.refiled {m : Mempool parkedMaxTxCount} (h : m.Contiguous) {a : AddressBytes}
    {q : Queue} {pending : PendingTransactions}
    (hrefiled : TransactionsContainer.Refiled a q m.pending pending) (hq : q.Contiguous)
    (a' : AddressBytes) : (pending.queue a').Contiguous := by
  rw [hrefiled.queue]
  split_ifs with ha
  · exact hq
  · exact h a'

omit [External] [TransactionCodec] in
/-- The nonces from that of the inserted transaction on. -/
theorem map_nonce_cons {ttx : TimemarkedTransaction} {l : List TimemarkedTransaction}
    (h : l.map TimemarkedTransaction.nonce = List.range' (ttx.nonce + 1) l.length) :
    (ttx :: l).map TimemarkedTransaction.nonce = List.range' ttx.nonce (ttx :: l).length := by
  rw [List.map_cons, List.length_cons, List.range'_succ, h]

theorem Contiguous.insert {m : Mempool parkedMaxTxCount} (h : m.Contiguous) (hfiled : m.Filed)
    {ttx : TimemarkedTransaction} {n : ℕ} {b : Balances} (hgo : m.GoesOn (.insert ttx n b)) :
    (m.insert ttx n b).2.Contiguous := by
  rcases m.insert_cases ttx n b with heq | ⟨parked, -, -, heq⟩ | ⟨pending, hadd, ⟨-, heq⟩ | heq⟩
  · rw [heq]
    exact h
  · rw [heq]
    exact h
  · rw [heq]
    obtain ⟨-, hrefiled, -⟩ := TransactionsContainer.refiled_of_add hadd
    have hitems := KeyedQueue.items_insert_of_above (hgo.above hadd)
    exact h.refiled hrefiled ((h _).append (hgo.isNextNonce hadd) hitems rfl)
  · rw [heq]
    obtain ⟨pending', q, rest, l, hq, -, hrange, -, hrefiled, -, hpromote⟩ :=
      insert_promotes_of_above hfiled (hgo.above hadd) hadd
    rw [hpromote]
    exact h.refiled hrefiled ((h _).append (hgo.isNextNonce hadd) hq (map_nonce_cons hrange))

theorem Contiguous.removeTxInvalid {m : Mempool parkedMaxTxCount} (h : m.Contiguous)
    (tx : Transaction) (reason : RemovalReason) : (m.removeTxInvalid tx reason).Contiguous := by
  obtain ⟨pending, parked, q, q', out, out', hrefiled, -, hitems, -, -, hcases⟩ :=
    m.removeTxInvalid_cases tx reason
  have hpending := h.refiled hrefiled ((h _).front hitems)
  rcases hcases with heq | ⟨-, -, heq⟩
  · rw [heq]
    unfold reportInvalid Contiguous
    rw [(pending_report _ _).1]
    exact hpending
  · rw [heq]
    exact hpending

theorem Contiguous.maintainAccount {m : Mempool parkedMaxTxCount} (h : m.Contiguous)
    (hfiled : m.Filed) (state : StateReads) (recost : Bool) (clock : Clock) (a : AddressBytes) :
    (m.maintainAccount state recost clock a).2.Contiguous := by
  rcases m.maintainAccount_cases state recost clock a with ⟨heq, -⟩ | ⟨n, b, -, -, heq⟩
  · rw [heq]
    exact h
  rw [heq]
  -- the cleaned queue is contiguous, and the moves add what follows or take the end off
  have hcleaned : (m.cleanAccount state recost clock a n).2.Contiguous := by
    obtain ⟨pending, parked, q, q', out, out', hclean, -, hrefiled, -, -, hspec⟩ :=
      m.cleanAccount_spec state recost clock a n
    rw [hspec]
    exact h.refiled hrefiled ((h a).cleaned hclean)
  have hfiled' := hfiled.cleanAccount state recost clock a n
  have hge : ∀ t ∈ ((m.cleanAccount state recost clock a n).2.pending.queue a).items,
      n ≤ t.nonce := fun t ht => le_nonce_cleanAccount ht
  generalize (m.cleanAccount state recost clock a n).2 = m' at hcleaned hfiled' hge ⊢
  rcases moveAccount_cases (b := b) (hfiled'.2 a) hge with
    ⟨-, target, pending, parked, q, rest, l, hnext, -, hrange, hq, -, -, hrefiled, -, hmove⟩ |
      ⟨-, pending, hrefiled, hmove⟩
  · rw [hmove]
    exact hcleaned.refiled hrefiled ((hcleaned a).append hnext hq hrange)
  · obtain ⟨hitems, -, -⟩ := (m'.pending.queue a).findDemotables_spec b
    rw [hmove]
    unfold Contiguous
    rw [demote_pending]
    exact hcleaned.refiled hrefiled ((hcleaned a).front hitems)

theorem Contiguous.runMaintenance {m : Mempool parkedMaxTxCount} (h : m.Contiguous)
    (hfiled : m.Filed) (state : StateReads) (recost : Bool) (clock : Clock)
    (addresses : List AddressBytes) :
    (m.runMaintenance state recost clock addresses).Contiguous := by
  unfold Mempool.runMaintenance Contiguous
  dsimp only
  rw [(pending_report _ _).1]
  have hkeeps := maintainAccounts_keeps (P := fun m' => m'.Filed ∧ m'.Contiguous)
    state recost clock
    (fun a m' hm' => ⟨hm'.1.maintainAccount state recost clock a,
      hm'.2.maintainAccount hm'.1 state recost clock a⟩)
    addresses ⟨hfiled, h⟩
  exact hkeeps.2

/-- In a run in which what pending takes goes on from its queue, the pending queues are contiguous. -/
theorem Run.contiguous {nonces : Nonces} {m : Mempool parkedMaxTxCount}
    (run : Run (fun _ _ m c => m.GoesOn c) nonces m) : m.Contiguous := by
  induction run with
  | new nonces => exact fun a => Queue.contiguous_empty
  | @call nonces nonces' m c run hat hgo ih =>
    cases c with
    | insert ttx n b => exact ih.insert run.filed hgo
    | removeTxInvalid tx reason => exact ih.removeTxInvalid tx reason
    | checkRemovedCometBft txHash => exact ih
    | runMaintenance state recost clock addresses =>
      exact ih.runMaintenance run.filed state recost clock addresses

/-! ## Soundness -/

theorem InsertSound.of_goesOn {m : Mempool parkedMaxTxCount} (hcontiguous : m.Contiguous)
    (hfiled : m.Filed) {ttx : TimemarkedTransaction} {n : ℕ} {b : Balances}
    (hgo : m.GoesOn (.insert ttx n b)) : InsertSound ttx n b m := by
  have hafter := hfiled.insert ttx n b
  refine ⟨?_, ?_, ?_, fun _ => hcontiguous.insert hfiled hgo ttx.address⟩
  · intro e he
    rw [insert_error he]
    exact ⟨rfl, rfl, rfl⟩
  · intro hok
    rcases insert_ok_cases hok with ⟨parked, -, -, heq⟩ | ⟨pending, hadd⟩
    · rw [heq]
      exact Finset.mem_insert_self _ _
    · rw [(insert_of_add hadd hok).2]
      exact Finset.mem_insert_self _ _
  · intro hok
    rw [mem_held_iff hafter.1, mem_held_iff hafter.2]
    change Xor (∃ t ∈ ((m.insert ttx n b).2.pending.queue ttx.address).items, _)
      (∃ t ∈ ((m.insert ttx n b).2.parked.queue ttx.address).items, _)
    rcases insert_ok_cases hok with ⟨parked, hget, hadd, heq⟩ | ⟨pending, hadd⟩
    · -- parked: pending has not its nonce
      rw [heq]
      right
      obtain ⟨hget', hrefiled, -⟩ := TransactionsContainer.refiled_of_add hadd
      constructor
      · refine ⟨ttx, ?_, rfl⟩
        unfold track
        dsimp only
        rw [hrefiled.queue_self]
        exact (KeyedQueue.perm_insert hget').mem_iff.mpr List.mem_cons_self
      · rintro ⟨t, ht, hsame⟩
        exact signedTx_ne_of_get hget t ht hsame
    · -- pending: what is parked was, and is another one
      rw [(insert_of_add hadd hok).2]
      left
      obtain ⟨pending', q, rest, l, hq, hparked, -, -, hrefiled, hrefiled', hpromote⟩ :=
        insert_promotes_of_above hfiled (hgo.above hadd) hadd
      rw [hpromote]
      unfold track
      dsimp only
      rw [hrefiled.queue_self, hrefiled'.queue_self, hq]
      constructor
      · exact ⟨ttx, List.mem_append_right _ List.mem_cons_self, rfl⟩
      · rintro ⟨t, ht, hsame⟩
        refine (hgo ⟨pending, hadd⟩).1 t ?_ hsame
        rw [hparked]
        exact List.mem_append_right _ ht

/-- On a chained queue, what an insertion leaves as promised did go on. -/
theorem InsertSound.goesOn {m : Mempool parkedMaxTxCount} (hfiled : m.Filed)
    {ttx : TimemarkedTransaction} {n : ℕ} {b : Balances}
    (hchained : (m.pending.queue ttx.address).Chained n) (hmax : ttx.nonce < u32Max)
    (h : InsertSound ttx n b m) : m.GoesOn (.insert ttx n b) := by
  rintro ⟨pending, hadd⟩
  have hok : (m.insert ttx n b).1 = .ok (.ok ()) := by
    have hnext : checkedAdd u32Max ttx.nonce 1 = some (ttx.nonce + 1) :=
      checkedAdd_eq_some.mpr ⟨rfl, hmax⟩
    unfold insert
    rw [hadd]
    dsimp only
    rw [hnext]
  obtain ⟨hget, -, -⟩ := TransactionsContainer.refiled_of_add hadd
  obtain ⟨-, q₀, hq₀, -⟩ := TransactionsContainer.add_eq_ok.mp hadd
  obtain ⟨-, hn, -⟩ := Queue.add_eq_ok.mp hq₀
  have habove := hchained.nonce_lt hn hget
  have hafter := hfiled.insert ttx n b
  have hone := h.inOne hok
  have hcontiguous := h.contiguous hok
  obtain ⟨pending', q, rest, l, hq, hparked, hrange, -, hrefiled, hrefiled', hpromote⟩ :=
    insert_promotes_of_above hfiled habove hadd
  rw [mem_held_iff hafter.1, mem_held_iff hafter.2] at hone
  change Xor (∃ t ∈ ((m.insert ttx n b).2.pending.queue ttx.address).items, _)
    (∃ t ∈ ((m.insert ttx n b).2.parked.queue ttx.address).items, _) at hone
  rw [(insert_of_add hadd hok).2, hpromote] at hone hcontiguous
  unfold track at hone hcontiguous
  dsimp only at hone hcontiguous
  rw [hrefiled.queue_self] at hone hcontiguous
  have hmem : ttx ∈ q.items := by
    rw [hq]
    exact List.mem_append_right _ List.mem_cons_self
  constructor
  · -- a parked copy hides all parked transactions behind it
    intro t ht hsame
    have hnonce : t.nonce = ttx.nonce := congrArg (fun tx => tx.params.nonce) hsame
    have hblocked : (m.parked.queue ttx.address).findPromotables (ttx.nonce + 1)
        (pending.subtractContainedCosts ttx.address b) = ([], m.parked.queue ttx.address) :=
      Queue.findPromotables_blocked ht (by omega)
    obtain ⟨-, hsplit⟩ := TransactionsContainer.findPromotables_refiled ttx.address (ttx.nonce + 1)
      (pending.subtractContainedCosts ttx.address b) m.parked
    rw [hblocked] at hsplit
    rw [hsplit.queue_self] at hone
    rcases hone with ⟨-, hnot⟩ | ⟨-, hnot⟩
    · exact hnot ⟨t, ht, hsame⟩
    · exact hnot ⟨ttx, hmem, rfl⟩
  · intro last hlast
    have hmemLast : last ∈ (m.pending.queue ttx.address).items := List.mem_of_getLast? hlast
    obtain ⟨r, hr, hnonce⟩ := hcontiguous.pred
      (by rw [hq]; exact List.mem_append_left _ hmemLast) hmem (habove last hmemLast)
    rw [hq] at hr
    rcases List.mem_append.mp hr with hr | hr
    · have hle := KeyedQueue.key_le_getLast hlast hr
      have := habove last hmemLast
      omega
    · have hge : ttx.nonce ≤ r.nonce := by
        have hr' : r.nonce ∈ (ttx :: l).map TimemarkedTransaction.nonce := List.mem_map_of_mem hr
        rw [map_nonce_cons hrange, List.mem_range'_1] at hr'
        exact hr'.1
      omega

/-- In a run in which what pending takes goes on from its queue, an insertion that does so leaves what it
promises.  On a queue that is chained from the account's nonce, no other one does. -/
theorem insert_sound {nonces : Nonces} {m : Mempool parkedMaxTxCount}
    (run : Run (fun _ _ m c => m.GoesOn c) nonces m) (ttx : TimemarkedTransaction) (n : ℕ)
    (b : Balances) :
    (m.GoesOn (.insert ttx n b) → InsertSound ttx n b m) ∧
      ((m.pending.queue ttx.address).Chained n → ttx.nonce < u32Max → InsertSound ttx n b m →
        m.GoesOn (.insert ttx n b)) :=
  ⟨InsertSound.of_goesOn run.contiguous run.filed, InsertSound.goesOn run.filed⟩

end

/-! ## A parked transaction, and one after a stale one -/

section

open TestUtils

set_option maxRecDepth 10000 in
theorem goesOn_early : (new 10).GoesOn (insertion early 0) := by
  rintro ⟨pending, hadd⟩
  have hgap : ((new 10).pending.add early 0 (nativeBalance 1)).isOk = false := by decide +kernel
  rw [hadd] at hgap
  exact absurd hgap Bool.false_ne_true.symm

set_option maxRecDepth 10000 in
/-- Alice's transaction with nonce 0 goes before the parked one. -/
theorem insert_sound_first : InsertSound (pooled [0] 0) 0 (nativeBalance 2) earlyParked := by
  have hpending : (earlyParked.pending.queue (pooled [0] 0).address).items.length = 0 := by
    decide +kernel
  have hparked : (earlyParked.parked.queue (pooled [0] 0).address).items.map
      TimemarkedTransaction.nonce = [1] := by
    decide +kernel
  refine (insert_sound (run_earlyParked goesOn_early) (pooled [0] 0) 0 (nativeBalance 2)).1
    fun _ => ⟨?_, ?_⟩
  · intro t ht hsame
    have hnonce : t.nonce ∈ [1] := hparked ▸ List.mem_map_of_mem ht
    have hzero : t.nonce = 0 := congrArg (fun tx => tx.params.nonce) hsame
    rw [hzero] at hnonce
    revert hnonce
    decide
  · intro last hlast
    rw [List.length_eq_zero_iff.mp hpending] at hlast
    cases hlast

/-- Alice's transaction with nonce 0 is pending. -/
def stale : Mempool 10 := (new 10).after (insertion (pooled [0] 0) 0)

set_option maxRecDepth 10000 in
/-- At alice's nonce 1 the parked transaction is taken again, and at her nonce 2 one is taken that leaves a
gap after the stale one. -/
theorem insert_unsound :
    Run (fun ν ν' _ _ => ν ≤ ν') (fun _ => 0) earlyParked ∧
      ¬ InsertSound early 1 (nativeBalance 1) earlyParked ∧
      Run (fun ν ν' _ _ => ν ≤ ν') (fun _ => 0) stale ∧
      ¬ InsertSound (pooled [2] 2) 2 (nativeBalance 2) stale := by
  have hrun : Run (fun ν ν' _ _ => ν ≤ ν') (fun _ => 0) earlyParked := run_earlyParked (le_refl _)
  refine ⟨hrun, ?_, .call (.new fun _ => 0) rfl (le_refl _), ?_⟩
  · intro h
    have hempty : (earlyParked.pending.queue early.address).items.length = 0 := by decide +kernel
    have hadd : (earlyParked.pending.add early 1 (nativeBalance 1)).isOk = true := by
      decide +kernel
    obtain ⟨pending, hadd⟩ :
        ∃ pending, earlyParked.pending.add early 1 (nativeBalance 1) = .ok pending := by
      cases hresult : earlyParked.pending.add early 1 (nativeBalance 1) with
      | ok pending => exact ⟨pending, rfl⟩
      | error e =>
        rw [hresult] at hadd
        exact absurd hadd Bool.false_ne_true
    -- the first insertion parked it
    have hfirst : ((new 10).insert early 0 (nativeBalance 1)).1 = .ok (.ok ()) := by rfl
    have hnew : (new 10).Contiguous := fun a => Queue.contiguous_empty
    have hsound := InsertSound.of_goesOn hnew filed_new goesOn_early
    have hparked : early.signedTx ∈ earlyParked.parked.held := by
      rcases hsound.inOne hfirst with ⟨hpending, -⟩ | ⟨hparked, -⟩
      · obtain ⟨t, ht, -⟩ := (mem_held_iff hrun.filed.1).mp hpending
        change t ∈ (earlyParked.pending.queue early.address).items at ht
        rw [List.length_eq_zero_iff.mp hempty] at ht
        exact absurd ht List.not_mem_nil
      · exact hparked
    obtain ⟨t, ht, hsame⟩ := (mem_held_iff hrun.filed.2).mp hparked
    have hchained : (earlyParked.pending.queue early.address).Chained 1 := by
      intro s hs
      rw [List.length_eq_zero_iff.mp hempty] at hs
      exact absurd hs List.not_mem_nil
    exact ((h.goesOn hrun.filed hchained (by decide)) ⟨pending, hadd⟩).1 t ht hsame
  · intro h
    have hok : (stale.insert (pooled [2] 2) 2 (nativeBalance 2)).1 = .ok (.ok ()) := by rfl
    obtain ⟨k, hk⟩ := h.contiguous hok
    have hnonces : ((stale.insert (pooled [2] 2) 2 (nativeBalance 2)).2.pending.queue
        (pooled [2] 2).address).items.map TimemarkedTransaction.nonce = [0, 2] := by
      decide +kernel
    have hlen := congrArg List.length hnonces
    rw [List.length_map] at hlen
    rw [hnonces, hlen] at hk
    change [0, 2] = [k, k + 1] at hk
    simp only [List.cons.injEq, and_true] at hk
    omega

end

end Mempool

end Astria.Sequencer
