import Astria.Sequencer.Mempool.Removal

/-!
# Retention in the removal cache

The cache keeps its hashes in a map and their order in a queue
(`crates/astria-sequencer/src/mempool/mod.rs`, lines 70–119).  `remove` only touches the map, so the
queue may hold a hash that is not in the map, and hold it twice once it is added again.

Results:
* `length_keys_run_le`: the cache never has more entries than its size;
* `retains_of_inOrder`: an added hash keeps its first reason until as many other hashes as the cache
  has room for have been added, if an addition drops a hash that is in the cache only while no hash is
  twice in the queue;
* `not_retains_readded`: a hash that is added again is dropped by its old place in the queue.
-/

namespace Astria.Sequencer

open Astria.Core Astria.Lib

namespace RemovalCache

/-! ## Specification -/

/-- What is done with a cache. -/
inductive Operation where
  | add (txHash : TransactionId) (reason : RemovalReason)
  | remove (txHash : TransactionId)
  deriving DecidableEq

def apply (c : RemovalCache) : Operation → RemovalCache
  | .add txHash reason => c.add txHash reason
  | .remove txHash => (c.remove txHash).2

def run (ops : List Operation) (c : RemovalCache) : RemovalCache := ops.foldl apply c

/-- The hash that an operation adds: none when it is in the cache. -/
def addedBy (c : RemovalCache) : Operation → Finset TransactionId
  | .add txHash _ => if (c.cache.lookup txHash).isSome then ∅ else {txHash}
  | .remove _ => ∅

/-- The hashes that operations one after the other add. -/
def added : List Operation → RemovalCache → Finset TransactionId
  | [], _ => ∅
  | op :: ops, c => c.addedBy op ∪ added ops (c.apply op)

/-- A hash that was added to the cache and not removed since has its first reason, unless as many other
hashes as there is room for were added after it. -/
def Retains (maxSize : ℕ) (ops : List Operation) : Prop :=
  ∀ before after txHash reason, ops = before ++ .add txHash reason :: after →
    ((new maxSize).run before).cache.lookup txHash = none → .remove txHash ∉ after →
    ((added after ((new maxSize).run (before ++ [.add txHash reason]))).erase txHash).card <
      maxSize →
    ((new maxSize).run ops).cache.lookup txHash = some reason

/-- The operation does not drop a hash that is in the cache while some hash is twice in the queue, with
the new hash at its end. -/
def InOrder (c : RemovalCache) : Operation → Prop
  | .add txHash _ =>
    c.cache.lookup txHash = none → c.removeQueue.length = c.maxSize →
      (c.removeQueue.head?.bind c.cache.lookup).isSome → (c.removeQueue ++ [txHash]).Nodup
  | .remove _ => True

/-- Every operation is in order where it is done. -/
def InOrderRun : List Operation → RemovalCache → Prop
  | [], _ => True
  | op :: ops, c => c.InOrder op ∧ InOrderRun ops (c.apply op)

instance (c : RemovalCache) : DecidablePred c.InOrder
  | .add txHash _ => inferInstanceAs (Decidable (c.cache.lookup txHash = none → _))
  | .remove _ => inferInstanceAs (Decidable True)

instance decidableInOrderRun : (ops : List Operation) → (c : RemovalCache) →
    Decidable (InOrderRun ops c)
  | [], _ => inferInstanceAs (Decidable True)
  | op :: ops, c =>
    have := decidableInOrderRun ops (c.apply op)
    inferInstanceAs (Decidable (c.InOrder op ∧ _))

/-! ## The number of entries -/

theorem run_append (before after : List Operation) (c : RemovalCache) :
    c.run (before ++ after) = (c.run before).run after := by
  unfold run
  exact List.foldl_append

theorem inOrderRun_append {before after : List Operation} {c : RemovalCache}
    (h : InOrderRun (before ++ after) c) : InOrderRun after (c.run before) := by
  induction before generalizing c with
  | nil => exact h
  | cons op before ih => exact ih h.2

/-- Every hash of the map is in the queue, which is not longer than the size. -/
structure Queued (c : RemovalCache) : Prop where
  mem_removeQueue : ∀ txHash, (c.cache.lookup txHash).isSome → txHash ∈ c.removeQueue
  length_le : c.removeQueue.length ≤ c.maxSize

theorem maxSize_makeRoom (c : RemovalCache) : c.makeRoom.maxSize = c.maxSize :=
  c.length_makeRoom.1

/-- There is room for one more hash afterwards. -/
theorem Queued.makeRoom {c : RemovalCache} (h : c.Queued) (hsize : 0 < c.maxSize) :
    c.makeRoom.Queued ∧ c.makeRoom.removeQueue.length < c.maxSize := by
  have hlength := h.length_le
  unfold RemovalCache.makeRoom
  cases hqueue : c.removeQueue with
  | nil =>
    refine ⟨h, ?_⟩
    rw [hqueue]
    exact hsize
  | cons removedTx rest =>
    rw [hqueue, List.length_cons] at hlength
    dsimp only
    rw [List.length_cons]
    split_ifs with hfull
    · refine ⟨⟨?_, ?_⟩, ?_⟩
      · intro txHash hin
        by_cases hsame : txHash = removedTx
        · rw [hsame, AList.lookup_erase] at hin
          exact absurd hin Bool.false_ne_true
        · rw [AList.lookup_erase_ne hsame] at hin
          have hmem := h.mem_removeQueue txHash hin
          rw [hqueue, List.mem_cons] at hmem
          exact hmem.resolve_left hsame
      · show rest.length ≤ c.maxSize
        omega
      · show rest.length < c.maxSize
        omega
    · refine ⟨h, ?_⟩
      rw [hqueue, List.length_cons]
      omega

theorem Queued.add {c : RemovalCache} (h : c.Queued) (hsize : 0 < c.maxSize)
    (txHash : TransactionId) (reason : RemovalReason) : (c.add txHash reason).Queued := by
  unfold RemovalCache.add
  split_ifs
  · exact h
  · obtain ⟨hroom, hlength⟩ := h.makeRoom hsize
    constructor
    · intro id hin
      dsimp only at hin ⊢
      rw [List.mem_append, List.mem_singleton]
      by_cases hsame : id = txHash
      · exact Or.inr hsame
      · rw [AList.lookup_insert_ne hsame] at hin
        exact Or.inl (hroom.mem_removeQueue id hin)
    · dsimp only
      rw [List.length_append, List.length_singleton, maxSize_makeRoom]
      omega

theorem Queued.remove {c : RemovalCache} (h : c.Queued) (txHash : TransactionId) :
    (c.remove txHash).2.Queued := by
  refine ⟨fun id hin => h.mem_removeQueue id ?_, h.length_le⟩
  by_cases hsame : id = txHash
  · rw [hsame] at hin
    exact absurd ((congrArg _ (AList.lookup_erase txHash c.cache)).symm.trans hin)
      Bool.false_ne_true
  · rwa [← AList.lookup_erase_ne hsame]

@[simp] theorem maxSize_apply (c : RemovalCache) (op : Operation) :
    (c.apply op).maxSize = c.maxSize := by
  cases op with
  | add txHash reason => exact (c.length_removeQueue_add txHash reason).1
  | remove txHash => rfl

theorem maxSize_run (ops : List Operation) (c : RemovalCache) :
    (c.run ops).maxSize = c.maxSize := by
  induction ops generalizing c with
  | nil => rfl
  | cons op ops ih => exact (ih (c.apply op)).trans (c.maxSize_apply op)

theorem Queued.run {c : RemovalCache} (h : c.Queued) (hsize : 0 < c.maxSize)
    (ops : List Operation) : (c.run ops).Queued := by
  induction ops generalizing c with
  | nil => exact h
  | cons op ops ih =>
    refine ih ?_ (by rwa [maxSize_apply])
    cases op with
    | add txHash reason => exact h.add hsize txHash reason
    | remove txHash => exact h.remove txHash

theorem queued_new (maxSize : ℕ) : (new maxSize).Queued :=
  ⟨fun _ hin => absurd hin Bool.false_ne_true, Nat.zero_le _⟩

/-- The map has no more entries than the queue has places. -/
theorem Queued.length_keys_le {c : RemovalCache} (h : c.Queued) :
    c.cache.keys.length ≤ c.maxSize := by
  refine (List.Subperm.length_le ?_).trans h.length_le
  refine c.cache.nodupKeys.subperm ?_
  intro txHash hmem
  exact h.mem_removeQueue txHash (AList.lookup_isSome.mpr hmem)

theorem length_keys_run_le {maxSize : ℕ} (hsize : 0 < maxSize) (ops : List Operation) :
    ((new maxSize).run ops).cache.keys.length ≤ maxSize := by
  have hqueued := (queued_new maxSize).run hsize ops
  have hkeys := hqueued.length_keys_le
  rwa [maxSize_run] at hkeys

/-! ## Retention -/

/-- A hash of the map has a reason, and the other hashes behind its last place in the queue are among
those that were added after it. -/
def Held (txHash : TransactionId) (reason : RemovalReason) (others : Finset TransactionId)
    (c : RemovalCache) : Prop :=
  c.cache.lookup txHash = some reason ∧
    ∃ older newer, c.removeQueue = older ++ txHash :: newer ∧ ∀ id ∈ newer, id ∈ others.erase txHash

variable {txHash : TransactionId} {reason : RemovalReason} {others : Finset TransactionId}
  {c : RemovalCache}

/-- A hash that was not in the map is held once it is added. -/
theorem held_add (h : c.cache.lookup txHash = none) : (c.add txHash reason).Held txHash reason ∅ := by
  have hout : ¬(c.cache.lookup txHash).isSome := by
    rw [h]
    exact Bool.false_ne_true
  unfold add
  rw [if_neg hout]
  refine ⟨AList.lookup_insert _, c.makeRoom.removeQueue, [], rfl, ?_⟩
  intro id hid
  exact absurd hid List.not_mem_nil

theorem Held.remove (h : c.Held txHash reason others) {id : TransactionId} (hne : txHash ≠ id) :
    (c.remove id).2.Held txHash reason others :=
  ⟨(AList.lookup_erase_ne hne).trans h.1, h.2⟩

/-- The new hash behind a held one. -/
theorem mem_newer_append {newer : List TransactionId} {id : TransactionId} (hne : id ≠ txHash)
    (hnewer : ∀ id ∈ newer, id ∈ others.erase txHash) :
    ∀ id' ∈ newer ++ [id], id' ∈ (others ∪ {id}).erase txHash := by
  intro id' hmem
  rw [Finset.mem_erase, Finset.mem_union, Finset.mem_singleton]
  rw [List.mem_append, List.mem_singleton] at hmem
  rcases hmem with hmem | rfl
  · have hother := Finset.mem_erase.mp (hnewer id' hmem)
    exact ⟨hother.1, Or.inl hother.2⟩
  · exact ⟨hne, Or.inr rfl⟩

/-- A list without duplicates has at most as many entries as a set that it lies in. -/
theorem length_le_card {l : List TransactionId} {s : Finset TransactionId} (hnodup : l.Nodup)
    (hmem : ∀ id ∈ l, id ∈ s) : l.length ≤ s.card := by
  rw [← List.toFinset_card_of_nodup hnodup]
  refine Finset.card_le_card ?_
  intro id hid
  exact hmem id (List.mem_toFinset.mp hid)

theorem addedBy_add (id : TransactionId) (reason' : RemovalReason) (c : RemovalCache) :
    c.addedBy (.add id reason') = if (c.cache.lookup id).isSome then ∅ else {id} :=
  rfl

/-- An addition in order keeps what is held while there is room. -/
theorem Held.add (h : c.Held txHash reason others) {id : TransactionId} {reason' : RemovalReason}
    (horder : c.InOrder (.add id reason'))
    (hroom : ((others ∪ c.addedBy (.add id reason')).erase txHash).card < c.maxSize) :
    (c.add id reason').Held txHash reason (others ∪ c.addedBy (.add id reason')) := by
  obtain ⟨hlookup, older, newer, hqueue, hnewer⟩ := h
  unfold RemovalCache.add
  by_cases hin : (c.cache.lookup id).isSome
  · rw [addedBy_add, if_pos hin, if_pos hin, Finset.union_empty]
    exact ⟨hlookup, older, newer, hqueue, hnewer⟩
  rw [addedBy_add, if_neg hin] at hroom
  rw [addedBy_add, if_neg hin, if_neg hin]
  have hnone : c.cache.lookup id = none := Option.not_isSome_iff_eq_none.mp hin
  have hne : id ≠ txHash := by
    rintro rfl
    rw [hnone] at hlookup
    exact absurd hlookup (by simp)
  have happended := mem_newer_append hne hnewer
  dsimp only
  -- the hash is in the map, so the entry that makes room is not its own
  have hkept : ∃ older', c.makeRoom.removeQueue = older' ++ txHash :: newer ∧
      c.makeRoom.cache.lookup txHash = some reason := by
    unfold makeRoom
    cases older with
    | nil =>
      rw [hqueue]
      dsimp only [List.nil_append]
      split_ifs with hfull
      · have hnodup := horder hnone (by rw [hqueue]; exact hfull)
          (by rw [hqueue]; exact Option.isSome_of_eq_some hlookup)
        rw [hqueue, List.nil_append, List.cons_append] at hnodup
        have hcard := length_le_card (List.nodup_cons.mp hnodup).2 happended
        rw [List.length_append, List.length_singleton] at hcard
        rw [List.length_cons] at hfull
        omega
      · exact ⟨[], hqueue, hlookup⟩
    | cons removedTx rest =>
      rw [hqueue]
      dsimp only [List.cons_append]
      split_ifs with hfull
      · refine ⟨rest, rfl, ?_⟩
        have hother : txHash ≠ removedTx := by
          rintro rfl
          have hnodup := horder hnone (by rw [hqueue]; exact hfull)
            (by rw [hqueue]; exact Option.isSome_of_eq_some hlookup)
          rw [hqueue, List.cons_append, List.cons_append] at hnodup
          exact (List.nodup_cons.mp hnodup).1 (by simp)
        exact (AList.lookup_erase_ne hother).trans hlookup
      · exact ⟨removedTx :: rest, hqueue, hlookup⟩
  obtain ⟨older', hqueue', hlookup'⟩ := hkept
  refine ⟨?_, older', newer ++ [id], ?_, happended⟩
  · rw [AList.lookup_insert_ne hne.symm]
    exact hlookup'
  · rw [hqueue', List.append_assoc, List.cons_append]

theorem Held.apply (h : c.Held txHash reason others) {op : Operation}
    (horder : c.InOrder op) (hop : op ≠ .remove txHash)
    (hroom : ((others ∪ c.addedBy op).erase txHash).card < c.maxSize) :
    (c.apply op).Held txHash reason (others ∪ c.addedBy op) := by
  cases op with
  | add id reason' => exact h.add horder hroom
  | remove id =>
    show (c.remove id).2.Held txHash reason (others ∪ ∅)
    rw [Finset.union_empty]
    refine h.remove ?_
    rintro rfl
    exact hop rfl

/-- A held hash keeps its reason over a run, while there is room for what the run adds. -/
theorem Held.run (h : c.Held txHash reason others) {ops : List Operation}
    (horder : InOrderRun ops c) (hops : .remove txHash ∉ ops)
    (hroom : ((others ∪ added ops c).erase txHash).card < c.maxSize) :
    (c.run ops).cache.lookup txHash = some reason := by
  induction ops generalizing c others with
  | nil => exact h.1
  | cons op ops ih =>
    rw [List.mem_cons, not_or] at hops
    rw [added, ← Finset.union_assoc] at hroom
    have hfirst : ((others ∪ c.addedBy op).erase txHash).card < c.maxSize :=
      (Finset.card_le_card
        (Finset.erase_subset_erase txHash Finset.subset_union_left)).trans_lt hroom
    refine ih (h.apply horder.1 (Ne.symm hops.1) hfirst) horder.2 hops.2 ?_
    rwa [maxSize_apply]

theorem retains_of_inOrder {maxSize : ℕ} {ops : List Operation}
    (horder : InOrderRun ops (new maxSize)) : Retains maxSize ops := by
  intro before after txHash reason hops hnew hremove hroom
  rw [hops, List.append_cons] at horder ⊢
  have hafter := inOrderRun_append horder
  rw [run_append]
  rw [run_append] at hafter hroom ⊢
  have hheld : (((new maxSize).run before).run [.add txHash reason]).Held txHash reason ∅ :=
    held_add hnew
  refine hheld.run hafter hremove ?_
  rwa [Finset.empty_union, maxSize_run, maxSize_run]

/-- In every run of additions and removals from the empty cache that is in order, an added hash stays
with its first reason while there is room; and there are never more entries than the size. -/
theorem retains_and_length_keys_le {maxSize : ℕ} (hsize : 0 < maxSize) (ops : List Operation) :
    (InOrderRun ops (new maxSize) → Retains maxSize ops) ∧
      ((new maxSize).run ops).cache.keys.length ≤ maxSize :=
  ⟨retains_of_inOrder, length_keys_run_le hsize ops⟩

/-! ### Test values -/

def hash0 : TransactionId := List.Vector.replicate 32 0

def hash1 : TransactionId := List.Vector.replicate 32 1

def hash2 : TransactionId := List.Vector.replicate 32 2

/-- Three hashes, one after the other. -/
def thirdHash : List Operation :=
  [.add hash0 .expired, .add hash1 .nonceStale, .add hash2 .expired]

/-- A hash that is added again, and another one. -/
def readded : List Operation :=
  [.add hash0 .expired, .remove hash0, .add hash0 .expired, .add hash1 .expired]

/-- The third of three hashes drops the first one; the second one stays. -/
theorem retains_and_length_keys_le_two :
    0 < 2 ∧ InOrderRun thirdHash (new 2) ∧ Retains 2 thirdHash ∧
      ((new 2).run thirdHash).cache.keys.length ≤ 2 :=
  have horder : InOrderRun thirdHash (new 2) := by decide
  ⟨by decide, horder, (retains_and_length_keys_le (by decide) thirdHash).1 horder,
    (retains_and_length_keys_le (by decide) thirdHash).2⟩

/-- A hash that is added, removed and added again is dropped by the next hash: the cache has room for
two, and its place from the first addition is the oldest one. -/
theorem not_retains_readded : ¬Retains 2 readded := by
  intro h
  have hkept := h [.add hash0 .expired, .remove hash0] [.add hash1 .expired] hash0 .expired rfl
    (by decide) (by decide) (by decide)
  exact absurd hkept (by decide)

end RemovalCache

end Astria.Sequencer
