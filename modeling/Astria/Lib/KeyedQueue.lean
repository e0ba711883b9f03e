import Mathlib.Algebra.GroupWithZero.Nat
import Mathlib.Data.List.Nodup
import Mathlib.Data.Nat.Basic
import Mathlib.Order.Lattice

/-!
# Keyed queues

A queue of items by ascending key, one item for each key: a sorted map whose values carry their own
keys.

Results:
* `below_append_atLeast`: splitting at a key cuts the queue in two;
* `items_insert`, `items_insert_of_above`: where an item goes;
* `cut`: a cut of the items between two keys is the split at the upper one;
* `keys_eq_range'`: a queue of natural keys that starts at a number and misses no predecessor is
  contiguous.
-/

namespace Astria.Lib

/-- Items by ascending key. -/
structure KeyedQueue {α κ : Type} [LinearOrder κ] (key : α → κ) where
  items : List α
  ascending : items.Pairwise fun a b => key a < key b

namespace KeyedQueue

section

variable {α κ : Type} [LinearOrder κ] {key : α → κ}

def empty : KeyedQueue key := { items := [], ascending := List.Pairwise.nil }

/-- The item with a key. -/
def get (k : κ) (q : KeyedQueue key) : Option α := q.items.find? fun a => key a = k

/-- The items with smaller keys. -/
def below (k : κ) (q : KeyedQueue key) : KeyedQueue key :=
  { items := q.items.filter fun a => key a < k
    ascending := q.ascending.filter _ }

/-- The items with this key or a greater one. -/
def atLeast (k : κ) (q : KeyedQueue key) : KeyedQueue key :=
  { items := q.items.filter fun a => k ≤ key a
    ascending := q.ascending.filter _ }

/-- The items with greater keys. -/
def above (k : κ) (q : KeyedQueue key) : KeyedQueue key :=
  { items := q.items.filter fun a => k < key a
    ascending := q.ascending.filter _ }

theorem ascending_insert (a : α) (q : KeyedQueue key) :
    ((q.below (key a)).items ++ a :: (q.above (key a)).items).Pairwise
      fun a b => key a < key b := by
  have hbelow : ∀ b ∈ (q.below (key a)).items, key b < key a := by
    intro b hb
    exact of_decide_eq_true (List.mem_filter.mp hb).2
  have habove : ∀ b ∈ (q.above (key a)).items, key a < key b := by
    intro b hb
    exact of_decide_eq_true (List.mem_filter.mp hb).2
  rw [List.pairwise_append, List.pairwise_cons]
  refine ⟨(q.below (key a)).ascending, ⟨habove, (q.above (key a)).ascending⟩, ?_⟩
  intro b hb c hc
  rcases List.mem_cons.mp hc with rfl | hc
  · exact hbelow b hb
  · exact lt_trans (hbelow b hb) (habove c hc)

/-- The item goes to its place, instead of the one with the same key. -/
def insert (a : α) (q : KeyedQueue key) : KeyedQueue key :=
  { items := (q.below (key a)).items ++ a :: (q.above (key a)).items
    ascending := ascending_insert a q }

theorem ascending_map {f : α → α} (hf : ∀ a, key (f a) = key a) (q : KeyedQueue key) :
    (q.items.map f).Pairwise fun a b => key a < key b := by
  rw [List.pairwise_map]
  refine q.ascending.imp ?_
  intro a b h
  rwa [hf, hf]

/-- Changes every item in its place. -/
def map (f : α → α) (hf : ∀ a, key (f a) = key a) (q : KeyedQueue key) : KeyedQueue key :=
  { items := q.items.map f
    ascending := ascending_map hf q }

/-! ## Items -/

theorem ext {q q' : KeyedQueue key} (h : q.items = q'.items) : q = q' := by
  cases q
  cases q'
  cases h
  rfl

@[simp] theorem items_empty : (empty : KeyedQueue key).items = [] := rfl

@[simp] theorem mem_below {a : α} {k : κ} {q : KeyedQueue key} :
    a ∈ (q.below k).items ↔ a ∈ q.items ∧ key a < k := by
  unfold below
  rw [List.mem_filter, decide_eq_true_iff]

@[simp] theorem mem_atLeast {a : α} {k : κ} {q : KeyedQueue key} :
    a ∈ (q.atLeast k).items ↔ a ∈ q.items ∧ k ≤ key a := by
  unfold atLeast
  rw [List.mem_filter, decide_eq_true_iff]

theorem mem_of_get {a : α} {k : κ} {q : KeyedQueue key} (h : q.get k = some a) :
    a ∈ q.items ∧ key a = k := by
  unfold get at h
  exact ⟨List.mem_of_find?_eq_some h, by simpa using List.find?_some h⟩

theorem get_eq_none_iff {k : κ} {q : KeyedQueue key} :
    q.get k = none ↔ ∀ a ∈ q.items, key a ≠ k := by
  unfold get
  simp

/-- One item for each key. -/
theorem eq_of_key_eq {q : KeyedQueue key} {a b : α} (ha : a ∈ q.items) (hb : b ∈ q.items)
    (h : key a = key b) : a = b := by
  have hnodup : (q.items.map key).Nodup := by
    rw [List.Nodup, List.pairwise_map]
    exact q.ascending.imp ne_of_lt
  exact List.inj_on_of_nodup_map hnodup ha hb h

/-- The last item has the greatest key. -/
theorem key_le_getLast {q : KeyedQueue key} {a last : α} (hlast : q.items.getLast? = some last)
    (ha : a ∈ q.items) : key a ≤ key last := by
  obtain ⟨init, hinit⟩ := List.getLast?_eq_some_iff.mp hlast
  have hasc := q.ascending
  rw [hinit] at ha
  rw [hinit, List.pairwise_append] at hasc
  rcases List.mem_append.mp ha with h | h
  · exact le_of_lt (hasc.2.2 a h last List.mem_cons_self)
  · rw [List.mem_singleton.mp h]

/-! ## Splitting -/

/-- If the keys are below some key in one part of the items and not in the other, then splitting at it
gives the parts. -/
theorem cut {k : κ} {q : KeyedQueue key} {l r : List α} (h : q.items = l ++ r)
    (hl : ∀ a ∈ l, key a < k) (hr : ∀ a ∈ r, k ≤ key a) :
    (q.below k).items = l ∧ (q.atLeast k).items = r := by
  unfold below atLeast
  dsimp only
  rw [h, List.filter_append, List.filter_append]
  constructor
  · rw [List.filter_eq_self.mpr, List.filter_eq_nil_iff.mpr, List.append_nil]
    · intro a ha
      simpa using hr a ha
    · intro a ha
      simpa using hl a ha
  · rw [List.filter_eq_nil_iff.mpr, List.filter_eq_self.mpr, List.nil_append]
    · intro a ha
      simpa using hr a ha
    · intro a ha
      simpa using hl a ha

theorem below_append_atLeast (k : κ) (q : KeyedQueue key) :
    (q.below k).items ++ (q.atLeast k).items = q.items := by
  obtain ⟨l, h⟩ := q
  unfold below atLeast
  dsimp only
  induction l with
  | nil => rfl
  | cons a l ih =>
    by_cases ha : key a < k
    · rw [List.filter_cons_of_pos (by simpa using ha), List.filter_cons_of_neg (by simpa using ha),
        List.cons_append, ih (List.Pairwise.of_cons h)]
    · -- the first item is not below the key, so no other one is
      rw [List.filter_cons_of_neg (by simpa using ha), List.filter_cons_of_pos (by simpa using ha),
        List.filter_eq_nil_iff.mpr, List.filter_eq_self.mpr, List.nil_append]
      · intro b hb
        have := List.rel_of_pairwise_cons h hb
        exact decide_eq_true (le_trans (not_lt.mp ha) (le_of_lt this))
      · intro b hb
        have := List.rel_of_pairwise_cons h hb
        simpa using le_trans (not_lt.mp ha) (le_of_lt this)

/-! ## Insertion -/

/-- An item with a new key is put in, and nothing else changes. -/
theorem perm_insert {a : α} {q : KeyedQueue key} (h : q.get (key a) = none) :
    (q.insert a).items.Perm (a :: q.items) := by
  have hsame : (q.above (key a)).items = (q.atLeast (key a)).items := by
    unfold above atLeast
    refine List.filter_congr ?_
    intro b hb
    have hne := get_eq_none_iff.mp h b hb
    rw [decide_eq_decide]
    exact ⟨le_of_lt, fun hle => lt_of_le_of_ne hle (Ne.symm hne)⟩
  unfold insert
  dsimp only
  rw [hsame]
  refine List.perm_middle.trans ?_
  rw [below_append_atLeast]

/-- An item with a key above all others goes to the end. -/
theorem items_insert_of_above {a : α} {q : KeyedQueue key} (h : ∀ b ∈ q.items, key b < key a) :
    (q.insert a).items = q.items ++ [a] := by
  unfold insert below above
  dsimp only
  rw [List.filter_eq_self.mpr, List.filter_eq_nil_iff.mpr]
  · intro b hb
    simpa using le_of_lt (h b hb)
  · intro b hb
    simpa using h b hb

end

/-! ## Contiguous keys -/

section

variable {α : Type} {key : α → ℕ}

/-- The successor chain from a first key: an ascending list in which every key is the first one or the
successor of another. -/
theorem map_key_eq_range' {l : List α} (hl : l.Pairwise fun a b => key a < key b) {c : ℕ}
    (hge : ∀ a ∈ l, c ≤ key a) (hpred : ∀ a ∈ l, key a = c ∨ ∃ b ∈ l, key b + 1 = key a) :
    l.map key = List.range' c l.length := by
  induction l generalizing c with
  | nil => rfl
  | cons a l ih =>
    have habove : ∀ b ∈ l, key a < key b := fun b hb => List.rel_of_pairwise_cons hl hb
    -- the smallest key has no predecessor
    have ha : key a = c := by
      rcases hpred a List.mem_cons_self with h | ⟨b, hb, h⟩
      · exact h
      · rcases List.mem_cons.mp hb with rfl | hb
        · omega
        · have := habove b hb
          omega
    rw [List.map_cons, List.length_cons, List.range'_succ, ha]
    congr 1
    refine ih (List.Pairwise.of_cons hl) ?_ ?_
    · intro b hb
      have := habove b hb
      omega
    · intro b hb
      have hb' := habove b hb
      rcases hpred b (List.mem_cons_of_mem _ hb) with h | ⟨d, hd, h⟩
      · omega
      · rcases List.mem_cons.mp hd with rfl | hd
        · left
          omega
        · exact Or.inr ⟨d, hd, h⟩

theorem keys_eq_range' (q : KeyedQueue key) {c : ℕ} (hge : ∀ a ∈ q.items, c ≤ key a)
    (hpred : ∀ a ∈ q.items, key a = c ∨ ∃ b ∈ q.items, key b + 1 = key a) :
    q.items.map key = List.range' c q.items.length :=
  map_key_eq_range' q.ascending hge hpred

end

end KeyedQueue

end Astria.Lib
