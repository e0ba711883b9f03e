import Mathlib.Algebra.BigOperators.Group.List.Basic
import Mathlib.Data.List.AList
import Mathlib.Algebra.Order.Group.Multiset

/-!
# Sums over a map

The sum of a quantity over the values of an association list with distinct keys.

Results:
* `sumOf_insert`, `sumOf_erase`: how the sum changes with the value of one key;
* `exists_of_mem_sumOf`: what is in a sum of multisets is in one of them.
-/

namespace Astria.Lib.AssocSum

variable {K V M : Type} [DecidableEq K] [AddCommMonoid M]

/-- The sum of a quantity over the values. -/
def sumOf (f : V → M) (s : AList fun _ : K => V) : M := (s.entries.map fun e => f e.2).sum

/-- The quantity at one key, nothing if the key is absent. -/
def quantityAt (f : V → M) (k : K) (s : AList fun _ : K => V) : M := ((s.lookup k).map f).getD 0

theorem sumOf_erase (f : V → M) (k : K) (s : AList fun _ : K => V) :
    sumOf f (s.erase k) + quantityAt f k s = sumOf f s := by
  unfold sumOf quantityAt
  cases h : s.lookup k with
  | none =>
    have hk : k ∉ s.entries.keys := by
      rw [← List.dlookup_eq_none]
      exact h
    rw [Option.map_none, Option.getD_none, add_zero]
    show ((List.kerase k s.entries).map _).sum = _
    rw [List.kerase_of_notMem_keys hk]
  | some v =>
    have hmem : ⟨k, v⟩ ∈ s.entries := List.of_mem_dlookup h
    have hperm : s.entries.Perm (⟨k, v⟩ :: List.kerase k s.entries) := by
      obtain ⟨v', l₁, l₂, hk, hs, he⟩ :=
        List.exists_of_kerase (List.mem_keys_of_mem hmem)
      obtain rfl : v' = v := by
        have := List.dlookup_append l₁ (⟨k, v'⟩ :: l₂) k
        rw [← hs, List.dlookup_eq_none.mpr hk, List.dlookup_cons_eq] at this
        have h' : s.entries.dlookup k = some v := h
        rw [h'] at this
        exact (Option.some.inj this).symm
      rw [he]
      conv_lhs => rw [hs]
      exact List.perm_middle
    rw [Option.map_some, Option.getD_some, (hperm.map _).sum_eq, List.map_cons, List.sum_cons,
      add_comm]
    rfl

theorem sumOf_insert (f : V → M) (k : K) (v : V) (s : AList fun _ : K => V) :
    sumOf f (s.insert k v) + quantityAt f k s = sumOf f s + f v := by
  have h : sumOf f (s.insert k v) = f v + sumOf f (s.erase k) := by
    unfold sumOf
    rw [AList.entries_insert, List.map_cons, List.sum_cons]
    rfl
  rw [h, add_assoc, sumOf_erase, add_comm]

/-- What is in a sum of multisets is in the multiset at some key. -/
theorem exists_of_mem_sumOf {α : Type} {f : V → Multiset α} {x : α} {s : AList fun _ : K => V}
    (h : x ∈ sumOf f s) : ∃ k v, s.lookup k = some v ∧ x ∈ f v := by
  have hmem : ∃ e ∈ s.entries, x ∈ f e.2 := by
    unfold sumOf at h
    generalize s.entries = l at h ⊢
    induction l with
    | nil => exact absurd h (Multiset.notMem_zero x)
    | cons e l ih =>
      rw [List.map_cons, List.sum_cons, Multiset.mem_add] at h
      rcases h with h | h
      · exact ⟨e, List.mem_cons_self, h⟩
      · obtain ⟨e', he', hx⟩ := ih h
        exact ⟨e', List.mem_cons_of_mem _ he', hx⟩
  obtain ⟨e, he, hx⟩ := hmem
  exact ⟨e.1, e.2, AList.mem_lookup_iff.mpr he, hx⟩

end Astria.Lib.AssocSum
