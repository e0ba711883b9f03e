import Mathlib.Algebra.BigOperators.Group.List.Basic
import Mathlib.Algebra.GroupWithZero.Nat
import Mathlib.Algebra.Order.BigOperators.Group.List
import Mathlib.Algebra.Order.Group.Nat
import Mathlib.Data.List.Dedup
import Mathlib.Data.List.Perm.Subperm

/-!
# Tallies

A map collected from a list of weighted entries keeps the last entry under every key.  A tally adds up
the weights under a list of keys.

Results:
* `tally_le_total`: without repeated keys a tally is at most the total weight of the list;
* `tally_le_of_subset`: nor does it get smaller when keys are added.
-/

namespace Astria.Lib.Tally

variable {α κ : Type} [DecidableEq κ] (key : α → κ) (weight : α → ℕ)

/-- The entry under a key in the map collected from a list. -/
def lookup : List α → κ → Option α
  | [], _ => none
  | a :: as, k =>
    match lookup as k with
    | some b => some b
    | none => if key a = k then some a else none

/-- The weight under a key, zero if there is none. -/
def weightAt (as : List α) (k : κ) : ℕ := (lookup key as k).elim 0 weight

/-- The weights under a list of keys. -/
def tally (as : List α) (ks : List κ) : ℕ := (ks.map (weightAt key weight as)).sum

/-- The weight of a whole list. -/
def total (as : List α) : ℕ := (as.map weight).sum

theorem key_of_lookup {as : List α} {k : κ} {a : α} (h : lookup key as k = some a) :
    key a = k ∧ a ∈ as := by
  induction as with
  | nil => cases h
  | cons b bs ih =>
    rw [lookup] at h
    cases hb : lookup key bs k with
    | some c =>
      rw [hb] at h
      obtain rfl := Option.some.inj h
      obtain ⟨hk, hmem⟩ := ih hb
      exact ⟨hk, List.mem_cons_of_mem _ hmem⟩
    | none =>
      rw [hb] at h
      simp only at h
      split_ifs at h with hk
      obtain rfl := Option.some.inj h
      exact ⟨hk, List.mem_cons_self⟩

/-- An entry in front adds its weight under its own key at most. -/
theorem weightAt_cons_le (a : α) (as : List α) (k : κ) :
    weightAt key weight (a :: as) k ≤ weightAt key weight as k + if key a = k then weight a else 0 := by
  unfold weightAt
  rw [lookup]
  cases lookup key as k with
  | some b => exact Nat.le_add_right _ _
  | none =>
    by_cases hk : key a = k
    · simp [hk]
    · simp [hk]

theorem sum_ite_le {ks : List κ} (h : ks.Nodup) (k : κ) (n : ℕ) :
    (ks.map fun j => if k = j then n else 0).sum ≤ n := by
  induction ks with
  | nil => exact Nat.zero_le n
  | cons j js ih =>
    rw [List.nodup_cons] at h
    rw [List.map_cons, List.sum_cons]
    by_cases hj : k = j
    · have hzero : (js.map fun i => if k = i then n else 0).sum = 0 := by
        refine List.sum_eq_zero fun x hx => ?_
        obtain ⟨i, hi, rfl⟩ := List.mem_map.mp hx
        rw [if_neg]
        rintro rfl
        exact h.1 (hj ▸ hi)
      rw [if_pos hj, hzero, Nat.add_zero]
    · rw [if_neg hj, Nat.zero_add]
      exact ih h.2

/-- Without repeated keys a tally is at most the total weight. -/
theorem tally_le_total (as : List α) {ks : List κ} (h : ks.Nodup) :
    tally key weight as ks ≤ total weight as := by
  induction as with
  | nil =>
    refine Nat.le_of_eq (List.sum_eq_zero fun x hx => ?_)
    obtain ⟨k, -, rfl⟩ := List.mem_map.mp hx
    rfl
  | cons a as ih =>
    have hcons : tally key weight (a :: as) ks ≤
        tally key weight as ks + (ks.map fun k => if key a = k then weight a else 0).sum := by
      unfold tally
      rw [← List.sum_map_add]
      exact List.sum_le_sum fun k _ => weightAt_cons_le key weight a as k
    have hone := sum_ite_le h (key a) (weight a)
    have htotal : total weight (a :: as) = weight a + total weight as := by
      unfold total
      rw [List.map_cons, List.sum_cons]
    omega

/-- A tally does not get smaller when keys are added. -/
theorem tally_le_of_subset (as : List α) {ks js : List κ} (hks : ks.Nodup) (h : ks ⊆ js) :
    tally key weight as ks ≤ tally key weight as js := by
  obtain ⟨ls, hperm, hsub⟩ := hks.subperm h
  unfold tally
  rw [← (hperm.map (weightAt key weight as)).sum_eq]
  exact (hsub.map _).sum_le_sum fun _ _ => Nat.zero_le _

end Astria.Lib.Tally
