import Mathlib.Data.List.Sort
import Mathlib.Order.Defs.LinearOrder

/-!
# The middle of a list

The one or two elements in the middle of a list that is put in order, and the median of integers: the
mean of the two, rounded down.

Results:
* `Middle.unique`: a list has at most one middle, and `exists_middle`: a list that is not empty has one;
* `Middle.perm`: the middle does not depend on the order of the list;
* `IsMedian.between`: the median is between the two elements in the middle.
-/

namespace Astria.Lib

variable {α : Type} [LinearOrder α]

/-- The elements in the middle of a list: the same one twice if their number is odd. -/
inductive Middle (l : List α) : α → α → Prop
  | odd {below above : List α} {x : α} (perm : (below ++ x :: above).Perm l)
      (sorted : (below ++ x :: above).Pairwise (· ≤ ·)) (length : below.length = above.length) :
      Middle l x x
  | even {below above : List α} {low high : α} (perm : (below ++ low :: high :: above).Perm l)
      (sorted : (below ++ low :: high :: above).Pairwise (· ≤ ·))
      (length : below.length = above.length) : Middle l low high

namespace Middle

variable {l l' : List α} {low high : α}

theorem perm (h : Middle l low high) (hperm : l.Perm l') : Middle l' low high := by
  cases h with
  | odd perm sorted length => exact .odd (perm.trans hperm) sorted length
  | even perm sorted length => exact .even (perm.trans hperm) sorted length

theorem le (h : Middle l low high) : low ≤ high := by
  cases h with
  | odd => exact le_rfl
  | even perm sorted length =>
    rw [List.pairwise_append, List.pairwise_cons] at sorted
    exact sorted.2.1.1 high (by simp)

theorem mem (h : Middle l low high) : low ∈ l ∧ high ∈ l := by
  cases h with
  | odd perm sorted length => exact ⟨perm.subset (by simp), perm.subset (by simp)⟩
  | even perm sorted length => exact ⟨perm.subset (by simp), perm.subset (by simp)⟩

/-- Two sorted lists of the same elements are equal, and the halves around the middle are as long. -/
theorem unique {low' high' : α} (h : Middle l low high) (h' : Middle l low' high') :
    low' = low ∧ high' = high := by
  cases h with
  | odd perm sorted length =>
    cases h' with
    | odd perm' sorted' length' =>
      have heq := (perm'.trans perm.symm).eq_of_pairwise' sorted' sorted
      have hlen := congrArg List.length heq
      simp only [List.length_append, List.length_cons] at hlen
      have := List.append_inj heq (by omega)
      simp_all
    | even perm' sorted' length' =>
      have hlen := (perm'.trans perm.symm).length_eq
      simp only [List.length_append, List.length_cons] at hlen
      omega
  | even perm sorted length =>
    cases h' with
    | odd perm' sorted' length' =>
      have hlen := (perm'.trans perm.symm).length_eq
      simp only [List.length_append, List.length_cons] at hlen
      omega
    | even perm' sorted' length' =>
      have heq := (perm'.trans perm.symm).eq_of_pairwise' sorted' sorted
      have hlen := congrArg List.length heq
      simp only [List.length_append, List.length_cons] at hlen
      have := List.append_inj heq (by omega)
      simp_all

end Middle

theorem middle_of_odd {l sorted : List α} (hperm : sorted.Perm l) (hsorted : sorted.Pairwise (· ≤ ·))
    (hodd : sorted.length % 2 = 1) {x : α} (hx : sorted[sorted.length / 2]? = some x) :
    Middle l x x := by
  obtain ⟨hlt, rfl⟩ := List.getElem?_eq_some_iff.mp hx
  have heq : sorted = sorted.take (sorted.length / 2) ++
      sorted[sorted.length / 2] :: sorted.drop (sorted.length / 2 + 1) := by
    rw [List.getElem_cons_drop, List.take_append_drop]
  rw [heq] at hperm hsorted
  refine .odd hperm hsorted ?_
  rw [List.length_take, List.length_drop]
  omega

theorem middle_of_even {l sorted : List α} (hperm : sorted.Perm l)
    (hsorted : sorted.Pairwise (· ≤ ·)) (heven : sorted.length % 2 = 0) {low high : α}
    (hpos : 0 < sorted.length) (hhigh : sorted[sorted.length / 2]? = some high)
    (hlow : sorted[sorted.length / 2 - 1]? = some low) : Middle l low high := by
  obtain ⟨hlt, rfl⟩ := List.getElem?_eq_some_iff.mp hhigh
  obtain ⟨hlt', rfl⟩ := List.getElem?_eq_some_iff.mp hlow
  have heq : sorted = sorted.take (sorted.length / 2 - 1) ++ sorted[sorted.length / 2 - 1] ::
      sorted[sorted.length / 2] :: sorted.drop (sorted.length / 2 + 1) := by
    have hsucc : sorted.length / 2 - 1 + 1 = sorted.length / 2 := by omega
    have hdrop : sorted[sorted.length / 2 - 1] :: sorted.drop (sorted.length / 2 - 1 + 1) =
        sorted.drop (sorted.length / 2 - 1) := List.getElem_cons_drop hlt'
    rw [List.getElem_cons_drop]
    rw [hsucc] at hdrop
    rw [hdrop, List.take_append_drop]
  rw [heq] at hperm hsorted
  refine .even hperm hsorted ?_
  rw [List.length_take, List.length_drop]
  omega

theorem exists_middle {l : List α} (h : l ≠ []) : ∃ low high, Middle l low high := by
  have hperm := List.perm_insertionSort (· ≤ ·) l
  have hsorted := List.pairwise_insertionSort (· ≤ ·) l
  have hpos : 0 < (l.insertionSort (· ≤ ·)).length := by
    rw [List.length_insertionSort]
    exact List.length_pos_iff.mpr h
  have hlt : (l.insertionSort (· ≤ ·)).length / 2 < (l.insertionSort (· ≤ ·)).length := by omega
  have hhigh := List.getElem?_eq_getElem hlt
  rcases Nat.mod_two_eq_zero_or_one (l.insertionSort (· ≤ ·)).length with heven | hodd
  · have hlt' : (l.insertionSort (· ≤ ·)).length / 2 - 1 < (l.insertionSort (· ≤ ·)).length := by
      omega
    exact ⟨_, _, middle_of_even hperm hsorted heven hpos hhigh (List.getElem?_eq_getElem hlt')⟩
  · exact ⟨_, _, middle_of_odd hperm hsorted hodd hhigh⟩

/-! ## The median of integers -/

/-- The mean of the two elements in the middle, rounded towards negative infinity. -/
def IsMedian (l : List ℤ) (m : ℤ) : Prop := ∃ low high, Middle l low high ∧ m = (low + high) / 2

namespace IsMedian

variable {l l' : List ℤ} {m : ℤ}

theorem iff_of_middle {low high : ℤ} (h : Middle l low high) :
    IsMedian l m ↔ m = (low + high) / 2 := by
  refine ⟨?_, fun hm => ⟨low, high, h, hm⟩⟩
  rintro ⟨low', high', h', rfl⟩
  obtain ⟨rfl, rfl⟩ := h.unique h'
  rfl

theorem between (h : IsMedian l m) : ∃ low high, Middle l low high ∧ low ≤ m ∧ m ≤ high := by
  obtain ⟨low, high, hmiddle, rfl⟩ := h
  have hle := hmiddle.le
  exact ⟨low, high, hmiddle, by omega, by omega⟩

end IsMedian

end Astria.Lib
