import Mathlib.Algebra.BigOperators.Group.List.Basic
import Mathlib.Algebra.GroupWithZero.Nat
import Mathlib.Algebra.Order.BigOperators.Group.List
import Mathlib.Logic.Function.Basic

/-!
# Budgets

A budget gives some kinds of goods an amount.  Spending takes a cost off the amount of its kind and
fails if there is too little; draining takes what there is.  A cost of nothing is never looked at.

Results:
* `exists_spendAll_iff`: a list of costs can be spent exactly if its total of every kind is within the
  budget, whatever the order of the costs;
* `amount_drainAll`: what draining a list leaves of every kind.
-/

namespace Astria.Lib

/-- The amounts of the kinds that have one. -/
abbrev Budget (κ : Type) := κ → Option ℕ

namespace Budget

variable {κ : Type} [DecidableEq κ]

/-- Why a cost could not be spent. -/
inductive Shortage (κ : Type) where
  | missing (k : κ)
  | short (k : κ)

/-- The amount of a kind, nothing if it has none. -/
def amount (b : Budget κ) (k : κ) : ℕ := (b k).getD 0

/-- Takes a cost off the amount of its kind. -/
def spend (k : κ) (c : ℕ) (b : Budget κ) : Except (Shortage κ) (Budget κ) :=
  if c = 0 then .ok b
  else
    match b k with
    | none => .error (.missing k)
    | some n => if c ≤ n then .ok (Function.update b k (some (n - c))) else .error (.short k)

/-- Takes off as much of a cost as there is. -/
def drain (k : κ) (c : ℕ) (b : Budget κ) : Budget κ :=
  if c = 0 then b
  else
    match b k with
    | none => b
    | some n => Function.update b k (some (n - c))

/-- Spends a list of costs, up to the first that cannot be spent. -/
def spendAll : List (κ × ℕ) → Budget κ → Except (Shortage κ) (Budget κ)
  | [], b => .ok b
  | (k, c) :: l, b =>
    match spend k c b with
    | .error e => .error e
    | .ok b => spendAll l b

def drainAll (l : List (κ × ℕ)) (b : Budget κ) : Budget κ :=
  l.foldl (fun b e => drain e.1 e.2 b) b

/-- The total of one kind in a list of costs. -/
def total (k : κ) (l : List (κ × ℕ)) : ℕ := (l.map fun e => if e.1 = k then e.2 else 0).sum

/-! ## Amounts -/

theorem amount_update (b : Budget κ) (k j : κ) (n : ℕ) :
    amount (Function.update b k (some n)) j = if j = k then n else amount b j := by
  unfold amount
  by_cases h : j = k
  · rw [if_pos h, h, Function.update_self, Option.getD_some]
  · rw [if_neg h, Function.update_of_ne h]

theorem total_cons (k : κ) (e : κ × ℕ) (l : List (κ × ℕ)) :
    total k (e :: l) = (if e.1 = k then e.2 else 0) + total k l := by
  unfold total
  rw [List.map_cons, List.sum_cons]

/-! ## One cost -/

theorem spend_eq_ok {k : κ} {c : ℕ} {b b' : Budget κ} (h : spend k c b = .ok b') :
    c ≤ amount b k ∧ ∀ j, amount b' j = amount b j - if k = j then c else 0 := by
  unfold spend at h
  split_ifs at h with hc
  · obtain rfl := Except.ok.inj h
    subst hc
    refine ⟨Nat.zero_le _, ?_⟩
    intro j
    rw [ite_self, Nat.sub_zero]
  · cases hb : b k with
    | none => rw [hb] at h; cases h
    | some n =>
      have hn : amount b k = n := by unfold amount; rw [hb, Option.getD_some]
      rw [hb] at h
      dsimp only at h
      split_ifs at h with hle
      obtain rfl := Except.ok.inj h
      refine ⟨by rw [hn]; exact hle, ?_⟩
      intro j
      rw [amount_update]
      by_cases hj : j = k
      · rw [if_pos hj, if_pos hj.symm, hj, hn]
      · rw [if_neg hj, if_neg (Ne.symm hj), Nat.sub_zero]

theorem exists_spend_iff {k : κ} {c : ℕ} {b : Budget κ} :
    (∃ b', spend k c b = .ok b') ↔ c ≤ amount b k := by
  constructor
  · rintro ⟨b', h⟩
    exact (spend_eq_ok h).1
  · intro h
    unfold spend
    by_cases hc : c = 0
    · exact ⟨b, if_pos hc⟩
    · rw [if_neg hc]
      unfold amount at h
      cases hb : b k with
      | none =>
        rw [hb, Option.getD_none] at h
        omega
      | some n =>
        rw [hb, Option.getD_some] at h
        exact ⟨_, if_pos h⟩

theorem amount_drain (k j : κ) (c : ℕ) (b : Budget κ) :
    amount (drain k c b) j = amount b j - if k = j then c else 0 := by
  unfold drain
  by_cases hc : c = 0
  · rw [if_pos hc, hc, ite_self, Nat.sub_zero]
  · rw [if_neg hc]
    cases hb : b k with
    | none =>
      dsimp only
      by_cases hj : k = j
      · subst hj
        unfold amount
        rw [hb, Option.getD_none, Nat.zero_sub]
      · rw [if_neg hj, Nat.sub_zero]
    | some n =>
      dsimp only
      rw [amount_update]
      by_cases hj : j = k
      · rw [if_pos hj, if_pos hj.symm, hj]
        unfold amount
        rw [hb, Option.getD_some]
      · rw [if_neg hj, if_neg (Ne.symm hj), Nat.sub_zero]

/-! ## Lists of costs -/

/-- What spending leaves, and that there was enough. -/
theorem spendAll_eq_ok {l : List (κ × ℕ)} {b b' : Budget κ} (h : spendAll l b = .ok b') (j : κ) :
    total j l ≤ amount b j ∧ amount b' j = amount b j - total j l := by
  induction l generalizing b with
  | nil =>
    obtain rfl := Except.ok.inj h
    exact ⟨Nat.zero_le _, rfl⟩
  | cons e l ih =>
    rw [spendAll] at h
    cases hs : spend e.1 e.2 b with
    | error r => rw [hs] at h; cases h
    | ok b₁ =>
      rw [hs] at h
      obtain ⟨hle, hb⟩ := spend_eq_ok hs
      obtain ⟨hl, hb'⟩ := ih h
      rw [total_cons, hb', hb j]
      rw [hb j] at hl
      by_cases hj : e.1 = j
      · rw [if_pos hj] at hl ⊢
        rw [hj] at hle
        omega
      · rw [if_neg hj] at hl ⊢
        omega

theorem exists_spendAll_iff {l : List (κ × ℕ)} {b : Budget κ} :
    (∃ b', spendAll l b = .ok b') ↔ ∀ k, total k l ≤ amount b k := by
  constructor
  · rintro ⟨b', h⟩ k
    exact (spendAll_eq_ok h k).1
  · intro h
    induction l generalizing b with
    | nil => exact ⟨b, rfl⟩
    | cons e l ih =>
      have hfirst : e.2 ≤ amount b e.1 := by
        have := h e.1
        rw [total_cons, if_pos rfl] at this
        omega
      obtain ⟨b₁, hs⟩ := exists_spend_iff.mpr hfirst
      rw [spendAll, hs]
      refine ih fun k => ?_
      have := h k
      rw [total_cons] at this
      rw [(spend_eq_ok hs).2 k]
      omega

theorem amount_drainAll (l : List (κ × ℕ)) (b : Budget κ) (j : κ) :
    amount (drainAll l b) j = amount b j - total j l := by
  induction l generalizing b with
  | nil => rfl
  | cons e l ih =>
    rw [drainAll, List.foldl_cons, ← drainAll, ih, amount_drain, total_cons]
    omega

end Budget

end Astria.Lib
