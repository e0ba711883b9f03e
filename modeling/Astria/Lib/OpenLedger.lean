import Astria.Lib.Ledger
import Mathlib.Algebra.BigOperators.Finprod

/-!
# Ledgers with any number of accounts

A ledger whose accounts are not finitely many, such as one that any name opens.  At any time finitely many
of them hold something, so there is a total.

Results:
* `FinitelyHeld.post`: a posting is made on finitely many accounts;
* `held_post`: it changes what is held by the difference of its entries.
-/

namespace Astria.Lib

namespace Ledger

variable {ι κ : Type} [DecidableEq ι] [DecidableEq κ]

/-- Finitely many accounts hold something of each asset. -/
def FinitelyHeld (l : Ledger ι κ) : Prop := ∀ i, (Function.support fun a => l a i).Finite

/-- What the accounts together hold of an asset. -/
noncomputable def held (l : Ledger ι κ) (i : κ) : ℕ := finsum fun a => l a i

/-- The accounts of a posting. -/
def accountsOf (p : Posting ι κ) : Finset ι :=
  (p.debit.map Entry.account).toFinset ∪ (p.credit.map Entry.account).toFinset

omit [DecidableEq ι] [DecidableEq κ] in
theorem finitelyHeld_zero : FinitelyHeld (fun _ _ => 0 : Ledger ι κ) := by
  intro i
  simp

omit [DecidableEq ι] [DecidableEq κ] in
@[simp] theorem held_zero (i : κ) : held (fun _ _ => 0 : Ledger ι κ) i = 0 := finsum_zero

omit [DecidableEq ι] [DecidableEq κ] in
/-- The total over any accounts that include all holders. -/
theorem held_eq_sum {l : Ledger ι κ} {i : κ} {S : Finset ι} (h : ∀ a ∉ S, l a i = 0) :
    l.held i = ∑ a ∈ S, l a i := by
  refine finsum_eq_sum_of_support_subset _ fun a ha => ?_
  by_contra hnot
  exact ha (h a hnot)

omit [DecidableEq ι] in
theorem amountIn_eq_zero {i : κ} {es : List (κ × ℕ)} (h : ∀ e ∈ es, e.1 ≠ i) : amountIn i es = 0 := by
  unfold amountIn
  refine List.sum_eq_zero fun n hn => ?_
  obtain ⟨e, he, rfl⟩ := List.mem_map.mp hn
  exact if_neg (h e he).symm

theorem amountOn_eq_zero {a : ι} {i : κ} {e : Option (Entry ι κ)}
    (h : a ∉ (e.map Entry.account).toFinset) : amountOn a i e = 0 := by
  cases e with
  | none => rfl
  | some e =>
    have hne : a ≠ e.account := by simpa using h
    exact if_neg fun hc => hne hc.1

/-- An entry on one of the accounts is all there is of it. -/
theorem sum_amountOn {i : κ} {e : Option (Entry ι κ)} {S : Finset ι}
    (h : (e.map Entry.account).toFinset ⊆ S) : ∑ a ∈ S, amountOn a i e = amountOf i e := by
  cases e with
  | none => simp [amountOn, amountOf]
  | some e =>
    have hmem : e.account ∈ S := h (by simp)
    have hrest : ∀ a ∈ S, a ≠ e.account → amountOn a i (some e) = 0 := fun a _ hne =>
      amountOn_eq_zero (by simpa using hne)
    rw [Finset.sum_eq_single_of_mem e.account hmem hrest]
    simp [amountOn, amountOf]

/-- No other account is touched. -/
theorem post_of_notMem {max : ℕ} {p : Posting ι κ} {l : Ledger ι κ} (h : l.Fits max p) {a : ι}
    (ha : a ∉ accountsOf p) (i : κ) : l.post p a i = l a i := by
  obtain ⟨hdebit, hcredit⟩ := Finset.notMem_union.mp ha
  have happly := post_apply h a i
  rw [amountOn_eq_zero hdebit, amountOn_eq_zero hcredit] at happly
  exact happly

theorem FinitelyHeld.post {max : ℕ} {p : Posting ι κ} {l : Ledger ι κ} (hl : l.FinitelyHeld)
    (h : l.Fits max p) : (l.post p).FinitelyHeld := by
  intro i
  refine ((hl i).union (accountsOf p).finite_toSet).subset fun a ha => ?_
  by_cases hmem : a ∈ accountsOf p
  · exact Or.inr hmem
  · refine Or.inl ?_
    change l.post p a i ≠ 0 at ha
    rw [post_of_notMem h hmem] at ha
    exact ha

/-- A posting changes what is held by the difference of its entries. -/
theorem held_post {max : ℕ} {p : Posting ι κ} {l : Ledger ι κ} (hl : l.FinitelyHeld)
    (h : l.Fits max p) (i : κ) :
    (l.post p).held i + amountOf i p.debit = l.held i + amountOf i p.credit := by
  let S := (hl i).toFinset ∪ accountsOf p
  have hholds : ∀ a ∉ S, l a i = 0 := fun a ha => by
    by_contra hne
    exact ha (Finset.mem_union_left _ ((hl i).mem_toFinset.mpr hne))
  have hpost : ∀ a ∉ S, l.post p a i = 0 := fun a ha => by
    rw [post_of_notMem h (fun hmem => ha (Finset.mem_union_right _ hmem)), hholds a ha]
  have hdebit : (p.debit.map Entry.account).toFinset ⊆ S :=
    Finset.subset_union_left.trans Finset.subset_union_right
  have hcredit : (p.credit.map Entry.account).toFinset ⊆ S :=
    Finset.subset_union_right.trans Finset.subset_union_right
  rw [held_eq_sum hholds, held_eq_sum hpost, ← sum_amountOn (i := i) hdebit,
    ← sum_amountOn (i := i) hcredit, ← Finset.sum_add_distrib, ← Finset.sum_add_distrib]
  exact Finset.sum_congr rfl fun a _ => post_apply h a i

end Ledger

end Astria.Lib
