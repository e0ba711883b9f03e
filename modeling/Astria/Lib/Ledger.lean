import Mathlib.Algebra.BigOperators.Group.Finset.Basic
import Mathlib.Algebra.GroupWithZero.Nat
import Mathlib.Algebra.Order.BigOperators.Group.Finset
import Mathlib.Data.Fintype.BigOperators

/-!
# Ledgers

A ledger gives every account a balance of every asset.  A posting debits at most one account
and then credits at most one, which may be the same.

Results:
* `total_credit`, `total_debit`: what an entry does to the total of an asset over all
  accounts;
* `total_post`, `total_post_of_balanced`: a posting changes the total by the difference of its
  entries, and a balanced one keeps it;
* `creditAll_apply`, `total_creditAll`: a list of credits arrives at its account exactly;
* `post_apply`: a posting changes every balance by the difference of its entries on the account;
* `le_post_of_ne`: a posting takes nothing from any account but the debited one;
* `moved_post`, `Moved.source_iff`: what a move does to every balance, and that it tells the account
  the amount is taken from;
* `Bounded.post`: a posting that fits keeps every balance under the bound.
-/

namespace Astria.Lib

/-- A balance for every account and asset. -/
abbrev Ledger (ι κ : Type) := ι → κ → ℕ

namespace Ledger

variable {ι κ : Type} [DecidableEq ι] [DecidableEq κ]

/-- Sets one balance. -/
def set (a : ι) (i : κ) (v : ℕ) (l : Ledger ι κ) : Ledger ι κ :=
  fun b j => if b = a ∧ j = i then v else l b j

def credit (a : ι) (i : κ) (n : ℕ) (l : Ledger ι κ) : Ledger ι κ := l.set a i (l a i + n)

def debit (a : ι) (i : κ) (n : ℕ) (l : Ledger ι κ) : Ledger ι κ := l.set a i (l a i - n)

theorem set_apply (a b : ι) (i j : κ) (v : ℕ) (l : Ledger ι κ) :
    l.set a i v b j = if b = a ∧ j = i then v else l b j := rfl

@[simp] theorem set_self (a : ι) (i : κ) (v : ℕ) (l : Ledger ι κ) : l.set a i v a i = v := by
  simp [set]

theorem set_of_ne {a b : ι} {i j : κ} (h : ¬(b = a ∧ j = i)) (v : ℕ) (l : Ledger ι κ) :
    l.set a i v b j = l b j := if_neg h

@[simp] theorem credit_self (a : ι) (i : κ) (n : ℕ) (l : Ledger ι κ) :
    l.credit a i n a i = l a i + n := set_self a i _ l

@[simp] theorem debit_self (a : ι) (i : κ) (n : ℕ) (l : Ledger ι κ) :
    l.debit a i n a i = l a i - n := set_self a i _ l

/-! ## One entry, balance by balance -/

theorem le_credit (a b : ι) (i j : κ) (n : ℕ) (l : Ledger ι κ) : l b j ≤ l.credit a i n b j := by
  unfold credit
  rw [set_apply]
  split_ifs with h
  · obtain ⟨rfl, rfl⟩ := h
    exact Nat.le_add_right _ _
  · exact le_rfl

theorem debit_of_ne {a b : ι} {i j : κ} (h : ¬(b = a ∧ j = i)) (n : ℕ) (l : Ledger ι κ) :
    l.debit a i n b j = l b j := set_of_ne h _ l

/-! ## Totals -/

section Total

variable [Fintype ι]

/-- The total of an asset over all accounts. -/
def total (l : Ledger ι κ) (i : κ) : ℕ := ∑ a, l a i

/-- The new balance takes the place of the old one in the total. -/
theorem total_set (a : ι) (i : κ) (v : ℕ) (l : Ledger ι κ) :
    (l.set a i v).total i + l a i = l.total i + v := by
  have hne : ∀ b ∈ Finset.univ.erase a, l.set a i v b i = l b i := fun b hb =>
    set_of_ne (fun h => Finset.ne_of_mem_erase hb h.1) v l
  unfold total
  rw [← Finset.add_sum_erase _ _ (Finset.mem_univ a),
    ← Finset.add_sum_erase Finset.univ (fun b => l b i) (Finset.mem_univ a),
    Finset.sum_congr rfl hne, set_self]
  omega

theorem total_set_of_ne {i j : κ} (h : j ≠ i) (a : ι) (v : ℕ) (l : Ledger ι κ) :
    (l.set a i v).total j = l.total j :=
  Finset.sum_congr rfl fun _ _ => set_of_ne (fun hc => h hc.2) v l

@[simp] theorem total_credit (a : ι) (i j : κ) (n : ℕ) (l : Ledger ι κ) :
    (l.credit a i n).total j = l.total j + if j = i then n else 0 := by
  unfold credit
  split_ifs with h
  · subst h
    have := total_set a j (l a j + n) l
    omega
  · exact total_set_of_ne h a _ l

theorem total_debit {a : ι} {i : κ} {n : ℕ} {l : Ledger ι κ} (hn : n ≤ l a i) (j : κ) :
    ((l.debit a i n).total j + if j = i then n else 0) = l.total j := by
  unfold debit
  split_ifs with h
  · subst h
    have := total_set a j (l a j - n) l
    omega
  · exact total_set_of_ne h a _ l

end Total

/-! ## Bounds -/

/-- Every balance is at most `max`. -/
def Bounded (max : ℕ) (l : Ledger ι κ) : Prop := ∀ a i, l a i ≤ max

theorem Bounded.credit {max n : ℕ} {l : Ledger ι κ} {a : ι} {i : κ} (h : l.Bounded max)
    (hn : l a i + n ≤ max) : (l.credit a i n).Bounded max := by
  intro b j
  unfold Ledger.credit
  rw [set_apply]
  split_ifs
  · exact hn
  · exact h b j

theorem Bounded.debit {max n : ℕ} {l : Ledger ι κ} {a : ι} {i : κ} (h : l.Bounded max) :
    (l.debit a i n).Bounded max := by
  intro b j
  unfold Ledger.debit
  rw [set_apply]
  split_ifs
  · exact (Nat.sub_le _ _).trans (h a i)
  · exact h b j

/-! ## Many credits -/

/-- The amount of an asset in a list of amounts. -/
def amountIn (i : κ) (es : List (κ × ℕ)) : ℕ := (es.map fun e => if i = e.1 then e.2 else 0).sum

/-- Credits a list of amounts to one account, one after the other. -/
def creditAll (a : ι) (es : List (κ × ℕ)) (l : Ledger ι κ) : Ledger ι κ :=
  es.foldl (fun l e => l.credit a e.1 e.2) l

omit [DecidableEq ι] in
@[simp] theorem amountIn_append (i : κ) (es fs : List (κ × ℕ)) :
    amountIn i (es ++ fs) = amountIn i es + amountIn i fs := by
  simp [amountIn]

/-- Exactly the amounts of the list arrive at the account, and nothing elsewhere. -/
theorem creditAll_apply (a b : ι) (j : κ) (es : List (κ × ℕ)) (l : Ledger ι κ) :
    l.creditAll a es b j = l b j + if b = a then amountIn j es else 0 := by
  induction es generalizing l with
  | nil => simp [creditAll, amountIn]
  | cons e es ih =>
    change (l.credit a e.1 e.2).creditAll a es b j = _
    rw [ih]
    by_cases hb : b = a
    · subst hb
      by_cases hj : j = e.1
      · subst hj
        simp only [credit_self, if_true, amountIn, List.map_cons, List.sum_cons]
        omega
      · have hne : ¬(b = b ∧ j = e.1) := fun h => hj h.2
        simp only [credit, set_of_ne hne, if_true, amountIn, List.map_cons, List.sum_cons, hj,
          if_false, zero_add]
    · have hne : ¬(b = a ∧ j = e.1) := fun h => hb h.1
      simp only [credit, set_of_ne hne, hb, if_false]

theorem total_creditAll [Fintype ι] (a : ι) (j : κ) (es : List (κ × ℕ)) (l : Ledger ι κ) :
    (l.creditAll a es).total j = l.total j + amountIn j es := by
  unfold total
  simp only [creditAll_apply, Finset.sum_add_distrib, Finset.sum_ite_eq', Finset.mem_univ, if_true]

end Ledger

/-! ## Postings -/

/-- An amount of an asset on one account. -/
structure Entry (ι κ : Type) where
  account : ι
  asset : κ
  amount : ℕ
  deriving DecidableEq

/-- A debit and a credit, either of which may be absent. -/
structure Posting (ι κ : Type) where
  debit : Option (Entry ι κ) := none
  credit : Option (Entry ι κ) := none
  deriving DecidableEq

/-- Moves an amount from one account to another, which may be the same. -/
def Posting.move {ι κ : Type} (source target : ι) (asset : κ) (amount : ℕ) : Posting ι κ :=
  { debit := some { account := source, asset := asset, amount := amount }
    credit := some { account := target, asset := asset, amount := amount } }

/-- The two sides are the same amount of the same asset. -/
def Posting.Balanced {ι κ : Type} (p : Posting ι κ) : Prop :=
  p.debit.map (fun e => (e.asset, e.amount)) = p.credit.map fun e => (e.asset, e.amount)

namespace Ledger

variable {ι κ : Type} [DecidableEq ι] [DecidableEq κ]

/-- The ledger after the debit of a posting. -/
def debited (p : Posting ι κ) (l : Ledger ι κ) : Ledger ι κ :=
  p.debit.elim l fun e => l.debit e.account e.asset e.amount

/-- The ledger after a posting. -/
def post (p : Posting ι κ) (l : Ledger ι κ) : Ledger ι κ :=
  p.credit.elim (l.debited p) fun e => (l.debited p).credit e.account e.asset e.amount

/-- The debited account has the amount and the credited one stays under `max`. -/
structure Fits (max : ℕ) (p : Posting ι κ) (l : Ledger ι κ) : Prop where
  covered : ∀ e ∈ p.debit, e.amount ≤ l e.account e.asset
  below : ∀ e ∈ p.credit, l.debited p e.account e.asset + e.amount ≤ max

@[simp] theorem post_empty (l : Ledger ι κ) : l.post {} = l := rfl

theorem fits_empty (max : ℕ) (l : Ledger ι κ) : l.Fits max {} :=
  ⟨fun _ he => (Option.not_mem_none _ he).elim, fun _ he => (Option.not_mem_none _ he).elim⟩

/-- A posting takes nothing from any account but the debited one. -/
theorem le_post_of_ne {p : Posting ι κ} {a : ι} (h : ∀ e ∈ p.debit, a ≠ e.account) (j : κ)
    (l : Ledger ι κ) : l a j ≤ l.post p a j := by
  have hdebit : l.debited p a j = l a j := by
    unfold debited
    cases hd : p.debit with
    | none => rfl
    | some e => exact debit_of_ne (fun he => h e hd he.1) _ l
  rw [← hdebit]
  unfold post
  cases p.credit with
  | none => exact le_rfl
  | some e => exact le_credit e.account a e.asset j e.amount _

/-- The amount of `i` that an entry carries. -/
def amountOf (i : κ) (e : Option (Entry ι κ)) : ℕ :=
  e.elim 0 fun e => if i = e.asset then e.amount else 0

/-- A posting changes the total by the difference of its entries. -/
theorem total_post [Fintype ι] {max : ℕ} {p : Posting ι κ} {l : Ledger ι κ} (h : l.Fits max p)
    (i : κ) : (l.post p).total i + amountOf i p.debit = l.total i + amountOf i p.credit := by
  have hdebit : (l.debited p).total i + amountOf i p.debit = l.total i := by
    unfold debited amountOf
    cases hd : p.debit with
    | none => rfl
    | some e => exact total_debit (h.covered e hd) i
  have hcredit : (l.post p).total i = (l.debited p).total i + amountOf i p.credit := by
    unfold post amountOf
    cases p.credit with
    | none => rfl
    | some e => exact total_credit _ _ _ _ _
  omega

/-- The amount of `i` that an entry carries on the account `a`. -/
def amountOn (a : ι) (i : κ) (e : Option (Entry ι κ)) : ℕ :=
  e.elim 0 fun e => if a = e.account ∧ i = e.asset then e.amount else 0

theorem credit_apply (a b : ι) (i j : κ) (n : ℕ) (l : Ledger ι κ) :
    l.credit a i n b j = l b j + if b = a ∧ j = i then n else 0 := by
  unfold credit
  rw [set_apply]
  split_ifs with h
  · rw [h.1, h.2]
  · rfl

theorem debit_apply {a : ι} {i : κ} {n : ℕ} {l : Ledger ι κ} (hn : n ≤ l a i) (b : ι) (j : κ) :
    (l.debit a i n b j + if b = a ∧ j = i then n else 0) = l b j := by
  unfold debit
  rw [set_apply]
  split_ifs with h
  · rw [h.1, h.2]
    omega
  · rfl

/-- A posting changes every balance by the difference of its entries on the account. -/
theorem post_apply {max : ℕ} {p : Posting ι κ} {l : Ledger ι κ} (h : l.Fits max p) (a : ι) (i : κ) :
    l.post p a i + amountOn a i p.debit = l a i + amountOn a i p.credit := by
  have hdebit : l.debited p a i + amountOn a i p.debit = l a i := by
    unfold debited amountOn
    cases hd : p.debit with
    | none => rfl
    | some e => exact debit_apply (h.covered e hd) a i
  have hcredit : l.post p a i = l.debited p a i + amountOn a i p.credit := by
    unfold post amountOn
    cases p.credit with
    | none => rfl
    | some e => exact credit_apply e.account a e.asset i e.amount _
  omega

/-- A balanced posting keeps the total of every asset. -/
theorem total_post_of_balanced [Fintype ι] {max : ℕ} {p : Posting ι κ} {l : Ledger ι κ}
    (hp : p.Balanced) (h : l.Fits max p) (i : κ) : (l.post p).total i = l.total i := by
  have hamount : amountOf i p.debit = amountOf i p.credit := by
    unfold Posting.Balanced at hp
    unfold amountOf
    cases hd : p.debit with
    | none =>
      rw [hd, Option.map_none, eq_comm, Option.map_eq_none_iff] at hp
      rw [hp]
    | some d =>
      obtain ⟨c, hc, heq⟩ := Option.map_eq_some_iff.mp (hp.symm.trans (by rw [hd]; rfl))
      rw [hc]
      simp only [Prod.mk.injEq] at heq
      simp only [Option.elim_some, heq.1, heq.2]
  have := total_post h i
  omega

/-! ### Moves and credits -/

theorem post_move_target {a b : ι} (h : a ≠ b) (i : κ) (n : ℕ) (l : Ledger ι κ) :
    l.post (.move a b i n) b i = l b i + n := by
  change (l.debit a i n).credit b i n b i = _
  rw [credit_self, debit_of_ne fun hc => h hc.1.symm]

theorem post_move_source {max : ℕ} {a b : ι} (h : a ≠ b) {i : κ} {n : ℕ} {l : Ledger ι κ}
    (hfits : l.Fits max (.move a b i n)) : l.post (.move a b i n) a i + n = l a i := by
  have hn : n ≤ l a i := hfits.covered _ rfl
  change (l.debit a i n).credit b i n a i + n = _
  unfold credit
  rw [set_of_ne (fun hc => h hc.1), debit_self]
  omega

/-- A move from an account to itself changes nothing of it. -/
theorem post_move_self {max : ℕ} {a : ι} {i : κ} {n : ℕ} {l : Ledger ι κ}
    (hfits : l.Fits max (.move a a i n)) : l.post (.move a a i n) a i = l a i := by
  have hn : n ≤ l a i := hfits.covered _ rfl
  change (l.debit a i n).credit a i n a i = _
  rw [credit_self, debit_self]
  omega

/-- An amount has moved from `a` to `b`, and nothing else. -/
def Moved (a b : ι) (i : κ) (n : ℕ) (l l' : Ledger ι κ) : Prop :=
  ∀ c j, (l' c j : ℤ) = l c j + (if c = b ∧ j = i then n else 0) - if c = a ∧ j = i then n else 0

theorem moved_post {max : ℕ} {a b : ι} {i : κ} {n : ℕ} {l : Ledger ι κ}
    (hfits : l.Fits max (.move a b i n)) : Moved a b i n l (l.post (.move a b i n)) := by
  intro c j
  have hn : n ≤ l a i := hfits.covered _ rfl
  change (((l.debit a i n).credit b i n c j : ℕ) : ℤ) = _
  unfold credit debit
  simp only [set_apply]
  split_ifs with htarget hself hsource <;> grind

/-- A move of a positive amount is from no other account. -/
theorem Moved.source_iff {a a' b : ι} {i : κ} {n : ℕ} {l l' : Ledger ι κ} (h : Moved a b i n l l') :
    Moved a' b i n l l' ↔ a = a' ∨ n = 0 := by
  constructor
  · intro h'
    by_contra hne
    rw [not_or] at hne
    have heq := (h a i).symm.trans (h' a i)
    rw [if_pos (show a = a ∧ i = i from ⟨rfl, rfl⟩),
      if_neg (show ¬(a = a' ∧ i = i) from fun hc => hne.1 hc.1)] at heq
    omega
  · rintro (rfl | rfl)
    · exact h
    · intro c j
      have := h c j
      simpa using this

@[simp] theorem post_credit (e : Entry ι κ) (l : Ledger ι κ) :
    l.post { credit := some e } = l.credit e.account e.asset e.amount := rfl

theorem credit_of_ne {a b : ι} {i j : κ} (h : ¬(b = a ∧ j = i)) (n : ℕ) (l : Ledger ι κ) :
    l.credit a i n b j = l b j := set_of_ne h _ l

theorem post_debit_self {max : ℕ} {e : Entry ι κ} {l : Ledger ι κ}
    (hfits : l.Fits max { debit := some e }) :
    l.post { debit := some e } e.account e.asset + e.amount = l e.account e.asset := by
  have hn : e.amount ≤ l e.account e.asset := hfits.covered _ rfl
  change l.debit e.account e.asset e.amount e.account e.asset + _ = _
  rw [debit_self]
  omega

/-- A debit that is covered leaves the ledger only if there is nothing to debit. -/
theorem post_debit_eq_self_iff {max : ℕ} {e : Entry ι κ} {l : Ledger ι κ}
    (hfits : l.Fits max { debit := some e }) : l.post { debit := some e } = l ↔ e.amount = 0 := by
  constructor
  · intro h
    have hdebit := post_debit_self hfits
    rw [h] at hdebit
    omega
  · intro h
    change l.set e.account e.asset (l e.account e.asset - e.amount) = l
    funext b j
    rw [set_apply, h]
    split_ifs with hself
    · rw [hself.1, hself.2, Nat.sub_zero]
    · rfl

theorem Bounded.post {max : ℕ} {p : Posting ι κ} {l : Ledger ι κ} (h : l.Bounded max)
    (hp : l.Fits max p) : (l.post p).Bounded max := by
  have hdebited : (l.debited p).Bounded max := by
    unfold debited
    cases p.debit with
    | none => exact h
    | some e => exact h.debit
  unfold Ledger.post
  cases hc : p.credit with
  | none => exact hdebited
  | some e => exact hdebited.credit (hp.below e hc)

end Ledger

end Astria.Lib
