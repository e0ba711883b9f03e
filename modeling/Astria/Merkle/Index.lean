import Astria.Lib.HashTree
import Astria.Merkle.Tree

/-!
# Indices of the nodes

The index arithmetic of `crates/astria-merkle/src/lib.rs`.  The node with index
`q * 2 ^ (l + 1) + (2 ^ l - 1)` is over the block of `2 ^ l` leaves that starts at leaf `q * 2 ^ l`;
the masks and shifts of the source step between such blocks.  In a tree that is not perfect some
blocks are not nodes of their own, and the source passes them over.

Results:
* `perfectParent_index`, `perfectLeftChild_index`, `perfectRightChild_index`: steps in a perfect tree;
* `completeRoot_eq`: where the root is;
* `completeParentLoop_index`: the parent is the first block above that is a node;
* `completeRightChild_index`: the right child is the right half of the block, or the leftmost part of
  it that has leaves;
* `completeParent_leftChild`, `completeParent_rightChild`, `leftChild_of_parent`,
  `rightChild_of_parent`: parent and child are inverse to each other.
-/

namespace Astria.Merkle

open Astria.Core Astria.Lib HashTree

/-! ## Indices -/

/-- The node over the block of `2 ^ l` leaves that starts at `q * 2 ^ l`. -/
def index (l q : ℕ) : ℕ := q * 2 ^ (l + 1) + (2 ^ l - 1)

theorem index_add_one (l q : ℕ) : index l q + 1 = 2 ^ l * (2 * q + 1) := by
  have hpos : 0 < 2 ^ l := Nat.two_pow_pos l
  have h : 2 ^ l * (2 * q + 1) = q * 2 ^ (l + 1) + 2 ^ l := by ring
  rw [h, index]
  omega

theorem index_zero (q : ℕ) : index 0 q = leafIndexToTreeIndex q := by
  unfold index leafIndexToTreeIndex
  omega

theorem index_inj {l q k r : ℕ} (h : index l q = index k r) : l = k ∧ q = r := by
  have h' : 2 ^ l * (2 * q + 1) = 2 ^ k * (2 * r + 1) := by
    rw [← index_add_one, ← index_add_one, h]
  clear h
  induction l generalizing k with
  | zero =>
    cases k with
    | zero => exact ⟨rfl, by omega⟩
    | succ k =>
      rw [pow_succ, Nat.mul_right_comm] at h'
      omega
  | succ l ih =>
    cases k with
    | zero =>
      rw [pow_succ, Nat.mul_right_comm] at h'
      omega
    | succ k =>
      rw [pow_succ, pow_succ, Nat.mul_right_comm, Nat.mul_right_comm (2 ^ k)] at h'
      obtain ⟨rfl, rfl⟩ := ih (Nat.eq_of_mul_eq_mul_right (by omega) h')
      exact ⟨rfl, rfl⟩

theorem testBit_index (l q i : ℕ) :
    (index l q).testBit i = if i < l + 1 then decide (i < l) else q.testBit (i - (l + 1)) := by
  have hlt : 2 ^ l - 1 < 2 ^ (l + 1) := by
    rw [pow_succ]
    have := Nat.two_pow_pos l
    omega
  rw [index, Nat.mul_comm, Nat.testBit_two_pow_mul_add q hlt, Nat.testBit_two_pow_sub_one]

theorem lastSetBit_two_pow_mul (l q : ℕ) : lastSetBit (2 ^ l * (2 * q + 1)) = 2 ^ l := by
  have hand : (2 ^ l * (2 * q + 1) - 1) &&& (2 ^ l * (2 * q + 1)) = q * 2 ^ (l + 1) := by
    apply Nat.eq_of_testBit_eq
    intro i
    rw [Nat.testBit_and, ← index_add_one, Nat.add_sub_cancel, testBit_index, index_add_one,
      Nat.testBit_two_pow_mul, Nat.testBit_mul_two_pow]
    rcases Nat.lt_trichotomy i l with h | rfl | h
    · rw [decide_eq_false (by omega : ¬ l ≤ i), decide_eq_false (by omega : ¬ l + 1 ≤ i),
        Bool.false_and, Bool.and_false, Bool.false_and]
    · rw [if_pos (by omega), decide_eq_false (by omega), Bool.false_and,
        decide_eq_false (by omega : ¬ i + 1 ≤ i), Bool.false_and]
    · obtain ⟨j, rfl⟩ : ∃ j, i = l + 1 + j := ⟨i - (l + 1), by omega⟩
      have hodd : (2 * q + 1) / 2 = q := by omega
      rw [if_neg (by omega), decide_eq_true (by omega), decide_eq_true (by omega), Bool.true_and,
        Bool.true_and, Nat.add_sub_cancel_left, Nat.add_assoc, Nat.add_sub_cancel_left,
        Nat.add_comm 1, Nat.testBit_succ, hodd, Bool.and_self]
  unfold lastSetBit
  have h : 2 ^ l * (2 * q + 1) = q * 2 ^ (l + 1) + 2 ^ l := by ring
  rw [hand, h, Nat.add_sub_cancel_left]

theorem lastZeroBit_index (l q : ℕ) : lastZeroBit (index l q) = 2 ^ l := by
  rw [lastZeroBit, index_add_one, lastSetBit_two_pow_mul]

theorem perfectParent_index (l q : ℕ) : perfectParent (index l q) = index (l + 1) (q / 2) := by
  apply Nat.eq_of_testBit_eq
  intro i
  rw [perfectParent, lastZeroBit_index, ← Nat.pow_succ']
  rw [Nat.testBit_ldiff, Nat.testBit_or, testBit_index, testBit_index, Nat.testBit_two_pow,
    Nat.testBit_two_pow]
  rcases Nat.lt_trichotomy i (l + 1) with h | rfl | h
  · by_cases hl : i < l
    · rw [if_pos h, if_pos (by omega), decide_eq_true hl, decide_eq_true h,
        decide_eq_false (by omega : ¬ l + 1 = i), Bool.or_true]
      rfl
    · rw [if_pos h, if_pos (by omega), decide_eq_true (by omega : l = i), decide_eq_true h,
        decide_eq_false (by omega : ¬ l + 1 = i), Bool.true_or]
      rfl
  · rw [if_pos (by omega : l + 1 < l + 1 + 1), decide_eq_true (rfl : l.succ = l + 1),
      decide_eq_false (by omega : ¬ l + 1 < l + 1)]
    exact Bool.and_false _
  · obtain ⟨j, rfl⟩ : ∃ j, i = l + 1 + (j + 1) := ⟨i - (l + 2), by omega⟩
    rw [if_neg (by omega), if_neg (by omega), decide_eq_false (by omega : ¬ l = l + 1 + (j + 1)),
      decide_eq_false (by omega : ¬ l + 1 = l + 1 + (j + 1)), Bool.false_or, Bool.not_false, Bool.and_true,
      Nat.add_sub_cancel_left, Nat.testBit_succ]
    congr 1
    omega

theorem perfectLeftChild_index (l q : ℕ) : perfectLeftChild (index (l + 1) q) = index l (2 * q) := by
  apply Nat.eq_of_testBit_eq
  intro i
  rw [perfectLeftChild, lastZeroBit_index, pow_succ, Nat.mul_div_cancel _ (by omega)]
  rw [Nat.testBit_ldiff, testBit_index, testBit_index, Nat.testBit_two_pow]
  rcases Nat.lt_trichotomy i l with h | rfl | h
  · rw [if_pos (by omega), if_pos (by omega), decide_eq_true (by omega : i < l + 1),
      decide_eq_true h, decide_eq_false (by omega)]
    rfl
  · rw [if_pos (by omega : i < i + 1), decide_eq_false (by omega : ¬ i < i), decide_eq_true rfl]
    exact Bool.and_false _
  · obtain ⟨j, rfl⟩ : ∃ j, i = l + 1 + j := ⟨i - (l + 1), by omega⟩
    rw [if_neg (by omega : ¬ l + 1 + j < l + 1), decide_eq_false (by omega : ¬ l = l + 1 + j),
      Bool.not_false, Bool.and_true, Nat.add_sub_cancel_left]
    cases j with
    | zero =>
      rw [if_pos (by omega), decide_eq_false (by omega), Nat.testBit_zero, decide_eq_false (by omega)]
    | succ j =>
      have hhalf : 2 * q / 2 = q := by omega
      rw [if_neg (by omega), Nat.testBit_succ, hhalf]
      congr 1
      omega

theorem perfectRightChild_index (l q : ℕ) :
    perfectRightChild (index (l + 1) q) = index l (2 * q + 1) := by
  apply Nat.eq_of_testBit_eq
  intro i
  rw [perfectRightChild, lastZeroBit_index, pow_succ, Nat.mul_div_cancel _ (by omega), ← pow_succ]
  rw [Nat.testBit_ldiff, Nat.testBit_or, testBit_index, testBit_index, Nat.testBit_two_pow,
    Nat.testBit_two_pow]
  rcases Nat.lt_trichotomy i l with h | rfl | h
  · rw [if_pos (by omega), if_pos (by omega), decide_eq_true (by omega : i < l + 1),
      decide_eq_true h, decide_eq_false (by omega : ¬ l = i), Bool.true_or]
    rfl
  · rw [if_pos (by omega : i < i + 1), decide_eq_false (by omega : ¬ i < i), decide_eq_true rfl]
    exact Bool.and_false _
  · obtain ⟨j, rfl⟩ : ∃ j, i = l + 1 + j := ⟨i - (l + 1), by omega⟩
    rw [if_neg (by omega : ¬ l + 1 + j < l + 1), decide_eq_false (by omega : ¬ l = l + 1 + j),
      Bool.not_false, Bool.and_true, Nat.add_sub_cancel_left]
    cases j with
    | zero =>
      rw [if_pos (by omega), decide_eq_true (by omega : l + 1 = l + 1 + 0), Bool.or_true,
        Nat.testBit_zero, decide_eq_true (by omega)]
    | succ j =>
      have hhalf : (2 * q + 1) / 2 = q := by omega
      rw [if_neg (by omega), decide_eq_false (by omega), Bool.or_false, Nat.testBit_succ, hhalf]
      congr 1
      omega

theorem clog_two_mul {m : ℕ} (hm : 0 < m) : Nat.clog 2 (2 * m) = Nat.clog 2 m + 1 := by
  have hhalf : (2 * m + 2 - 1) / 2 = m := by omega
  rw [Nat.clog_of_one_lt (by omega) (by omega), hhalf]

theorem completeRoot_eq {m : ℕ} (hm : 0 < m) :
    completeRoot (2 * m - 1) = index (Nat.clog 2 m) 0 := by
  have hsucc : 2 * m - 1 + 1 = 2 * m := by omega
  rw [completeRoot, nextPowerOfTwo, hsucc, clog_two_mul hm, pow_succ, index]
  omega

/-! ## The nodes of a tree with `m` leaves -/

/-- The block is a node of its own: its right half has a leaf, or it is a leaf. -/
def IsNode (m l q : ℕ) : Prop := 2 ^ l * (2 * q + 1) < 2 * m

theorem index_lt_iff {m l q : ℕ} : index l q < 2 * m - 1 ↔ IsNode m l q := by
  have h := index_add_one l q
  unfold IsNode
  omega

theorem isNode_zero {m q : ℕ} : IsNode m 0 q ↔ q < m := by
  unfold IsNode
  omega

theorem isNode_succ {m l q : ℕ} : IsNode m (l + 1) q ↔ (2 * q + 1) * 2 ^ l < m := by
  have h : 2 ^ (l + 1) * (2 * q + 1) = 2 * ((2 * q + 1) * 2 ^ l) := by ring
  unfold IsNode
  omega

/-- A node has a leaf. -/
theorem IsNode.start_lt {m l q : ℕ} (h : IsNode m l q) : q * 2 ^ l < m := by
  have h' : 2 ^ l * (2 * q + 1) = 2 * (q * 2 ^ l) + 2 ^ l := by ring
  have hpos : 0 < 2 ^ l := Nat.two_pow_pos l
  unfold IsNode at h
  omega

theorem isNode_root {m : ℕ} (hm : 0 < m) : IsNode m (Nat.clog 2 m) 0 := by
  rcases Nat.lt_or_ge 1 m with h | h
  · obtain ⟨l, hl⟩ : ∃ l, Nat.clog 2 m = l + 1 :=
      ⟨Nat.clog 2 m - 1, by have := Nat.clog_pos (b := 2) (by omega) h; omega⟩
    have hlt := Nat.pow_pred_clog_lt_self (b := 2) (by omega) h
    rw [hl] at hlt ⊢
    rw [isNode_succ, Nat.mul_zero, Nat.zero_add, Nat.one_mul]
    exact hlt
  · rw [Nat.clog_of_right_le_one h, isNode_zero]
    exact hm

/-- Above the root there is nothing, and beside it neither. -/
theorem IsNode.le_root {m l q : ℕ} (h : IsNode m l q) :
    l < Nat.clog 2 m ∨ (l = Nat.clog 2 m ∧ q = 0) := by
  have hm := Nat.le_pow_clog (b := 2) (by omega) m
  rcases Nat.lt_trichotomy l (Nat.clog 2 m) with hl | hl | hl
  · exact Or.inl hl
  · refine Or.inr ⟨hl, ?_⟩
    have hstart := h.start_lt
    rw [← hl] at hm
    by_contra hq
    have : 1 * 2 ^ l ≤ q * 2 ^ l := Nat.mul_le_mul_right _ (by omega)
    omega
  · exfalso
    obtain ⟨k, rfl⟩ : ∃ k, l = k + 1 := ⟨l - 1, by omega⟩
    rw [isNode_succ] at h
    have hpow : 2 ^ Nat.clog 2 m ≤ 2 ^ k := Nat.pow_le_pow_right (by omega) (by omega)
    have : 1 * 2 ^ k ≤ (2 * q + 1) * 2 ^ k := Nat.mul_le_mul_right _ (by omega)
    omega

/-- A block is the leftmost part, of `2 ^ l` leaves, of the block `r` that is `d` levels above it,
and that one has no other leaves. -/
def Leftmost (m l d r : ℕ) : Prop := d = 0 ∨ m ≤ r * 2 ^ (l + d) + 2 ^ l

theorem Leftmost.cut_eq {m l d r : ℕ} (h : Leftmost m l d r) (f : ℕ → Bytes) :
    cut f m (l + d) r = cut f m l (r * 2 ^ d) := by
  rcases h with rfl | h
  · rw [Nat.add_zero, pow_zero, Nat.mul_one]
  · exact cut_eq_leftmost d h

/-- None of the blocks between the two is a node of its own. -/
theorem Leftmost.not_isNode {m l d r e : ℕ} (h : Leftmost m l d r) (he : 0 < e) (hed : e ≤ d) :
    ¬ IsNode m (l + e) (r * 2 ^ (d - e)) := by
  intro hnode
  obtain ⟨k, rfl⟩ : ∃ k, e = k + 1 := ⟨e - 1, by omega⟩
  obtain ⟨j, rfl⟩ : ∃ j, d = k + 1 + j := ⟨d - (k + 1), by omega⟩
  rw [← Nat.add_assoc, isNode_succ, Nat.add_sub_cancel_left] at hnode
  have hmid : (2 * (r * 2 ^ j) + 1) * 2 ^ (l + k) = r * 2 ^ (l + (k + 1 + j)) + 2 ^ (l + k) := by
    ring
  have hle : 2 ^ l ≤ 2 ^ (l + k) := Nat.pow_le_pow_right (by omega) (by omega)
  rcases h with h | h <;> omega

/-- The same for a block that contains the last leaf, whatever its level. -/
theorem Leftmost.not_isNode_last {m l d r a : ℕ} (h : Leftmost m l d r)
    (hr : (m - 1) / 2 ^ l = r * 2 ^ d) (hla : l < a) (had : a ≤ l + d) :
    ¬ IsNode m a ((m - 1) / 2 ^ a) := by
  obtain ⟨e, rfl⟩ : ∃ e, a = l + e := ⟨a - l, by omega⟩
  obtain ⟨j, rfl⟩ : ∃ j, d = e + j := ⟨d - e, by omega⟩
  have hnot := h.not_isNode (e := e) (by omega) (by omega)
  have hblock : (m - 1) / 2 ^ (l + e) = r * 2 ^ j := by
    rw [pow_add, ← Nat.div_div_eq_div_mul, hr, Nat.add_comm e j, pow_add, ← Nat.mul_assoc,
      Nat.mul_div_cancel _ (Nat.two_pow_pos e)]
  rw [Nat.add_sub_cancel_left] at hnot
  rw [hblock]
  exact hnot

/-- The loop of `complete_parent` stops at the first ancestor that is a node. -/
theorem completeParentLoop_index (fuel : ℕ) {m l q : ℕ} (hq : q * 2 ^ l < m)
    (hl : l < Nat.clog 2 m) (hfuel : Nat.clog 2 m ≤ l + fuel) :
    ∃ d r, q = r * 2 ^ d ∧ IsNode m (l + d + 1) (r / 2) ∧ Leftmost m l d r ∧
      completeParentLoop fuel (index l q) (2 * m - 1) = some (index (l + d + 1) (r / 2)) := by
  induction fuel generalizing l q with
  | zero => omega
  | succ fuel ih =>
    rw [completeParentLoop, perfectParent_index]
    by_cases hnode : IsNode m (l + 1) (q / 2)
    · rw [if_pos (index_lt_iff.mpr hnode)]
      exact ⟨0, q, by rw [pow_zero, Nat.mul_one], hnode, Or.inl rfl, rfl⟩
    · rw [if_neg (by rw [index_lt_iff]; exact hnode)]
      have hle : m ≤ (2 * (q / 2) + 1) * 2 ^ l := by
        rw [isNode_succ] at hnode
        omega
      -- the block has a leaf, so it is a left half
      have heven : q = 2 * (q / 2) := by
        by_contra hodd
        have : q = 2 * (q / 2) + 1 := by omega
        rw [← this] at hle
        omega
      have hdouble : 2 * (q / 2) * 2 ^ l = q / 2 * 2 ^ (l + 1) := by ring
      have hstart : q / 2 * 2 ^ (l + 1) < m := by
        rw [← hdouble, ← heven]
        exact hq
      have hl' : l + 1 < Nat.clog 2 m := by
        by_contra hge
        have hroot := isNode_root (m := m) (by omega)
        have heq : Nat.clog 2 m = l + 1 := by omega
        have hpow := Nat.le_pow_clog (b := 2) (by omega) m
        rw [heq] at hroot hpow
        have hzero : q / 2 = 0 := by
          by_contra hne
          have : 1 * 2 ^ (l + 1) ≤ q / 2 * 2 ^ (l + 1) := Nat.mul_le_mul_right _ (by omega)
          omega
        rw [hzero] at hnode
        exact hnode hroot
      obtain ⟨d, r, hr, hparent, -, hloop⟩ := ih hstart hl' (by omega)
      refine ⟨d + 1, r, ?_, ?_, Or.inr ?_, ?_⟩
      · rw [heven, hr]
        ring
      · rw [← Nat.add_assoc, Nat.add_right_comm l d 1]
        exact hparent
      · have hsum : (2 * (q / 2) + 1) * 2 ^ l = r * 2 ^ (l + (d + 1)) + 2 ^ l := by
          rw [hr]
          ring
        omega
      · rw [hloop, ← Nat.add_assoc, Nat.add_right_comm l d 1]

/-- Left children are on the left of their parent, right children on its right. -/
theorem index_lt_parent_iff {l d r : ℕ} :
    index l (r * 2 ^ d) < index (l + d + 1) (r / 2) ↔ r % 2 = 0 := by
  have hchild : 2 ^ l * (2 * (r * 2 ^ d) + 1) = 2 * (r * 2 ^ (l + d)) + 2 ^ l := by ring
  have hparent : 2 ^ (l + d + 1) * (2 * (r / 2) + 1) =
      2 * (2 * (r / 2) * 2 ^ (l + d)) + 2 * 2 ^ (l + d) := by ring
  have h₁ := index_add_one l (r * 2 ^ d)
  have h₂ := index_add_one (l + d + 1) (r / 2)
  have hpos : 0 < 2 ^ l := Nat.two_pow_pos l
  have hle : 2 ^ l ≤ 2 ^ (l + d) := Nat.pow_le_pow_right (by omega) (by omega)
  rcases Nat.mod_two_eq_zero_or_one r with h | h
  · have heven : 2 * (r / 2) = r := by omega
    have hmul : 2 * (r / 2) * 2 ^ (l + d) = r * 2 ^ (l + d) := by rw [heven]
    omega
  · have hodd : r = 2 * (r / 2) + 1 := by omega
    have hmul : r * 2 ^ (l + d) = 2 * (r / 2) * 2 ^ (l + d) + 2 ^ (l + d) := by
      rw [← Nat.succ_mul, Nat.succ_eq_add_one, ← hodd]
    omega

/-! ## Children -/

theorem IsNode.left {m l q : ℕ} (h : IsNode m (l + 1) q) : IsNode m l (2 * q) := by
  have h₁ : 2 ^ (l + 1) * (2 * q + 1) = 4 * (q * 2 ^ l) + 2 * 2 ^ l := by ring
  have h₂ : 2 ^ l * (2 * (2 * q) + 1) = 4 * (q * 2 ^ l) + 2 ^ l := by ring
  unfold IsNode at h ⊢
  omega

/-- The right child is the right half, or the leftmost part of it that has leaves. -/
theorem completeRightChild_index {m l q : ℕ} (h : IsNode m (l + 1) q) :
    ∃ k d, l = k + d ∧ IsNode m k ((2 * q + 1) * 2 ^ d) ∧ Leftmost m k d (2 * q + 1) ∧
      completeRightChild (index (l + 1) q) (2 * m - 1) = index k ((2 * q + 1) * 2 ^ d) := by
  rw [completeRightChild, perfectRightChild_index]
  by_cases hright : IsNode m l (2 * q + 1)
  · rw [if_pos (index_lt_iff.mpr hright)]
    exact ⟨l, 0, rfl, by rw [pow_zero, Nat.mul_one]; exact hright, Or.inl rfl,
      by rw [pow_zero, Nat.mul_one]⟩
  · rw [if_neg (by rw [index_lt_iff]; exact hright)]
    have hmid := isNode_succ.mp h
    obtain ⟨m', hm'⟩ : ∃ m', m = (2 * q + 1) * 2 ^ l + m' := Nat.exists_eq_add_of_le hmid.le
    have hpos : 0 < m' := by omega
    have hindex := index_add_one (l + 1) q
    have hdouble : 2 ^ (l + 1) * (2 * q + 1) = 2 * ((2 * q + 1) * 2 ^ l) := by ring
    have hrest : 2 * m - 1 - (index (l + 1) q + 1) = 2 * m' - 1 := by omega
    have hsmall : 2 * m' ≤ 2 ^ l := by
      have : 2 ^ l * (2 * (2 * q + 1) + 1) = 2 * ((2 * q + 1) * 2 ^ l) + 2 ^ l := by ring
      unfold IsNode at hright
      omega
    have hle : Nat.clog 2 m' ≤ l := Nat.clog_le_of_le_pow (by omega)
    obtain ⟨d, hd⟩ : ∃ d, l = Nat.clog 2 m' + d := Nat.exists_eq_add_of_le hle
    have hshift : (2 * q + 1) * 2 ^ d * 2 ^ (Nat.clog 2 m' + 1) = 2 * ((2 * q + 1) * 2 ^ l) := by
      conv_rhs => rw [hd]
      ring
    refine ⟨Nat.clog 2 m', d, hd, ?_, Or.inr ?_, ?_⟩
    · have hroot := isNode_root hpos
      rw [← index_lt_iff] at hroot ⊢
      unfold index at hroot ⊢
      rw [hshift]
      omega
    · rw [← hd]
      have := Nat.le_pow_clog (b := 2) (by omega) m'
      omega
    · rw [hrest, completeRoot_eq hpos]
      have hchild : index (Nat.clog 2 m') ((2 * q + 1) * 2 ^ d) =
          2 * ((2 * q + 1) * 2 ^ l) + (2 ^ Nat.clog 2 m' - 1) := by
        rw [index, hshift]
      have hroot : index (Nat.clog 2 m') 0 = 2 ^ Nat.clog 2 m' - 1 := by
        rw [index, Nat.zero_mul, Nat.zero_add]
      omega

/-! ## Children and their parent -/

/-- Above a left child is its parent. -/
theorem completeParent_leftChild {m l q : ℕ} (hnode : IsNode m (l + 1) q) :
    completeParent (index l (2 * q)) (2 * m - 1) = some (index (l + 1) q) := by
  have hhalf : 2 * q / 2 = q := by omega
  rw [completeParent, completeParentLoop, perfectParent_index, hhalf,
    if_pos (index_lt_iff.mpr hnode)]

/-- Blocks that are no nodes are passed over. -/
theorem completeParentLoop_skip {m k d r : ℕ} (fuel : ℕ) (h : Leftmost m k d r) :
    completeParentLoop (fuel + d) (index k (r * 2 ^ d)) (2 * m - 1) =
      completeParentLoop fuel (index (k + d) r) (2 * m - 1) := by
  induction d generalizing k with
  | zero => rw [pow_zero, Nat.mul_one]; rfl
  | succ d ih =>
    have hhalf : r * 2 ^ (d + 1) / 2 = r * 2 ^ d := by
      rw [pow_succ, ← Nat.mul_assoc, Nat.mul_div_cancel _ (by omega)]
    have hnot := h.not_isNode (e := 1) (by omega) (by omega)
    rw [Nat.add_sub_cancel] at hnot
    have hup : Leftmost m (k + 1) d r := by
      have hpow : 2 ^ k ≤ 2 ^ (k + 1) := Nat.pow_le_pow_right (by omega) (by omega)
      have hlevel : k + (d + 1) = k + 1 + d := by omega
      rcases h with h | h
      · omega
      · rw [hlevel] at h
        exact Or.inr (by omega)
    rw [← Nat.add_assoc, completeParentLoop, perfectParent_index, hhalf,
      if_neg (by rw [index_lt_iff]; exact hnot), ih hup, Nat.add_right_comm k 1 d, Nat.add_assoc]

/-- Above a right child is its parent. -/
theorem completeParent_rightChild {m k d q : ℕ} (hnode : IsNode m (k + d + 1) q)
    (h : Leftmost m k d (2 * q + 1)) (hd : d < 64) :
    completeParent (index k ((2 * q + 1) * 2 ^ d)) (2 * m - 1) = some (index (k + d + 1) q) := by
  have hhalf : (2 * q + 1) / 2 = q := by omega
  obtain ⟨fuel, hfuel⟩ : ∃ fuel, 64 = fuel + 1 + d := ⟨63 - d, by omega⟩
  rw [completeParent, hfuel, completeParentLoop_skip _ h, completeParentLoop, perfectParent_index,
    hhalf, if_pos (index_lt_iff.mpr hnode)]

theorem index_rightChild_gt {k d q : ℕ} :
    ¬ index k ((2 * q + 1) * 2 ^ d) < index (k + d + 1) q := by
  have hhalf : (2 * q + 1) / 2 = q := by omega
  have h := index_lt_parent_iff (l := k) (d := d) (r := 2 * q + 1)
  rw [hhalf] at h
  rw [h]
  omega

theorem index_leftChild_lt {l q : ℕ} : index l (2 * q) < index (l + 1) q := by
  have hhalf : 2 * q / 2 = q := by omega
  have h := index_lt_parent_iff (l := l) (d := 0) (r := 2 * q)
  rw [hhalf, pow_zero, Nat.mul_one, Nat.add_zero] at h
  rw [h]
  omega

/-- Of the blocks on the left edge of a block, one level alone is a node that the block has moved to. -/
theorem Leftmost.le_level {m l d r k e : ℕ} (h : Leftmost m k e r) (hsum : l + d = k + e)
    (hnode : IsNode m l (r * 2 ^ d)) : l ≤ k := by
  by_contra hlt
  have hnot := h.not_isNode (e := l - k) (by omega) (by omega)
  have hlevel : k + (l - k) = l := by omega
  have hrest : e - (l - k) = d := by omega
  rw [hlevel, hrest] at hnot
  exact hnot hnode

/-- A node is the left child of its parent if it is on the left of it. -/
theorem leftChild_of_parent {m l d r : ℕ} (hnode : IsNode m (l + d + 1) (r / 2))
    (hleft : Leftmost m l d r) (heven : r % 2 = 0) :
    completeLeftChild (index (l + d + 1) (r / 2)) = index l (r * 2 ^ d) := by
  have hr : 2 * (r / 2) = r := by omega
  have hchild : IsNode m (l + d) r := by
    have h := hnode.left
    rwa [hr] at h
  -- a left half is a node itself, so nothing was passed over
  have hd : d = 0 := by
    by_contra hd
    have hnot := hleft.not_isNode (e := d) (by omega) (le_refl d)
    rw [Nat.sub_self, pow_zero, Nat.mul_one] at hnot
    exact hnot hchild
  subst hd
  rw [completeLeftChild, perfectLeftChild_index, hr, pow_zero, Nat.mul_one]

/-- A node is the right child of its parent if it is on the right of it. -/
theorem rightChild_of_parent {m l d r : ℕ} (hnode : IsNode m (l + d + 1) (r / 2))
    (hchild : IsNode m l (r * 2 ^ d)) (hleft : Leftmost m l d r) (hodd : r % 2 = 1) :
    completeRightChild (index (l + d + 1) (r / 2)) (2 * m - 1) = index l (r * 2 ^ d) := by
  have hr : 2 * (r / 2) + 1 = r := by omega
  obtain ⟨k, e, hk, hright, hmost, hindex⟩ := completeRightChild_index hnode
  rw [hr] at hright hmost hindex
  have hle := hmost.le_level hk hchild
  have hge := hleft.le_level hk.symm hright
  obtain rfl : k = l := by omega
  obtain rfl : e = d := by omega
  exact hindex

end Astria.Merkle
