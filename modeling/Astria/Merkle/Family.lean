import Astria.Merkle.Machine

/-!
# Parents, children and siblings

The functions on the indices of `crates/astria-merkle/src/lib.rs` taken together, over arrays of every
odd length.  The loop of `complete_parent` goes up in the perfect tree until it is back in the array;
what it measures is the level of the node, which the in-order index hides in its lowest bits.

The root has no parent: there the loop leaves the array for good, and ends with a panic at the largest
word.  The callers stop at the root.

Results:
* `completeParent_block`: the parent of a node that is not the root;
* `ascend_root`: going from parent to parent reaches the root, in at most 63 steps;
* `wellIndexed`: parent, children, sibling and root agree with each other.
-/

namespace Astria.Merkle.Machine

open Astria.Core Astria.Lib

/-- Goes from a node to its parent, a number of times. -/
def ascend (n : ℕ) : ℕ → ℕ → Outcome ℕ
  | 0, i => .returns i
  | steps + 1, i => do
    let parent ← completeParent i n
    ascend n steps parent

/-- The nodes of an array of length `n` are a tree with the given root, for the functions on indices. -/
structure WellIndexed (n root : ℕ) : Prop where
  root_lt : root < n
  parent : ∀ i < n, i ≠ root → ∃ p, completeParent i n = .returns p ∧ p < n
  parent_root : completeParent root n = .panics
  leftChild : ∀ p < n, isBranch p = true → ∃ c, completeLeftChild p = .returns c ∧ c < p ∧
    completeParent c n = .returns p
  rightChild : ∀ p < n, isBranch p = true → ∃ c, completeRightChild p n = .returns c ∧ p < c ∧
    c < n ∧ completeParent c n = .returns p
  child : ∀ i < n, ∀ p, completeParent i n = .returns p → isBranch p = true ∧
    ((i < p ∧ completeLeftChild p = .returns i) ∨ (p < i ∧ completeRightChild p n = .returns i))
  sibling : ∀ i < n, i ≠ root → ∃ p s, completeParentAndSibling i n = .returns (p, s) ∧
    completeParent i n = .returns p ∧ completeParent s n = .returns p ∧ s ≠ i ∧ s < n
  ascends : ∀ i < n, ∃ steps ≤ 63, ascend n steps i = .returns root

/-! ## The blocks of an array -/

section

variable {m : ℕ}

theorem clog_le (hm : m ≤ 2 ^ 63) : Nat.clog 2 m ≤ 63 := Nat.clog_le_of_le_pow hm

/-- The parent of a block that starts in the array, below the root. -/
theorem completeParent_block (hm : m ≤ 2 ^ 63) {l q : ℕ} (hi : index l q ≤ u64Max)
    (hq : q * 2 ^ l < m) (hl : l < Nat.clog 2 m) :
    ∃ d r, q = r * 2 ^ d ∧ IsNode m (l + d + 1) (r / 2) ∧ Leftmost m l d r ∧
      Merkle.completeParent (index l q) (2 * m - 1) = some (index (l + d + 1) (r / 2)) ∧
      completeParent (index l q) (2 * m - 1) = .returns (index (l + d + 1) (r / 2)) := by
  have hclog := clog_le hm
  obtain ⟨d, r, hr, hparent, hleft, hloop⟩ := completeParentLoop_index 64 hq hl (by omega)
  refine ⟨d, r, hr, hparent, hleft, hloop, ?_⟩
  rw [completeParent_eq hi (by unfold u64Max; omega), Merkle.completeParent, hloop]
  rfl

/-- A node of the array is over a block, which is the root or below it. -/
theorem exists_isNode (hm : 0 < m) {i : ℕ} (hi : i < 2 * m - 1) :
    ∃ l q, i = index l q ∧ IsNode m l q ∧
      (i ≠ Merkle.completeRoot (2 * m - 1) ↔ l < Nat.clog 2 m) := by
  obtain ⟨l, q, rfl⟩ := exists_index i
  have hnode := index_lt_iff.mp hi
  refine ⟨l, q, rfl, hnode, ?_⟩
  rw [Merkle.completeRoot_eq hm]
  constructor
  · intro hne
    rcases hnode.le_root with hl | ⟨rfl, rfl⟩
    · exact hl
    · exact absurd rfl hne
  · intro hl heq
    obtain ⟨rfl, -⟩ := index_inj heq
    omega

/-- A branch is over two halves. -/
theorem exists_isNode_of_isBranch {p : ℕ} (hp : p < 2 * m - 1) (hbranch : isBranch p = true) :
    ∃ l q, p = index (l + 1) q ∧ IsNode m (l + 1) q := by
  obtain ⟨l, q, rfl⟩ := exists_index p
  cases l with
  | zero => exact absurd hbranch (by rw [not_isBranch_zero]; exact Bool.false_ne_true)
  | succ l => exact ⟨l, q, rfl, index_lt_iff.mp hp⟩

theorem completeParent_root (hpos : 0 < m) (hm : m ≤ 2 ^ 63) :
    completeParent (index (Nat.clog 2 m) 0) (2 * m - 1) = .panics := by
  have hpow := Nat.le_pow_clog (b := 2) (by omega) m
  have hroot := index_lt_iff.mpr (isNode_root hpos)
  have habove : 2 * m - 1 ≤ 2 ^ (Nat.clog 2 m + 1) - 1 := by
    rw [pow_succ]
    omega
  have hmax : 2 * m - 1 ≤ u64Max := by
    unfold u64Max
    omega
  rw [completeParent_eq (by omega) hmax, Merkle.completeParent, completeParentLoop_above _ _ habove]
  rfl

theorem leftChild_block (hm : m ≤ 2 ^ 63) {l q : ℕ} (hnode : IsNode m (l + 1) q) :
    completeLeftChild (index (l + 1) q) = .returns (index l (2 * q)) ∧
      completeParent (index l (2 * q)) (2 * m - 1) = .returns (index (l + 1) q) := by
  have hp := index_lt_iff.mpr hnode
  have hc := index_leftChild_lt (l := l) (q := q)
  have hmax : 2 * m - 1 ≤ u64Max := by
    unfold u64Max
    omega
  constructor
  · rw [completeLeftChild, perfectLeftChild_eq (by omega) (isBranch_index l q),
      perfectLeftChild_index]
  · rw [completeParent_eq (by omega) hmax, completeParent_leftChild hnode]
    rfl

theorem rightChild_block (hm : m ≤ 2 ^ 63) {l q : ℕ} (hnode : IsNode m (l + 1) q) :
    ∃ c, completeRightChild (index (l + 1) q) (2 * m - 1) = .returns c ∧ index (l + 1) q < c ∧
      c < 2 * m - 1 ∧ completeParent c (2 * m - 1) = .returns (index (l + 1) q) := by
  obtain ⟨k, d, rfl, hchild, hleft, hindex⟩ := completeRightChild_index hnode
  have hp := index_lt_iff.mpr hnode
  have hc := index_lt_iff.mpr hchild
  have hclog := clog_le hm
  have hlevel : k + d + 1 ≤ Nat.clog 2 m := by
    rcases hnode.le_root with h | ⟨h, -⟩ <;> omega
  have hmax : 2 * m - 1 ≤ u64Max := by
    unfold u64Max
    omega
  refine ⟨index k ((2 * q + 1) * 2 ^ d), ?_, ?_, hc, ?_⟩
  · rw [completeRightChild_eq (isBranch_index (k + d) q) hp hmax, hindex]
  · have hge := index_rightChild_gt (k := k) (d := d) (q := q)
    have hne : index (k + d + 1) q ≠ index k ((2 * q + 1) * 2 ^ d) := by
      intro heq
      obtain ⟨hkd, -⟩ := index_inj heq
      omega
    omega
  · rw [completeParent_eq (by omega) hmax, completeParent_rightChild hnode hleft (by omega)]
    rfl

/-- A node is the left or the right child of its parent, as it is on the left or on the right of it. -/
theorem child_block (hm : m ≤ 2 ^ 63) {l d r : ℕ} (hnode : IsNode m (l + d + 1) (r / 2))
    (hchild : IsNode m l (r * 2 ^ d)) (hleft : Leftmost m l d r) :
    (index l (r * 2 ^ d) < index (l + d + 1) (r / 2) ∧
        completeLeftChild (index (l + d + 1) (r / 2)) = .returns (index l (r * 2 ^ d))) ∨
      (index (l + d + 1) (r / 2) < index l (r * 2 ^ d) ∧
        completeRightChild (index (l + d + 1) (r / 2)) (2 * m - 1) =
          .returns (index l (r * 2 ^ d))) := by
  have hp := index_lt_iff.mpr hnode
  have hmax : 2 * m - 1 ≤ u64Max := by
    unfold u64Max
    omega
  have hside := index_lt_parent_iff (l := l) (d := d) (r := r)
  rcases Nat.mod_two_eq_zero_or_one r with heven | hodd
  · refine Or.inl ⟨hside.mpr heven, ?_⟩
    have hindex := leftChild_of_parent hnode hleft heven
    rw [completeLeftChild, perfectLeftChild_eq (by omega) (isBranch_index (l + d) _)]
    exact congrArg Outcome.returns hindex
  · refine Or.inr ⟨?_, ?_⟩
    · have hne : index (l + d + 1) (r / 2) ≠ index l (r * 2 ^ d) := by
        intro heq
        obtain ⟨hld, -⟩ := index_inj heq
        omega
      omega
    · rw [completeRightChild_eq (isBranch_index (l + d) _) hp hmax,
        rightChild_of_parent hnode hchild hleft hodd]

/-- The sibling of a node is the other child of its parent. -/
theorem sibling_block (hm : m ≤ 2 ^ 63) {i l q : ℕ} (hi : i < 2 * m - 1)
    (hnode : IsNode m (l + 1) q)
    (hparent : completeParent i (2 * m - 1) = .returns (index (l + 1) q)) :
    ∃ s, completeParentAndSibling i (2 * m - 1) = .returns (index (l + 1) q, s) ∧
      completeParent s (2 * m - 1) = .returns (index (l + 1) q) ∧ s ≠ i ∧ s < 2 * m - 1 := by
  have hp := index_lt_iff.mpr hnode
  obtain ⟨hleft, hleftParent⟩ := leftChild_block hm hnode
  have hlt := index_leftChild_lt (l := l) (q := q)
  obtain ⟨c, hright, hgt, hc, hrightParent⟩ := rightChild_block hm hnode
  unfold completeParentAndSibling
  rw [Outcome.assert_of hi, Outcome.returns_bind, hparent, Outcome.returns_bind]
  by_cases hside : i < index (l + 1) q
  · rw [if_pos hside, hright, Outcome.returns_bind]
    exact ⟨c, rfl, hrightParent, by omega, hc⟩
  · rw [if_neg hside, hleft, Outcome.returns_bind]
    exact ⟨_, rfl, hleftParent, by omega, by omega⟩

/-- From a node on, the root is reached in as many steps as there are levels above the node at most. -/
theorem ascend_root (hpos : 0 < m) (hm : m ≤ 2 ^ 63) {l q : ℕ} (hnode : IsNode m l q) :
    ∃ steps, l + steps ≤ Nat.clog 2 m ∧
      ascend (2 * m - 1) steps (index l q) = .returns (index (Nat.clog 2 m) 0) := by
  -- the level of the node goes up with every step
  induction hlevels : Nat.clog 2 m - l using Nat.strong_induction_on generalizing l q with
  | _ levels ih =>
    rcases hnode.le_root with hl | ⟨rfl, rfl⟩
    · have hi := index_lt_iff.mpr hnode
      obtain ⟨d, r, -, hparent, -, -, hstep⟩ :=
        completeParent_block hm (by unfold u64Max; omega) hnode.start_lt hl
      obtain ⟨steps, hsteps, hascend⟩ := ih (Nat.clog 2 m - (l + d + 1)) (by omega) hparent rfl
      refine ⟨steps + 1, by omega, ?_⟩
      rw [ascend, hstep, Outcome.returns_bind, hascend]
    · exact ⟨0, le_refl _, rfl⟩

end

/-! ## Arrays -/

/-- Over arrays of every odd length, parent, children, sibling and root agree with each other; and for
the lengths that the array of a tree can have, the root is where `complete_root` says. -/
theorem wellIndexed {n : ℕ} (hodd : n % 2 = 1) (hn : n ≤ u64Max) :
    ∃ root, WellIndexed n root ∧ (n < 2 ^ 63 → completeRoot n = .returns root) := by
  obtain ⟨m, rfl⟩ : ∃ m, n = 2 * m - 1 := ⟨(n + 1) / 2, by omega⟩
  have hpos : 0 < m := by omega
  have hm : m ≤ 2 ^ 63 := by
    unfold u64Max at hn
    omega
  have hroot := Merkle.completeRoot_eq hpos
  refine ⟨Merkle.completeRoot (2 * m - 1), ?_, completeRoot_eq⟩
  refine
    { root_lt := by rw [hroot]; exact index_lt_iff.mpr (isNode_root hpos)
      parent := ?_
      parent_root := by rw [hroot]; exact completeParent_root hpos hm
      leftChild := ?_
      rightChild := ?_
      child := ?_
      sibling := ?_
      ascends := ?_ }
  · intro i hi hne
    obtain ⟨l, q, rfl, hnode, hbelow⟩ := exists_isNode hpos hi
    obtain ⟨d, r, -, hparent, -, -, hstep⟩ :=
      completeParent_block hm (by omega) hnode.start_lt (hbelow.mp hne)
    exact ⟨_, hstep, index_lt_iff.mpr hparent⟩
  · intro p hp hbranch
    obtain ⟨l, q, rfl, hnode⟩ := exists_isNode_of_isBranch hp hbranch
    obtain ⟨hchild, hparent⟩ := leftChild_block hm hnode
    exact ⟨_, hchild, index_leftChild_lt, hparent⟩
  · intro p hp hbranch
    obtain ⟨l, q, rfl, hnode⟩ := exists_isNode_of_isBranch hp hbranch
    exact rightChild_block hm hnode
  · intro i hi p hstep
    obtain ⟨l, q, rfl, hnode, hbelow⟩ := exists_isNode hpos hi
    have hne : index l q ≠ Merkle.completeRoot (2 * m - 1) := by
      intro heq
      rw [heq, hroot, completeParent_root hpos hm] at hstep
      cases hstep
    obtain ⟨d, r, rfl, hparent, hleft, -, hstep'⟩ :=
      completeParent_block hm (by omega) hnode.start_lt (hbelow.mp hne)
    obtain rfl := Outcome.returns.inj (hstep'.symm.trans hstep)
    exact ⟨isBranch_index (l + d) (r / 2), child_block hm hparent hnode hleft⟩
  · intro i hi hne
    obtain ⟨l, q, rfl, hnode, hbelow⟩ := exists_isNode hpos hi
    obtain ⟨d, r, rfl, hparent, hleft, -, hstep⟩ :=
      completeParent_block hm (by omega) hnode.start_lt (hbelow.mp hne)
    obtain ⟨s, hsibling, hsparent, hsne, hs⟩ := sibling_block hm hi hparent hstep
    exact ⟨_, s, hsibling, hstep, hsparent, hsne, hs⟩
  · intro i hi
    obtain ⟨l, q, rfl, hnode, -⟩ := exists_isNode hpos hi
    obtain ⟨steps, hsteps, hascend⟩ := ascend_root hpos hm hnode
    have hclog := clog_le hm
    exact ⟨steps, by omega, by rw [hroot]; exact hascend⟩

theorem wellIndexed_five : WellIndexed 5 3 := by
  obtain ⟨root, h, hroot⟩ := wellIndexed (n := 5) (by decide) (by decide)
  have hthree : completeRoot 5 = .returns 3 := by decide +kernel
  obtain rfl := Outcome.returns.inj (hthree.symm.trans (hroot (by decide)))
  exact h

/-- The only node of an array of length one is the root. -/
theorem not_parent_one :
    ¬ ∀ n i : ℕ, n % 2 = 1 → n ≤ u64Max → i < n → ∃ p, completeParent i n = .returns p ∧ p < n := by
  intro h
  obtain ⟨p, hp, -⟩ := h 1 0 rfl (by decide) (by decide)
  have hpanics : completeParent 0 1 = .panics := by decide +kernel
  cases hpanics.symm.trans hp

end Astria.Merkle.Machine
