import Astria.Merkle.Index
import Mathlib.Data.List.Induction

/-!
# The nodes of a tree

Every node of a tree that `from_leaves` builds holds the digest of its block of leaves
(`crates/astria-merkle/src/lib.rs`), so that the root is the digest of the tree that is cut behind
the last leaf.

Results:
* `Tree.updateBranches_holds`: the loop above a new leaf updates every node that has to change;
* `Tree.push_holds`, `Tree.fromLeaves_holds`: pushing leaves;
* `Tree.Holds.root_eq`: the root.
-/

namespace Astria.Merkle

open Astria.Core Astria.Lib HashTree

/-! ## The nodes of a tree hold the digests of its blocks -/

variable {D : Type} [hasher : Hasher D]

/-- The hash of the crate: `hash_leaf` for leaves and `combine` for nodes. -/
def hashInput : Input Bytes D → D
  | .leaf leaf => hashLeaf leaf
  | .node left right => combine left right

/-- The digest of a block of leaves. -/
def blockDigest (leaves : List Bytes) (l q : ℕ) : D :=
  (cut (fun i => leaves.getD i []) leaves.length l q).digest hashInput

theorem blockDigest_zero (leaves : List Bytes) (q : ℕ) :
    (blockDigest leaves 0 q : D) = hashLeaf (leaves.getD q []) := rfl

theorem blockDigest_node {leaves : List Bytes} {l q : ℕ} (h : IsNode leaves.length (l + 1) q) :
    (blockDigest leaves (l + 1) q : D) =
      combine (blockDigest leaves l (2 * q)) (blockDigest leaves l (2 * q + 1)) := by
  unfold blockDigest
  rw [cut_succ_of_lt (isNode_succ.mp h)]
  rfl

theorem Leftmost.blockDigest_eq {leaves : List Bytes} {l d r : ℕ}
    (h : Leftmost leaves.length l d r) :
    (blockDigest leaves l (r * 2 ^ d) : D) = blockDigest leaves (l + d) r := by
  unfold blockDigest
  rw [h.cut_eq]

/-- A block that was complete before a leaf was pushed keeps its digest. -/
theorem blockDigest_append {leaves : List Bytes} {l q : ℕ} (leaf : Bytes)
    (h : (q + 1) * 2 ^ l ≤ leaves.length) :
    (blockDigest (leaves ++ [leaf]) l q : D) = blockDigest leaves l q := by
  unfold blockDigest
  rw [cut_congr (by rw [List.length_append]; omega) h]
  intro i hi
  rw [List.getD_eq_getElem?_getD, List.getD_eq_getElem?_getD, List.getElem?_append_left (by omega)]

namespace Tree

theorem getNode_setNode (tree : Tree D) (i j : ℕ) (value : D) (hi : i < tree.nodes.length) :
    (tree.setNode i value).getNode j = if i = j then value else tree.getNode j := by
  unfold getNode setNode
  rw [List.getD_eq_getElem?_getD, List.getD_eq_getElem?_getD, List.getElem?_set]
  by_cases h : i = j
  · rw [if_pos h, if_pos h, if_pos hi, Option.getD_some]
  · rw [if_neg h, if_neg h]

/-- The tree over these leaves: every node holds the digest of its block. -/
structure Holds (tree : Tree D) (leaves : List Bytes) : Prop where
  length : tree.nodes.length = 2 * leaves.length - 1
  node : ∀ l q, IsNode leaves.length l q →
    tree.getNode (index l q) = blockDigest leaves l q

theorem Holds.nodes_eq_nil_iff {tree : Tree D} {leaves : List Bytes} (h : tree.Holds leaves) :
    tree.nodes = [] ↔ leaves = [] := by
  rw [← List.length_eq_zero_iff, h.length, ← List.length_eq_zero_iff]
  omega

theorem Holds.root_eq {tree : Tree D} {leaves : List Bytes} (h : tree.Holds leaves)
    (hne : leaves ≠ []) : tree.root = (ofList [] leaves).digest hashInput := by
  have hpos : 0 < leaves.length := List.length_pos_iff.mpr hne
  unfold root
  rw [if_neg (by rw [h.nodes_eq_nil_iff]; exact hne), h.length, completeRoot_eq hpos,
    h.node _ _ (isNode_root hpos)]
  rfl

/-! ### Pushing a leaf -/

/-- Every block holds its digest, except those above level `l` that contain the last leaf. -/
structure UpdatedTo (l : ℕ) (tree : Tree D) (leaves : List Bytes) : Prop where
  length : tree.nodes.length = 2 * leaves.length - 1
  node : ∀ k q, IsNode leaves.length k q → k ≤ l ∨ q ≠ (leaves.length - 1) / 2 ^ k →
    tree.getNode (index k q) = blockDigest leaves k q

theorem UpdatedTo.holds {l : ℕ} {tree : Tree D} {leaves : List Bytes}
    (h : UpdatedTo l tree leaves) (hl : Nat.clog 2 leaves.length ≤ l) : tree.Holds leaves := by
  refine ⟨h.length, ?_⟩
  intro k q hnode
  refine h.node k q hnode (Or.inl ?_)
  rcases hnode.le_root with hk | hk <;> omega

theorem UpdatedTo.leftChild {k q : ℕ} {tree : Tree D} {leaves : List Bytes} {l : ℕ}
    (h : UpdatedTo l tree leaves) (hnode : IsNode leaves.length (k + 1) q)
    (hlast : (2 * q + 1) * 2 ^ k ≤ leaves.length - 1) :
    tree.getNode (completeLeftChild (index (k + 1) q)) = blockDigest leaves k (2 * q) := by
  rw [completeLeftChild, perfectLeftChild_index]
  refine h.node k (2 * q) hnode.left (Or.inr ?_)
  intro heq
  have : 2 * q + 1 ≤ (leaves.length - 1) / 2 ^ k :=
    (Nat.le_div_iff_mul_le (Nat.two_pow_pos k)).mpr hlast
  omega

/-- What the loop does at one branch above the last leaf: all that was passed over in between is not
a node of its own. -/
theorem UpdatedTo.setParent {l d r : ℕ} {tree : Tree D} {leaves : List Bytes}
    (h : UpdatedTo l tree leaves) (hr : (leaves.length - 1) / 2 ^ l = r * 2 ^ d)
    (hparent : IsNode leaves.length (l + d + 1) (r / 2)) (hleft : Leftmost leaves.length l d r)
    (hup : r / 2 = (leaves.length - 1) / 2 ^ (l + d + 1)) :
    UpdatedTo (l + d + 1)
      (tree.setNode (index (l + d + 1) (r / 2)) (blockDigest leaves (l + d + 1) (r / 2)))
      leaves := by
  refine ⟨by rw [setNode, List.length_set, h.length], ?_⟩
  intro a b hnode hab
  rw [getNode_setNode _ _ _ _ (by rw [h.length]; exact index_lt_iff.mpr hparent)]
  by_cases heq : index (l + d + 1) (r / 2) = index a b
  · rw [if_pos heq]
    obtain ⟨rfl, rfl⟩ := index_inj heq
    rfl
  · rw [if_neg heq]
    refine h.node a b hnode ?_
    by_cases hb : b = (leaves.length - 1) / 2 ^ a
    · left
      by_contra hal
      rcases Nat.lt_or_ge (l + d) a with hd | hd
      · have haeq : a = l + d + 1 := by omega
        rw [hb, haeq, ← hup] at heq
        exact heq rfl
      · rw [hb] at hnode
        exact hleft.not_isNode_last hr (by omega) hd hnode
    · exact Or.inr hb

/-- What is combined at that branch: its left half is complete, and its right half was updated. -/
theorem UpdatedTo.combine_children {l d r : ℕ} {tree : Tree D} {leaves : List Bytes}
    (h : UpdatedTo l tree leaves) (hparent : IsNode leaves.length (l + d + 1) (r / 2))
    (hleft : Leftmost leaves.length l d r) (hright : 2 * (r / 2) + 1 = r) :
    combine (tree.getNode (completeLeftChild (index (l + d + 1) (r / 2))))
        (tree.getNode (completeRightChild (index (l + d + 1) (r / 2)) (2 * leaves.length - 1))) =
      blockDigest leaves (l + d + 1) (r / 2) := by
  have hmid : (2 * (r / 2) + 1) * 2 ^ (l + d) ≤ leaves.length - 1 := by
    have := isNode_succ.mp hparent
    omega
  obtain ⟨k, e, hk, hchild, hchildLeft, hchildIndex⟩ := completeRightChild_index hparent
  have hkl : k ≤ l := by
    by_contra hgt
    have hnot := hleft.not_isNode (e := k - l) (by omega) (by omega)
    have hkd : d - (k - l) = e := by omega
    have hlk : l + (k - l) = k := by omega
    rw [hkd, hlk, ← hright] at hnot
    exact hnot hchild
  rw [blockDigest_node hparent, h.leftChild hparent hmid, hchildIndex,
    h.node _ _ hchild (Or.inl hkl), hchildLeft.blockDigest_eq, ← hk]

/-- The loop that updates the branches above the last leaf. -/
theorem updateBranches_holds {leaves : List Bytes} {l fuel : ℕ} {tree : Tree D}
    (h : UpdatedTo l tree leaves) (hl : l < Nat.clog 2 leaves.length)
    (hfuel : Nat.clog 2 leaves.length ≤ l + fuel) (h64 : Nat.clog 2 leaves.length ≤ 64) :
    (updateBranches (2 * leaves.length - 1) fuel (index l ((leaves.length - 1) / 2 ^ l)) tree).Holds
      leaves := by
  induction fuel generalizing l tree with
  | zero => omega
  | succ fuel ih =>
    have hpos : 0 < leaves.length := by
      by_contra hzero
      rw [Nat.clog_of_right_le_one (by omega)] at hl
      omega
    have hlast : (leaves.length - 1) / 2 ^ l * 2 ^ l < leaves.length := by
      have := Nat.div_mul_le_self (leaves.length - 1) (2 ^ l)
      omega
    obtain ⟨d, r, hr, hparent, hleft, hloop⟩ :=
      completeParentLoop_index 64 hlast hl (by omega)
    -- the last leaf is in the block `r`, and so in the right half of its parent
    have hr' : r = (leaves.length - 1) / 2 ^ (l + d) := by
      rw [pow_add, ← Nat.div_div_eq_div_mul, hr, Nat.mul_div_cancel _ (Nat.two_pow_pos d)]
    have hup : r / 2 = (leaves.length - 1) / 2 ^ (l + d + 1) := by
      rw [hr', pow_succ, ← Nat.div_div_eq_div_mul]
    have hright : 2 * (r / 2) + 1 = r := by
      have hmid := isNode_succ.mp hparent
      have := (Nat.le_div_iff_mul_le (Nat.two_pow_pos (l + d))).mpr (Nat.le_sub_one_of_lt hmid)
      omega
    have hupdated := h.setParent hr hparent hleft hup
    rw [updateBranches, completeParent, hloop]
    dsimp only
    rw [h.combine_children hparent hleft hright, completeRoot_eq hpos]
    by_cases hroot : index (l + d + 1) (r / 2) = index (Nat.clog 2 leaves.length) 0
    · rw [if_pos hroot]
      exact hupdated.holds (index_inj hroot).1.ge
    · rw [if_neg hroot]
      have hlt : l + d + 1 < Nat.clog 2 leaves.length := by
        rcases hparent.le_root with hlt | ⟨hl, hq⟩
        · exact hlt
        · rw [hl, hq] at hroot
          exact absurd rfl hroot
      have hstep := ih hupdated hlt (by omega)
      rw [← hup] at hstep
      exact hstep

theorem new_holds : (new : Tree D).Holds [] := by
  refine ⟨rfl, ?_⟩
  intro l q hnode
  have := hnode.start_lt
  rw [List.length_nil] at this
  omega

/-- A tree to which a leaf and a branch were appended: all but the branches above the leaf are
there. -/
theorem Holds.extended {tree : Tree D} {leaves : List Bytes} (h : tree.Holds leaves)
    (hpos : 0 < leaves.length) (leaf : Bytes) :
    UpdatedTo 0 (⟨tree.nodes ++ [hasher.zeros, hashLeaf leaf]⟩ : Tree D) (leaves ++ [leaf]) := by
  have hlen : (leaves ++ [leaf]).length = leaves.length + 1 := by
    rw [List.length_append, List.length_singleton]
  constructor
  · have : [hasher.zeros, hashLeaf leaf].length = 2 := rfl
    rw [List.length_append, h.length, hlen, this]
    omega
  · intro k q hnode hkq
    rw [hlen, Nat.add_sub_cancel] at hkq
    by_cases hleaf : k = 0 ∧ q = leaves.length
    · obtain ⟨rfl, rfl⟩ := hleaf
      have hindex : index 0 leaves.length = tree.nodes.length + 1 := by
        rw [index_zero, leafIndexToTreeIndex, h.length]
        omega
      rw [getNode, hindex, List.getD_eq_getElem?_getD, List.getElem?_append_right (by omega),
        Nat.add_sub_cancel_left, blockDigest_zero, List.getD_eq_getElem?_getD,
        List.getElem?_append_right (le_refl _), Nat.sub_self]
      rfl
    · -- the block does not contain the new leaf
      have hne : q ≠ leaves.length / 2 ^ k := by
        rcases hkq with hk | hq
        · have hk0 : k = 0 := by omega
          rw [hk0, pow_zero, Nat.div_one]
          exact fun hq => hleaf ⟨hk0, hq⟩
        · exact hq
      have hstart : q * 2 ^ k ≤ leaves.length := by
        have := hnode.start_lt
        omega
      have hle := (Nat.le_div_iff_mul_le (Nat.two_pow_pos k)).mpr hstart
      have hold : (q + 1) * 2 ^ k ≤ leaves.length :=
        (Nat.le_div_iff_mul_le (Nat.two_pow_pos k)).mp (by omega)
      have hend : (q + 1) * 2 ^ k = q * 2 ^ k + 2 ^ k := by ring
      have hmul : 2 ^ k * (2 * q + 1) = 2 * (q * 2 ^ k) + 2 ^ k := by ring
      have hpow : 0 < 2 ^ k := Nat.two_pow_pos k
      have hnode' : IsNode leaves.length k q := by
        unfold IsNode
        omega
      have hlt := index_lt_iff.mpr hnode'
      rw [getNode, List.getD_eq_getElem?_getD,
        List.getElem?_append_left (by rw [h.length]; exact hlt), ← List.getD_eq_getElem?_getD,
        blockDigest_append leaf hold]
      exact h.node k q hnode'

theorem push_holds {tree : Tree D} {leaves : List Bytes} (h : tree.Holds leaves) (leaf : Bytes)
    (h64 : leaves.length < 2 ^ 63) : (tree.push leaf).Holds (leaves ++ [leaf]) := by
  unfold push pushHash
  by_cases hne : leaves = []
  · rw [if_pos (h.nodes_eq_nil_iff.mpr hne), hne]
    refine ⟨rfl, ?_⟩
    intro l q hnode
    have hroot : Nat.clog 2 ([] ++ [leaf]).length = 0 := Nat.clog_of_right_le_one (le_refl 1) 2
    obtain ⟨rfl, rfl⟩ : l = 0 ∧ q = 0 := by
      rcases hnode.le_root with hl | ⟨hl, hq⟩ <;> omega
    rfl
  · have hpos : 0 < leaves.length := List.length_pos_iff.mpr hne
    have hlen : (leaves ++ [leaf]).length = leaves.length + 1 := by
      rw [List.length_append, List.length_singleton]
    have hsize : tree.nodes.length + 2 = 2 * (leaves ++ [leaf]).length - 1 := by
      rw [h.length, hlen]
      omega
    have hindex : tree.nodes.length + 2 - 1 = index 0 (((leaves ++ [leaf]).length - 1) / 2 ^ 0) := by
      rw [index_zero, leafIndexToTreeIndex, pow_zero, Nat.div_one, h.length, hlen]
      omega
    have hclog : Nat.clog 2 (leaves ++ [leaf]).length ≤ 63 := Nat.clog_le_of_le_pow (by omega)
    have hclog' : 0 < Nat.clog 2 (leaves ++ [leaf]).length := Nat.clog_pos (by omega) (by omega)
    rw [if_neg (by rw [h.nodes_eq_nil_iff]; exact hne)]
    dsimp only
    rw [hindex, hsize]
    exact updateBranches_holds (h.extended hpos leaf) hclog' (by omega) (by omega)

theorem fromLeaves_append (leaves : List Bytes) (leaf : Bytes) :
    (fromLeaves (leaves ++ [leaf]) : Tree D) = (fromLeaves leaves).push leaf := by
  unfold fromLeaves
  rw [List.foldl_append]
  rfl

/-- `from_leaves` builds the tree, for any number of leaves that fits in memory. -/
theorem fromLeaves_holds {leaves : List Bytes} (h64 : leaves.length ≤ 2 ^ 63) :
    (fromLeaves leaves : Tree D).Holds leaves := by
  induction leaves using List.reverseRecOn with
  | nil => exact new_holds
  | append_singleton leaves leaf ih =>
    rw [List.length_append, List.length_singleton] at h64
    rw [fromLeaves_append]
    exact push_holds (ih (by omega)) leaf (by omega)

end Tree

end Astria.Merkle
