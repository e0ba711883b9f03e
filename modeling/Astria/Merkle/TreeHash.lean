import Astria.Lib.Sha256
import Astria.Merkle.Family

/-!
# The merkle tree hash

The trees that `push` and `build_leaf` build, and their proofs, against the merkle tree hash of RFC
6962, section 2.1, which the documentation of `crates/astria-merkle/src/lib.rs` names.

Results:
* `extend_eq`: leaves can be added as long as the nodes fit in a `Vec`, in whatever way;
* `root_build`: the root of a tree that was built is the merkle tree hash of its leaves;
* `constructProof_eq`: a proof of a leaf is constructed without a panic;
* `provesExactly_iff`: for which indices `construct_proof` does what its documentation says.
-/

namespace Astria.Merkle

open Astria.Core Astria.Lib HashTree

variable {D : Type} [hasher : Hasher D]

/-! ## The merkle tree hash -/

/-- The largest power of two below a number of leaves. -/
def splitPoint (n : ℕ) : ℕ := 2 ^ Nat.log 2 (n - 1)

theorem splitPoint_lt {n : ℕ} (hn : 2 ≤ n) : splitPoint n < n := by
  have := Nat.pow_log_le_self 2 (x := n - 1) (by omega)
  unfold splitPoint
  omega

theorem splitPoint_pos (n : ℕ) : 0 < splitPoint n := Nat.two_pow_pos _

/-- `MTH` of RFC 6962: of an empty list the hash of the empty string, of one leaf its hash behind the
byte 0, and otherwise the hashes of the two parts behind the byte 1. -/
def treeHash : List Bytes → D
  | [] => hasher.sha256 []
  | [leaf] => hasher.sha256 (0 :: leaf)
  | leaf :: next :: rest =>
    let leaves := leaf :: next :: rest
    let k := splitPoint leaves.length
    hasher.sha256 (1 :: (hasher.toBytes (treeHash (leaves.take k)) ++
      hasher.toBytes (treeHash (leaves.drop k))))
termination_by leaves => leaves.length
decreasing_by
  · have := splitPoint_lt (n := (leaf :: next :: rest).length) (by simp)
    rw [List.length_take]
    omega
  · have := splitPoint_pos (leaf :: next :: rest).length
    rw [List.length_drop]
    exact Nat.sub_lt (Nat.succ_pos _) this

theorem treeHash_nil : (treeHash [] : D) = hasher.sha256 [] := by rw [treeHash]

theorem treeHash_singleton (leaf : Bytes) : (treeHash [leaf] : D) = hashLeaf leaf := by
  rw [treeHash]
  rfl

theorem treeHash_split {leaves : List Bytes} (h : 2 ≤ leaves.length) :
    (treeHash leaves : D) =
      combine (treeHash (leaves.take (splitPoint leaves.length)))
        (treeHash (leaves.drop (splitPoint leaves.length))) := by
  match leaves, h with
  | leaf :: next :: rest, _ =>
    rw [treeHash]
    rfl

/-- Where a number of leaves between two powers of two is split. -/
theorem splitPoint_eq {n l : ℕ} (hlt : 2 ^ l < n) (hle : n ≤ 2 ^ (l + 1)) :
    splitPoint n = 2 ^ l := by
  unfold splitPoint
  rw [Nat.log_eq_of_pow_le_of_lt_pow (m := l) (by omega) (by omega)]

/-- The digest of a block is the merkle tree hash of the leaves in it. -/
theorem digest_cut_eq_treeHash (f : ℕ → Bytes) {m l q : ℕ} (h : q * 2 ^ l < m) :
    (cut f m l q).digest (hashInput : Input Bytes D → D) = treeHash (cut f m l q).leaves := by
  induction l generalizing q with
  | zero => exact (treeHash_singleton _).symm
  | succ l ih =>
    have hstart : q * 2 ^ (l + 1) = 2 * q * 2 ^ l := by ring
    have hmid : (2 * q + 1) * 2 ^ l = 2 * q * 2 ^ l + 2 ^ l := by ring
    rw [hstart] at h
    by_cases hlt : (2 * q + 1) * 2 ^ l < m
    · have hleft : (cut f m l (2 * q)).leaves.length = 2 ^ l := by
        rw [leaves_cut h, List.length_map, List.length_range']
        omega
      have hright : (cut f m l (2 * q + 1)).leaves.length = min (2 ^ l) (m - (2 * q + 1) * 2 ^ l) := by
        rw [leaves_cut hlt, List.length_map, List.length_range']
      have hlen : ((cut f m l (2 * q)).leaves ++ (cut f m l (2 * q + 1)).leaves).length =
          (cut f m l (2 * q)).leaves.length + (cut f m l (2 * q + 1)).leaves.length :=
        List.length_append
      have hpos : 0 < 2 ^ l := Nat.two_pow_pos l
      have hsucc : 2 ^ (l + 1) = 2 * 2 ^ l := by ring
      have hpoint := splitPoint_eq (n := ((cut f m l (2 * q)).leaves ++
        (cut f m l (2 * q + 1)).leaves).length) (l := l) (by omega) (by omega)
      have hsplit : (treeHash ((cut f m l (2 * q)).leaves ++ (cut f m l (2 * q + 1)).leaves) : D) =
          combine (treeHash (cut f m l (2 * q)).leaves) (treeHash (cut f m l (2 * q + 1)).leaves) := by
        rw [treeHash_split (by omega), hpoint, List.take_left' hleft, List.drop_left' hleft]
      rw [cut_succ_of_lt hlt, Tree.leaves, Tree.digest, ih h, ih hlt, hsplit]
      rfl
    · rw [cut_succ_of_le (Nat.not_lt.mp hlt)]
      exact ih h

theorem Tree.Holds.root_eq_treeHash {tree : Tree D} {leaves : List Bytes} (h : tree.Holds leaves) :
    tree.root = treeHash leaves := by
  by_cases hne : leaves = []
  · unfold Tree.root
    rw [if_pos (h.nodes_eq_nil_iff.mpr hne), hne, treeHash_nil]
  · have hpos : 0 < leaves.length := List.length_pos_iff.mpr hne
    rw [h.root_eq hne]
    unfold ofList
    rw [digest_cut_eq_treeHash _ (by omega)]
    exact congrArg treeHash (leaves_ofList [] hne)

/-! ## Trees in memory -/

namespace Machine

/-- The nodes of a tree with this many leaves fit in a `Vec`. -/
def Fits (leaves : ℕ) : Prop := 32 * (2 * leaves - 1) ≤ isizeMax

instance (leaves : ℕ) : Decidable (Fits leaves) := by
  unfold Fits
  infer_instance

theorem Fits.lt {m : ℕ} (h : Fits m) : 2 * m - 1 < 2 ^ 58 := by
  unfold Fits isizeMax at h
  omega

theorem Fits.clog_le {m : ℕ} (h : Fits m) : Nat.clog 2 m ≤ 63 := by
  have := h.lt
  exact Nat.clog_le_of_le_pow (by omega)

section

variable {tree : Tree D} {m : ℕ}

omit hasher in
theorem checkNode_eq (hlen : tree.nodes.length = 2 * m - 1) (hfits : Fits m) {i : ℕ}
    (hi : i < 2 * m - 1) : checkNode tree i = .returns () := by
  have hlt := hfits.lt
  have hmax : 2 ^ 63 ≤ u64Max := by decide
  unfold checkNode checkedMul checkedAdd
  rw [hlen, Outcome.assert_of hi, Outcome.returns_bind, if_pos (by omega), Outcome.ofOption_some,
    Outcome.returns_bind, if_pos (by omega), Outcome.ofOption_some, Outcome.returns_bind,
    if_pos (by omega), Outcome.ofOption_some, Outcome.returns_bind]
  rfl

theorem getNode_eq (hlen : tree.nodes.length = 2 * m - 1) (hfits : Fits m) {i : ℕ}
    (hi : i < 2 * m - 1) : getNode tree i = .returns (tree.getNode i) := by
  unfold getNode Tree.getNode
  rw [checkNode_eq hlen hfits hi, Outcome.returns_bind, List.getD_eq_getElem?_getD,
    List.getElem?_eq_getElem (by omega)]
  rfl

omit hasher in
theorem setNode_eq (hlen : tree.nodes.length = 2 * m - 1) (hfits : Fits m) {i : ℕ}
    (hi : i < 2 * m - 1) (value : D) : setNode tree i value = .returns (tree.setNode i value) := by
  unfold setNode
  rw [checkNode_eq hlen hfits hi, Outcome.returns_bind]
  rfl

end

section

variable {m : ℕ}

/-- The parent of a node that is not the root. -/
theorem completeParent_index (hfits : Fits m) {l q : ℕ} (hq : q * 2 ^ l < m)
    (hl : l < Nat.clog 2 m) :
    ∃ d r, q = r * 2 ^ d ∧ IsNode m (l + d + 1) (r / 2) ∧ Leftmost m l d r ∧
      Merkle.completeParent (index l q) (2 * m - 1) = some (index (l + d + 1) (r / 2)) ∧
      completeParent (index l q) (2 * m - 1) = .returns (index (l + d + 1) (r / 2)) := by
  have hlt := hfits.lt
  have hclog := hfits.clog_le
  have hmax : 2 ^ 63 ≤ u64Max := by decide
  have hi : index l q ≤ u64Max := by
    have h := index_add_one l q
    have hmul : 2 ^ l * (2 * q + 1) = 2 * (q * 2 ^ l) + 2 ^ l := by ring
    have hpow : 2 ^ l ≤ 2 ^ 62 := Nat.pow_le_pow_right (by omega) (by omega)
    omega
  exact completeParent_block (by omega) hi hq hl

theorem completeLeftChild_eq (hfits : Fits m) {l q : ℕ} (hnode : IsNode m (l + 1) q) :
    completeLeftChild (index (l + 1) q) =
      .returns (Merkle.completeLeftChild (index (l + 1) q)) := by
  have hlt := hfits.lt
  have hi := index_lt_iff.mpr hnode
  exact perfectLeftChild_eq (by unfold u64Max; omega) (isBranch_index l q)

theorem completeRightChild_node (hfits : Fits m) {l q : ℕ} (hnode : IsNode m (l + 1) q) :
    completeRightChild (index (l + 1) q) (2 * m - 1) =
      .returns (Merkle.completeRightChild (index (l + 1) q) (2 * m - 1)) := by
  have hlt := hfits.lt
  exact completeRightChild_eq (isBranch_index l q) (index_lt_iff.mpr hnode) (by unfold u64Max; omega)

theorem completeLeftChild_lt {l q : ℕ} (hnode : IsNode m (l + 1) q) :
    Merkle.completeLeftChild (index (l + 1) q) < 2 * m - 1 := by
  rw [Merkle.completeLeftChild, perfectLeftChild_index]
  exact index_lt_iff.mpr hnode.left

theorem completeRightChild_lt {l q : ℕ} (hnode : IsNode m (l + 1) q) :
    Merkle.completeRightChild (index (l + 1) q) (2 * m - 1) < 2 * m - 1 := by
  obtain ⟨k, d, -, hchild, -, hindex⟩ := completeRightChild_index hnode
  rw [hindex]
  exact index_lt_iff.mpr hchild

/-- The loop of `LeafBuilder::drop` ends at the root, without a panic. -/
theorem updateBranches_eq (hfits : Fits m) {l q : ℕ} (fuel fuel' : ℕ) {tree : Tree D}
    (hlen : tree.nodes.length = 2 * m - 1) (hq : q * 2 ^ l < m) (hl : l < Nat.clog 2 m)
    (hfuel : Nat.clog 2 m ≤ l + fuel) (hfuel' : Nat.clog 2 m ≤ l + fuel') :
    updateBranches (2 * m - 1) (Merkle.completeRoot (2 * m - 1)) fuel (index l q) tree =
      .returns (Tree.updateBranches (2 * m - 1) fuel' (index l q) tree) := by
  have hpos : 0 < m := by omega
  induction fuel generalizing l q fuel' tree with
  | zero => omega
  | succ fuel ih =>
    obtain ⟨fuel', rfl⟩ : ∃ f, fuel' = f + 1 := ⟨fuel' - 1, by omega⟩
    obtain ⟨d, r, -, hparent, -, hloop, hloop'⟩ := completeParent_index hfits hq hl
    rw [updateBranches, hloop', Outcome.returns_bind, completeLeftChild_eq hfits hparent,
      Outcome.returns_bind, completeRightChild_node hfits hparent, Outcome.returns_bind,
      combineNodes, getNode_eq hlen hfits (completeLeftChild_lt hparent), Outcome.returns_bind,
      getNode_eq hlen hfits (completeRightChild_lt hparent), Outcome.returns_bind, Outcome.pure_eq,
      Outcome.returns_bind, setNode_eq hlen hfits (index_lt_iff.mpr hparent), Outcome.returns_bind,
      Tree.updateBranches, hloop]
    dsimp only
    by_cases hroot : index (l + d + 1) (r / 2) = Merkle.completeRoot (2 * m - 1)
    · rw [if_pos hroot, if_pos hroot]
      rfl
    · rw [if_neg hroot, if_neg hroot]
      rw [Merkle.completeRoot_eq hpos] at hroot
      have hlt : l + d + 1 < Nat.clog 2 m := by
        rcases hparent.le_root with hlt | ⟨hl, hq⟩
        · exact hlt
        · rw [hl, hq] at hroot
          exact absurd rfl hroot
      refine ih fuel' ?_ hparent.start_lt hlt (by omega) (by omega)
      rw [Tree.setNode, List.length_set, hlen]

end

/-! ## Building trees -/

omit hasher in
theorem extendFromSlice_eq {tree : Tree D} {m : ℕ} (hlen : tree.nodes.length = 2 * m - 1)
    (hpos : 0 < m) (left right : D) :
    extendFromSlice tree [left, right] =
      if Fits (m + 1) then .returns ⟨tree.nodes ++ [left, right]⟩ else .panics := by
  have hsize : tree.nodes.length + [left, right].length = 2 * (m + 1) - 1 := by
    rw [hlen, List.length_cons, List.length_singleton]
    omega
  unfold extendFromSlice Fits
  rw [hsize]

theorem pushHash_eq {tree : Tree D} {m : ℕ} (hlen : tree.nodes.length = 2 * m - 1) (leafHash : D) :
    pushHash tree leafHash =
      if Fits (m + 1) then .returns (tree.pushHash leafHash) else .panics := by
  unfold pushHash Tree.pushHash
  by_cases hnil : tree.nodes = []
  · have hzero : m = 0 := by
      rw [hnil, List.length_nil] at hlen
      omega
    rw [if_pos hnil, if_pos hnil, extendFromSlice, hnil, hzero,
      if_pos (by change 32 * (0 + 1) ≤ isizeMax; decide), if_pos (by decide)]
    rfl
  · have hpos : 0 < m := by
      by_contra hzero
      exact hnil (List.length_eq_zero_iff.mp (by omega))
    rw [if_neg hnil, if_neg hnil, extendFromSlice_eq hlen hpos]
    by_cases hfits : Fits (m + 1)
    · have hlt := hfits.lt
      have hclog := hfits.clog_le
      have hclog' : 0 < Nat.clog 2 (m + 1) := Nat.clog_pos (by omega) (by omega)
      have hextended : (tree.nodes ++ [hasher.zeros, hasher.zeros]).length = 2 * (m + 1) - 1 := by
        rw [List.length_append, hlen, List.length_cons, List.length_singleton]
        omega
      have hsize : tree.nodes.length + 2 = 2 * (m + 1) - 1 := by omega
      have hset : (⟨tree.nodes ++ [hasher.zeros, hasher.zeros]⟩ : Tree D).setNode
          (2 * (m + 1) - 1 - 1) leafHash = ⟨tree.nodes ++ [hasher.zeros, leafHash]⟩ := by
        have hindex : 2 * (m + 1) - 1 - 1 = tree.nodes.length + 1 := by omega
        rw [Tree.setNode, hindex, List.set_append_right _ _ (by omega), Nat.add_sub_cancel_left]
        rfl
      have hleaf : (tree.nodes ++ [hasher.zeros, leafHash]).length = 2 * (m + 1) - 1 := by
        rw [List.length_append, hlen, List.length_cons, List.length_singleton]
        omega
      have hindex : 2 * (m + 1) - 1 - 1 = index 0 m := by
        rw [index_zero, Merkle.leafIndexToTreeIndex]
        omega
      rw [if_pos hfits, if_pos hfits, Outcome.returns_bind]
      dsimp only
      rw [hextended, checkedSub, if_pos (by omega), Outcome.ofOption_some, Outcome.returns_bind,
        setNode_eq hextended hfits (by omega), Outcome.returns_bind, hset, hleaf,
        completeRoot_eq (by omega), Outcome.returns_bind, hsize, hindex]
      refine updateBranches_eq hfits 65 64 hleaf ?_ hclog' (by omega) (by omega)
      omega
    · rw [if_neg hfits, if_neg hfits]
      rfl

omit hasher in
theorem written_foldl (writes : List Bytes) (builder : LeafBuilder D) :
    writes.foldl LeafBuilder.write builder =
      { builder with written := builder.written ++ writes.flatten } := by
  induction writes generalizing builder with
  | nil => simp
  | cons bytes writes ih => simp [ih, LeafBuilder.write]

/-- Both ways to add a leaf do the same. -/
theorem Addition.run_eq {tree : Tree D} {m : ℕ} (hlen : tree.nodes.length = 2 * m - 1)
    (addition : Addition) :
    addition.run tree = if Fits (m + 1) then .returns (tree.push addition.leaf) else .panics := by
  cases addition with
  | push leaf => exact pushHash_eq hlen _
  | buildLeaf writes =>
    rw [Addition.run, written_foldl]
    exact pushHash_eq hlen _

/-- Leaves can be added until the nodes fill a `Vec`. -/
theorem extend_eq (additions : List Addition) {leaves : List Bytes} (hfits : Fits leaves.length) :
    extend additions (Tree.fromLeaves leaves : Tree D) =
      if Fits (leaves.length + additions.length) then
        .returns (Tree.fromLeaves (leaves ++ additions.map Addition.leaf))
      else .panics := by
  induction additions generalizing leaves with
  | nil =>
    rw [List.length_nil, Nat.add_zero, if_pos hfits, List.map_nil, List.append_nil]
    rfl
  | cons addition rest ih =>
    have hlt := hfits.lt
    have hholds : (Tree.fromLeaves leaves : Tree D).Holds leaves :=
      Tree.fromLeaves_holds (by omega)
    have hlen := hholds.length
    have hcount : (leaves ++ [addition.leaf]).length = leaves.length + 1 := by
      rw [List.length_append, List.length_singleton]
    rw [extend, addition.run_eq hlen]
    by_cases hnext : Fits (leaves.length + 1)
    · rw [← hcount] at hnext
      have hstep := ih hnext
      rw [hcount] at hnext
      rw [if_pos hnext, Outcome.returns_bind, ← Tree.fromLeaves_append, hstep, hcount,
        List.length_cons, List.map_cons, List.append_assoc, List.singleton_append]
      congr 2
      omega
    · have hmore : ¬ Fits (leaves.length + (addition :: rest).length) := by
        unfold Fits at hnext ⊢
        rw [List.length_cons]
        omega
      rw [if_neg hnext, if_neg hmore]
      rfl

theorem build_eq (additions : List Addition) :
    (build additions : Outcome (Tree D)) =
      if Fits additions.length then .returns (Tree.fromLeaves (additions.map Addition.leaf))
      else .panics := by
  have hnil : Fits ([] : List Bytes).length := by decide
  have h := extend_eq (D := D) additions hnil
  rw [List.length_nil, Nat.zero_add, List.nil_append] at h
  exact h

theorem build_eq_returns {additions : List Addition} {tree : Tree D}
    (h : build additions = .returns tree) :
    Fits additions.length ∧ tree = Tree.fromLeaves (additions.map Addition.leaf) ∧
      tree.Holds (additions.map Addition.leaf) := by
  rw [build_eq] at h
  split_ifs at h with hfits
  have hlt := hfits.lt
  obtain rfl := Outcome.returns.inj h
  exact ⟨hfits, rfl, Tree.fromLeaves_holds (by rw [List.length_map]; omega)⟩

theorem root_eq {tree : Tree D} {leaves : List Bytes} (h : tree.Holds leaves)
    (hfits : Fits leaves.length) : root tree = .returns tree.root := by
  have hlt := hfits.lt
  unfold root Tree.root
  by_cases hnil : tree.nodes = []
  · rw [if_pos hnil, if_pos hnil]
  · have hpos : 0 < leaves.length := by
      rw [h.nodes_eq_nil_iff] at hnil
      exact List.length_pos_iff.mpr hnil
    have hroot : Merkle.completeRoot (2 * leaves.length - 1) < 2 * leaves.length - 1 := by
      rw [Merkle.completeRoot_eq hpos]
      exact index_lt_iff.mpr (isNode_root hpos)
    rw [if_neg hnil, if_neg hnil, h.length, completeRoot_eq (by omega), Outcome.returns_bind,
      getNode_eq h.length hfits hroot]

/-- The root of a tree that was built, in whatever way, is the merkle tree hash of its leaves. -/
theorem root_build (additions : List Addition) :
    (build additions >>= root : Outcome D) =
      if Fits additions.length then .returns (treeHash (additions.map Addition.leaf))
      else .panics := by
  rw [build_eq]
  by_cases hfits : Fits additions.length
  · have hfits' : Fits (additions.map Addition.leaf).length := by
      rw [List.length_map]
      exact hfits
    have hlt := hfits'.lt
    have hholds : (Tree.fromLeaves (additions.map Addition.leaf) : Tree D).Holds
        (additions.map Addition.leaf) := Tree.fromLeaves_holds (by omega)
    rw [if_pos hfits, if_pos hfits, Outcome.returns_bind, root_eq hholds hfits',
      hholds.root_eq_treeHash]
  · rw [if_neg hfits, if_neg hfits]
    rfl

/-! ## Proofs of the leaves -/

section

variable {tree : Tree D} {leaves : List Bytes}

/-- The loop of `construct_proof` ends at the root, without a panic. -/
theorem auditPath_eq (h : tree.Holds leaves) (hfits : Fits leaves.length) {l q : ℕ}
    (fuel fuel' : ℕ) (hnode : IsNode leaves.length l q)
    (hfuel : Nat.clog 2 leaves.length < l + fuel) (hfuel' : Nat.clog 2 leaves.length ≤ l + fuel') :
    auditPath tree (Merkle.completeRoot (2 * leaves.length - 1)) fuel (index l q) =
      .returns (tree.auditPath fuel' (index l q)) := by
  have hpos : 0 < leaves.length := by
    have := hnode.start_lt
    omega
  induction fuel generalizing l q fuel' with
  | zero => rcases hnode.le_root with hl | ⟨hl, -⟩ <;> omega
  | succ fuel ih =>
    rw [auditPath]
    by_cases hroot : index l q = Merkle.completeRoot (2 * leaves.length - 1)
    · rw [if_pos hroot]
      cases fuel' with
      | zero => rfl
      | succ fuel' =>
        rw [Tree.auditPath, h.length, if_pos hroot]
    · have hl : l < Nat.clog 2 leaves.length := by
        rw [Merkle.completeRoot_eq hpos] at hroot
        rcases hnode.le_root with hlt | ⟨rfl, rfl⟩
        · exact hlt
        · exact absurd rfl hroot
      obtain ⟨fuel', rfl⟩ : ∃ f, fuel' = f + 1 := ⟨fuel' - 1, by omega⟩
      obtain ⟨d, r, -, hparent, -, hloop, hloop'⟩ := completeParent_index hfits hnode.start_lt hl
      have hstep := ih fuel' hparent (by omega) (by omega)
      rw [if_neg hroot, Tree.auditPath, h.length, if_neg hroot, hloop, completeParentAndSibling,
        Outcome.assert_of (index_lt_iff.mpr hnode), Outcome.returns_bind, hloop',
        Outcome.returns_bind]
      dsimp only
      by_cases hside : index l q < index (l + d + 1) (r / 2)
      · rw [if_pos hside, if_pos hside, completeRightChild_node hfits hparent, Outcome.returns_bind,
          Outcome.pure_eq, Outcome.returns_bind]
        dsimp only
        rw [getNode_eq h.length hfits (completeRightChild_lt hparent), Outcome.returns_bind, hstep]
        rfl
      · rw [if_neg hside, if_neg hside, completeLeftChild_eq hfits hparent, Outcome.returns_bind,
          Outcome.pure_eq, Outcome.returns_bind]
        dsimp only
        rw [getNode_eq h.length hfits (completeLeftChild_lt hparent), Outcome.returns_bind, hstep]
        rfl

/-- `construct_proof`: on a tree with leaves an index of the upper half of the words panics. -/
theorem constructProof_eq (h : tree.Holds leaves) (hfits : Fits leaves.length) (i : ℕ) :
    constructProof tree i =
      if leaves = [] ∨ 2 * i ≤ u64Max then .returns (tree.constructProof i) else .panics := by
  have hlt := hfits.lt
  have hclog := hfits.clog_le
  have hdouble : i * 2 = Merkle.leafIndexToTreeIndex i := Nat.mul_comm i 2
  unfold constructProof Tree.constructProof
  by_cases hnil : leaves = []
  · have hzero : tree.nodes.length = 0 := List.length_eq_zero_iff.mpr (h.nodes_eq_nil_iff.mpr hnil)
    rw [if_pos hzero, if_pos (Or.inl hnil), if_neg (by rw [hzero]; omega)]
  · have hpos : 0 < leaves.length := List.length_pos_iff.mpr hnil
    rw [h.length, if_neg (by omega), leafIndexToTreeIndex, checkedMul, hdouble]
    by_cases hword : 2 * i ≤ u64Max
    · have hword' : Merkle.leafIndexToTreeIndex i ≤ u64Max := hword
      rw [if_pos hword', if_pos (Or.inr hword), Outcome.ofOption_some, Outcome.returns_bind]
      by_cases hin : Merkle.leafIndexToTreeIndex i < 2 * leaves.length - 1
      · have hnode : IsNode leaves.length 0 i := by
          rw [← index_lt_iff, index_zero]
          exact hin
        rw [if_neg (not_not_intro hin), if_pos hin, completeRoot_eq (by omega),
          Outcome.returns_bind, ← index_zero,
          auditPath_eq h hfits rounds 64 hnode (by unfold rounds; omega) (by omega),
          Outcome.returns_bind]
        rfl
      · rw [if_pos hin, if_neg hin]
        rfl
    · have hword' : ¬ Merkle.leafIndexToTreeIndex i ≤ u64Max := hword
      rw [if_neg hword', if_neg (not_or.mpr ⟨hnil, hword⟩)]
      rfl

end

/-! ### Verifying -/

theorem reconstructLoop_eq {treeSize : ℕ} (hn : treeSize ≤ u64Max) (path : List D) {i : ℕ}
    (hi : i ≤ u64Max) (acc : D) :
    reconstructLoop treeSize path i acc =
      .ofOption (Merkle.reconstructLoop treeSize path i acc) := by
  induction path generalizing i acc with
  | nil => rfl
  | cons sibling rest ih =>
    rw [reconstructLoop, Merkle.reconstructLoop, completeParent_eq hi hn]
    cases hparent : Merkle.completeParent i treeSize with
    | none => rfl
    | some parent =>
      have hlt := completeParent_lt hparent
      rw [Outcome.ofOption_some, Outcome.returns_bind, ih (by omega)]

/-- The proofs whose leaf index is inside the tree, with indices that are words. -/
def InTree (proof : Proof D) : Prop :=
  2 * proof.leafIndex < proof.treeSize ∧ proof.treeSize ≤ u64Max

instance (proof : Proof D) : Decidable (InTree proof) := instDecidableAnd

theorem reconstructRootWithLeafHash_eq {proof : Proof D} (h : InTree proof) (leafHash : D) :
    reconstructRootWithLeafHash proof leafHash =
      .ofOption (proof.reconstructRootWithLeafHash leafHash) := by
  obtain ⟨hin, hn⟩ := h
  unfold reconstructRootWithLeafHash Proof.reconstructRootWithLeafHash leafIndexToTreeIndex checkedMul
  rw [if_pos (by omega), Outcome.ofOption_some, Outcome.returns_bind, Nat.mul_comm,
    reconstructLoop_eq hn _ (by omega)]
  rfl

theorem verify_eq [DecidableEq D] {proof : Proof D} (h : InTree proof) (leaf : Bytes) (rootHash : D) :
    verify proof leaf rootHash = .ofOption (proof.verify leaf rootHash) := by
  unfold verify reconstructRootWithLeaf Proof.verify
  rw [reconstructRootWithLeafHash_eq h]
  cases proof.reconstructRootWithLeafHash (hashLeaf leaf) <;> rfl

/-! ### What `construct_proof` promises -/

section

variable [DecidableEq D]

/-- `construct_proof` gives a proof exactly for the leaves of the tree, and the proof verifies the leaf
against the root. -/
def ProvesExactly (leaves : List Bytes) (tree : Tree D) (i : ℕ) : Prop :=
  match constructProof tree i with
  | .returns (some proof) =>
    ∃ leaf, leaves[i]? = some leaf ∧
      (root tree >>= fun rootHash => verify proof leaf rootHash) = .returns true
  | .returns none => leaves.length ≤ i
  | _ => False

omit [DecidableEq D] in
theorem inTree_of_constructProof {tree : Tree D} {leaves : List Bytes} (h : tree.Holds leaves)
    (hfits : Fits leaves.length) {i : ℕ} {proof : Proof D}
    (hproof : tree.constructProof i = some proof) : InTree proof := by
  have hlt := hfits.lt
  unfold Tree.constructProof at hproof
  split_ifs at hproof with hin
  rw [← Option.some.inj hproof]
  refine ⟨hin, ?_⟩
  dsimp only
  rw [h.length]
  unfold u64Max
  omega

/-- `construct_proof` keeps its promise on all indices but those of the upper half of the words, which
it cannot double; these are a panic as soon as the tree has a leaf. -/
theorem provesExactly_iff {additions : List Addition} {tree : Tree D}
    (h : build additions = .returns tree) (i : UInt64) :
    ProvesExactly (additions.map Addition.leaf) tree i.toNat ↔
      additions = [] ∨ i.toNat < 2 ^ 63 := by
  obtain ⟨hfits, rfl, hholds⟩ := build_eq_returns h
  have hlt := hfits.lt
  have hlen : (additions.map Addition.leaf).length = additions.length := List.length_map _
  have hfits' : Fits (additions.map Addition.leaf).length := by rw [hlen]; exact hfits
  have hword : 2 * i.toNat ≤ u64Max ↔ i.toNat < 2 ^ 63 := by
    unfold u64Max
    omega
  have hiff : (additions.map Addition.leaf = [] ∨ 2 * i.toNat ≤ u64Max) ↔
      (additions = [] ∨ i.toNat < 2 ^ 63) := or_congr List.map_eq_nil_iff hword
  unfold ProvesExactly
  rw [constructProof_eq hholds hfits', ← hiff]
  by_cases hcond : additions.map Addition.leaf = [] ∨ 2 * i.toNat ≤ u64Max
  · rw [if_pos hcond]
    refine iff_of_true ?_ hcond
    by_cases hin : i.toNat < (additions.map Addition.leaf).length
    · obtain ⟨proof, hproof, -, -, hverify⟩ :=
        constructProof_verify (D := D) (additions.map Addition.leaf) (by omega) hin
      have hinTree := inTree_of_constructProof hholds hfits' hproof
      rw [hproof]
      refine ⟨_, List.getElem?_eq_getElem hin, ?_⟩
      rw [root_eq hholds hfits', Outcome.returns_bind, verify_eq hinTree, hverify]
      rfl
    · have hnone : (Tree.fromLeaves (additions.map Addition.leaf) : Tree D).constructProof i.toNat =
          none := by
        unfold Tree.constructProof Merkle.leafIndexToTreeIndex
        rw [if_neg (by rw [hholds.length]; omega)]
      rw [hnone]
      exact Nat.not_lt.mp hin
  · rw [if_neg hcond]
    exact iff_of_false not_false hcond

end

end Machine

/-! ### A tree with SHA-256 -/

/-- SHA-256 itself. -/
@[reducible] def sha256Hasher : Hasher Bytes32 where
  sha256 := fun bytes => ⟨Sha256.digest bytes, Sha256.length_digest bytes⟩
  toBytes := List.Vector.toList
  zeros := List.Vector.replicate 32 0

section

attribute [local instance] sha256Hasher

open Machine

/-- Three leaves, one of them written in two parts. -/
def threeLeaves : List Addition := [.push [1], .buildLeaf [[2], [3, 4]], .push []]

theorem build_threeLeaves :
    build threeLeaves = .returns (Tree.fromLeaves [[1], [2, 3, 4], []] : Tree Bytes32) :=
  (build_eq threeLeaves).trans (if_pos (by decide))

theorem provesExactly_iff_threeLeaves :
    ProvesExactly [[1], [2, 3, 4], []] (Tree.fromLeaves [[1], [2, 3, 4], []] : Tree Bytes32) 2 :=
  (provesExactly_iff build_threeLeaves 2).mpr (Or.inr (by decide))

/-- The index `2 ^ 63` of a tree with one leaf is neither a leaf nor refused. -/
theorem constructProof_panics :
    ∃ tree : Tree Bytes32, build [.push [1]] = .returns tree ∧
      constructProof tree (2 ^ 63) = .panics ∧ ¬ ProvesExactly [[1]] tree (2 ^ 63) := by
  have hbuild : build [.push [1]] = .returns (Tree.fromLeaves [[1]] : Tree Bytes32) :=
    (build_eq [.push [1]]).trans (if_pos (by decide))
  have hpanics : constructProof (Tree.fromLeaves [[1]] : Tree Bytes32) (2 ^ 63) = .panics := by
    rw [constructProof_eq (build_eq_returns hbuild).2.2 (by decide), if_neg (by decide)]
  refine ⟨_, hbuild, hpanics, ?_⟩
  unfold ProvesExactly
  rw [hpanics]
  exact not_false

end

end Astria.Merkle
