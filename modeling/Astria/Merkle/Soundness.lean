import Astria.Merkle.TreeHash

/-!
# Soundness of the proofs

What a proof of `crates/astria-merkle/src/audit.rs` that verifies says about the tree, whatever its
audit path, leaf index and tree size are.  The hash is not asked to be injective, only not to collide
on the bytes that are hashed for the tree and for the proof.

A path that ends at the root is a path of the tree, so the leaf is in the tree.  Where it is in the
tree is a different matter: the sides of the nodes come from the leaf index, but nothing asks that the
path has as many nodes as there are levels above that index.

Results:
* `exists_constructProof_of_descend`: a path down the tree is the proof of a leaf, turned around;
* `verify_of_moved`: the path of one leaf verifies at the index of another with the same sides;
* `sound_iff`: apart from these, a proof is sound.
-/

namespace Astria.Merkle

open Astria.Core Astria.Lib HashTree

variable {D : Type} [hasher : Hasher D]

/-! ## From the root to a leaf -/

/-- From a node on, the path to the root that `construct_proof` takes has these sides and siblings
first, and goes on from another node. -/
def LeadsTo (tree : Tree D) (size i : ℕ) (sides : List Bool) (siblings : List D) (p : ℕ) : Prop :=
  (∀ k, turns size (sides.length + k) i = (turns size k p).map (sides ++ ·)) ∧
    (∀ fuel, tree.auditPath (sides.length + fuel) i = siblings ++ tree.auditPath fuel p) ∧
    siblings.length = sides.length

theorem leadsTo_self (tree : Tree D) (size i : ℕ) : LeadsTo tree size i [] [] i := by
  refine ⟨?_, ?_, rfl⟩
  · intro k
    rw [List.length_nil, Nat.zero_add]
    exact Option.map_id'.symm
  · intro fuel
    rw [List.length_nil, Nat.zero_add, List.nil_append]

theorem LeadsTo.step {tree : Tree D} {size i p parent : ℕ} {sides : List Bool} {siblings : List D}
    {sibling : D} (h : LeadsTo tree size i sides siblings p)
    (hparent : completeParent p size = some parent)
    (hpath : ∀ fuel, tree.auditPath (fuel + 1) p = sibling :: tree.auditPath fuel parent) :
    LeadsTo tree size i (sides ++ [decide (p < parent)]) (siblings ++ [sibling]) parent := by
  obtain ⟨hturns, haudit, hlen⟩ := h
  refine ⟨?_, ?_, by rw [List.length_append, List.length_append, hlen]; rfl⟩
  · intro k
    rw [List.length_append, List.length_singleton, Nat.add_assoc, Nat.add_comm 1 k, hturns, turns,
      hparent, Option.map_map]
    congr 1
    funext rest
    rw [Function.comp_apply, List.append_assoc, List.singleton_append]
  · intro fuel
    rw [List.length_append, List.length_singleton, Nat.add_assoc, Nat.add_comm 1 fuel, haudit, hpath,
      List.append_assoc, List.singleton_append]

section

variable {tree : Tree D} {leaves : List Bytes}

theorem Tree.Holds.auditPath_leftChild (h : tree.Holds leaves) {l q : ℕ}
    (hnode : IsNode leaves.length (l + 1) q) (fuel : ℕ) :
    tree.auditPath (fuel + 1) (index l (2 * q)) =
      blockDigest leaves l (2 * q + 1) :: tree.auditPath fuel (index (l + 1) q) := by
  have hpos : 0 < leaves.length := by
    have := hnode.start_lt
    omega
  obtain ⟨k, d, hk, hchild, hleft, hindex⟩ := completeRightChild_index hnode
  have hroot : index l (2 * q) ≠ completeRoot (2 * leaves.length - 1) := by
    intro heq
    rw [completeRoot_eq hpos] at heq
    obtain ⟨rfl, -⟩ := index_inj heq
    rcases hnode.le_root with hl | ⟨hl, -⟩ <;> omega
  rw [Tree.auditPath, h.length, if_neg hroot, completeParent_leftChild hnode]
  dsimp only
  rw [if_pos index_leftChild_lt, hindex, h.node _ _ hchild, hleft.blockDigest_eq, ← hk]

theorem Tree.Holds.auditPath_rightChild (h : tree.Holds leaves) {k d q : ℕ}
    (hnode : IsNode leaves.length (k + d + 1) q) (hchild : IsNode leaves.length k ((2 * q + 1) * 2 ^ d))
    (hleft : Leftmost leaves.length k d (2 * q + 1)) (hd : d < 64) (fuel : ℕ) :
    tree.auditPath (fuel + 1) (index k ((2 * q + 1) * 2 ^ d)) =
      blockDigest leaves (k + d) (2 * q) :: tree.auditPath fuel (index (k + d + 1) q) := by
  have hpos : 0 < leaves.length := by
    have := hnode.start_lt
    omega
  have hroot : index k ((2 * q + 1) * 2 ^ d) ≠ completeRoot (2 * leaves.length - 1) := by
    intro heq
    rw [completeRoot_eq hpos] at heq
    obtain ⟨rfl, hq⟩ := index_inj heq
    have : 0 < (2 * q + 1) * 2 ^ d := Nat.mul_pos (by omega) (Nat.two_pow_pos d)
    omega
  rw [Tree.auditPath, h.length, if_neg hroot, completeParent_rightChild hnode hleft hd]
  dsimp only
  rw [if_neg index_rightChild_gt, completeLeftChild, perfectLeftChild_index, h.node _ _ hnode.left]

/-- A path down to a leaf is the way up from that leaf, turned around. -/
theorem Tree.Holds.leadsTo_of_descend (h : tree.Holds leaves)
    (hclog : Nat.clog 2 leaves.length ≤ 63) {l q : ℕ} (hnode : IsNode leaves.length l q)
    {sides : List Bool} {a : Bytes} {siblings : List D}
    (hdescend : (cut (fun i => leaves.getD i []) leaves.length l q).descend
      (hashInput : Input Bytes D → D) sides = some (.leaf a, siblings)) :
    ∃ j, leaves[j]? = some a ∧ sides.length ≤ l ∧
      LeadsTo tree (2 * leaves.length - 1) (index 0 j) sides.reverse siblings.reverse (index l q) := by
  induction l using Nat.strong_induction_on generalizing q sides siblings with
  | _ l ih =>
    cases l with
    | zero =>
      have hq := isNode_zero.mp hnode
      cases sides with
      | cons side sides => cases hdescend
      | nil =>
        cases hdescend
        refine ⟨q, ?_, le_refl 0, leadsTo_self _ _ _⟩
        dsimp only
        rw [List.getD_eq_getElem?_getD, List.getElem?_eq_getElem hq, Option.getD_some]
    | succ l =>
      rw [cut_succ_of_lt (isNode_succ.mp hnode)] at hdescend
      match sides, hdescend with
      | true :: sides, hdescend =>
        obtain ⟨⟨t, rest⟩, hrest, heq⟩ := Option.map_eq_some_iff.mp hdescend
        cases heq
        obtain ⟨j, hj, hlen, hleads⟩ := ih l (by omega) hnode.left hrest
        refine ⟨j, hj, by rw [List.length_cons]; omega, ?_⟩
        have hstep := hleads.step (completeParent_leftChild hnode) (h.auditPath_leftChild hnode)
        rw [decide_eq_true index_leftChild_lt] at hstep
        rw [List.reverse_cons, List.reverse_cons]
        exact hstep
      | false :: sides, hdescend =>
        obtain ⟨⟨t, rest⟩, hrest, heq⟩ := Option.map_eq_some_iff.mp hdescend
        cases heq
        obtain ⟨k, d, rfl, hchild, hleft, -⟩ := completeRightChild_index hnode
        rw [hleft.cut_eq] at hrest
        have hd : d < 64 := by
          rcases hnode.le_root with hl | ⟨hl, -⟩ <;> omega
        obtain ⟨j, hj, hlen, hleads⟩ := ih k (by omega) hchild hrest
        refine ⟨j, hj, by rw [List.length_cons]; omega, ?_⟩
        have hstep := hleads.step (completeParent_rightChild hnode hleft hd)
          (h.auditPath_rightChild hnode hchild hleft hd)
        rw [decide_eq_false index_rightChild_gt] at hstep
        rw [List.reverse_cons, List.reverse_cons]
        exact hstep

/-- A path from the root to a leaf is that of the proof of the leaf. -/
theorem Tree.Holds.exists_constructProof_of_descend (h : tree.Holds leaves)
    (hclog : Nat.clog 2 leaves.length ≤ 63) (hne : leaves ≠ []) {sides : List Bool} {a : Bytes}
    {siblings : List D}
    (hdescend : (ofList [] leaves).descend (hashInput : Input Bytes D → D) sides =
      some (.leaf a, siblings)) :
    ∃ j proof, leaves[j]? = some a ∧ tree.constructProof j = some proof ∧
      proof.auditPath = siblings.reverse ∧ proof.turns = some sides.reverse := by
  have hpos : 0 < leaves.length := List.length_pos_iff.mpr hne
  obtain ⟨j, hj, hlen, hturns, haudit, hsiblings⟩ :=
    h.leadsTo_of_descend hclog (isNode_root hpos) hdescend
  have hin : j < leaves.length := (List.getElem?_eq_some_iff.mp hj).1
  have hpath : tree.auditPath 64 (leafIndexToTreeIndex j) = siblings.reverse := by
    have hfuel := haudit (64 - sides.length)
    rw [List.length_reverse, Nat.add_sub_cancel' (by omega)] at hfuel
    obtain ⟨more, hmore⟩ : ∃ more, 64 - sides.length = more + 1 := ⟨63 - sides.length, by omega⟩
    rw [← index_zero, hfuel, hmore, Tree.auditPath, h.length, completeRoot_eq hpos, if_pos rfl,
      List.append_nil]
  have hsides := hturns 0
  rw [Nat.add_zero, turns, Option.map_some, List.append_nil, ← hsiblings] at hsides
  refine ⟨j, _, hj, if_pos ?_, hpath, ?_⟩
  · rw [h.length, leafIndexToTreeIndex]
    omega
  · unfold Proof.turns
    dsimp only
    rw [hpath, h.length, ← index_zero, hsides]

end

/-! ## What a proof says -/

/-- The hash does not collide on these bytes. -/
def NoCollision (D : Type) [hasher : Hasher D] (l : List Bytes) : Prop :=
  ∀ a ∈ l, ∀ b ∈ l, hasher.sha256 a = hasher.sha256 b → a = b

instance [DecidableEq D] (l : List Bytes) : Decidable (NoCollision D l) := by
  unfold NoCollision
  infer_instance

/-- What is hashed for a tree and when a proof is verified. -/
def hashedBytes (leaves : List Bytes) (proof : Proof D) (leaf : Bytes) : List Bytes :=
  treeBytes D leaves ++ (proof.inputs leaf).map encodeInput

variable [DecidableEq D]

open Machine in
/-- If the proof verifies the leaf against the root, then the leaf is in the tree, and if the proof has
the size of the tree, it is the leaf at the proof's index. -/
def Sound (tree : Tree D) (leaves : List Bytes) (proof : Proof D) (leaf : Bytes) : Prop :=
  (root tree >>= fun rootHash => verify proof leaf rootHash) = .returns true →
    leaf ∈ leaves ∧ (proof.treeSize = tree.nodes.length → leaves[proof.leafIndex]? = some leaf)

open Machine in
/-- The path is the one of another leaf, above which the nodes are on the same sides as above the leaf
at the proof's index. -/
def Moved (tree : Tree D) (leaves : List Bytes) (proof : Proof D) (leaf : Bytes) : Prop :=
  ∃ j other, constructProof tree j = .returns (some other) ∧ leaves[j]? = some leaf ∧
    proof.treeSize = other.treeSize ∧ proof.auditPath = other.auditPath ∧
    proof.turns = other.turns ∧ leaves[proof.leafIndex]? ≠ some leaf

section

variable {tree : Tree D} {leaves : List Bytes} {proof : Proof D} {leaf : Bytes}

/-- A proof verifies as the proof of another leaf does, if the sides are the same. -/
theorem verify_of_moved (h64 : leaves.length ≤ 2 ^ 63) {j : ℕ}
    {other : Proof D} (hother : tree.constructProof j = some other) (hj : leaves[j]? = some leaf)
    (htree : tree = Tree.fromLeaves leaves) (hpath : proof.auditPath = other.auditPath)
    (hturns : proof.turns = other.turns) : proof.verify leaf tree.root = some true := by
  obtain ⟨hin, rfl⟩ := List.getElem?_eq_some_iff.mp hj
  obtain ⟨honest, hhonest, -, -, hverify⟩ := constructProof_verify (D := D) leaves h64 hin
  rw [← htree, hother] at hhonest
  obtain rfl := Option.some.inj hhonest
  rw [← htree] at hverify
  obtain ⟨sides, hsides, hclimb⟩ := Proof.verify_eq_some_true.mp hverify
  exact Proof.verify_eq_some_true.mpr ⟨sides, hturns.trans hsides, hpath ▸ hclimb⟩

/-- A proof that verifies is a path of the tree. -/
theorem descend_of_verify (hsplits : Splits D) (h : tree.Holds leaves)
    (hfree : NoCollision D (hashedBytes leaves proof leaf))
    (hverify : proof.verify leaf tree.root = some true) :
    leaves ≠ [] ∧ ∃ sides, proof.turns = some sides ∧
      (ofList [] leaves).descend (hashInput : Input Bytes D → D) sides.reverse =
        some (.leaf leaf, proof.auditPath.reverse) := by
  obtain ⟨sides, hsides, hclimb⟩ := Proof.verify_eq_some_true.mp hverify
  have hS := hashInput_injOn hsplits (S := {bytes | bytes ∈ hashedBytes leaves proof leaf})
    (fun a ha b hb hab => hfree a ha b hb hab)
  have hproof (input : Input Bytes D) (hinput : input ∈ proof.inputs leaf) :
      encodeInput input ∈ hashedBytes leaves proof leaf :=
    List.mem_append_right _ (List.mem_map_of_mem hinput)
  have hlen : sides.length = proof.auditPath.length := length_turns hsides
  unfold Proof.inputs at hproof
  rw [hsides, Option.getD_some] at hproof
  have hne : leaves ≠ [] := by
    rintro rfl
    -- the root of an empty tree is the hash of no bytes, which nothing on a path is
    have hempty : [] ∈ hashedBytes [] proof leaf :=
      List.mem_append_left _ (List.mem_singleton_self _)
    obtain ⟨input, hinput, hlast⟩ := exists_input_of_climb (hashInput : Input Bytes D → D) leaf
      (sides.zip proof.auditPath)
    have hroot : tree.root = hasher.sha256 [] := by
      unfold Tree.root
      rw [if_pos (h.nodes_eq_nil_iff.mpr rfl)]
    have hcollide := hfree _ (hproof input hinput) _ hempty (by
      rw [← hashInput_eq, ← hlast, ← hroot]
      exact hclimb)
    cases input <;> cases hcollide
  refine ⟨hne, sides, hsides, ?_⟩
  rw [h.root_eq hne] at hclimb
  have hdescend := Tree.descend_of_climb hS (a := leaf) (p := sides.zip proof.auditPath)
    (hproof _ (List.mem_cons_self ..)) (fun i hi => hproof i (List.mem_cons_of_mem _ hi))
    (fun i hi => List.mem_append_left _ (mem_treeBytes hne hi)) hclimb
  rw [List.map_fst_zip (by omega), List.map_snd_zip (by omega)] at hdescend
  exact hdescend

/-- What a proof verifies is a leaf of the tree. -/
theorem Tree.Holds.mem_of_verify (h : tree.Holds leaves) (hsplits : Splits D)
    (h64 : leaves.length ≤ 2 ^ 63) (hfree : NoCollision D (hashedBytes leaves proof leaf))
    (hverify : proof.verify leaf tree.root = some true) : leaf ∈ leaves := by
  obtain ⟨hne, sides, -, hdescend⟩ := descend_of_verify hsplits h hfree hverify
  obtain ⟨j, -, hj, -⟩ :=
    h.exists_constructProof_of_descend (Nat.clog_le_of_le_pow h64) hne hdescend
  exact List.mem_of_getElem? hj

end

open Machine in
/-- A proof is sound unless it is the proof of another leaf, moved to an index with the same sides. -/
theorem sound_iff (hsplits : Splits D) {additions : List Addition} {tree : Tree D}
    (hbuild : build additions = .returns tree) {proof : Proof D} (hproof : InTree proof)
    {leaf : Bytes}
    (hfree : NoCollision D (hashedBytes (additions.map Addition.leaf) proof leaf)) :
    Sound tree (additions.map Addition.leaf) proof leaf ↔
      ¬ Moved tree (additions.map Addition.leaf) proof leaf := by
  obtain ⟨hfits, htree, hholds⟩ := build_eq_returns hbuild
  have hfits' : Fits (additions.map Addition.leaf).length := by
    rw [List.length_map]
    exact hfits
  have hlt := hfits'.lt
  have hcheck : (root tree >>= fun rootHash => verify proof leaf rootHash) = .returns true ↔
      proof.verify leaf tree.root = some true := by
    rw [root_eq hholds hfits', Outcome.returns_bind, verify_eq hproof, Outcome.ofOption_eq_returns]
  unfold Sound
  rw [hcheck]
  constructor
  · rintro hsound ⟨j, other, hother, hj, hsize, hpath, hturns, hne⟩
    rw [constructProof_eq hholds hfits'] at hother
    split_ifs at hother with hword
    have hother := Outcome.returns.inj hother
    have hsize' : other.treeSize = tree.nodes.length := by
      unfold Tree.constructProof at hother
      split_ifs at hother
      rw [← Option.some.inj hother]
    exact hne ((hsound (verify_of_moved (by omega) hother hj htree hpath hturns)).2
      (hsize.trans hsize'))
  · intro hmoved hverify
    obtain ⟨hne, sides, hsides, hdescend⟩ := descend_of_verify hsplits hholds hfree hverify
    obtain ⟨j, other, hj, hother, hpath, hturns⟩ :=
      hholds.exists_constructProof_of_descend hfits'.clog_le hne hdescend
    refine ⟨List.mem_of_getElem? hj, ?_⟩
    intro hsize
    by_contra hother'
    rw [List.reverse_reverse] at hpath hturns
    have hin := (List.getElem?_eq_some_iff.mp hj).1
    have hsize' : other.treeSize = tree.nodes.length := by
      unfold Tree.constructProof at hother
      split_ifs at hother
      rw [← Option.some.inj hother]
    refine hmoved ⟨j, other, ?_, hj, hsize.trans hsize'.symm, hpath.symm, hsides.trans hturns.symm,
      hother'⟩
    rw [constructProof_eq hholds hfits', if_pos (Or.inr (by unfold u64Max; omega)), hother]

/-! ### A tree with SHA-256 -/

section

attribute [local instance] sha256Hasher

open Machine

theorem splits_sha256 : Splits Bytes32 := by
  intro l r l' r' h
  have hlen : l.toList.length = l'.toList.length := by rw [l.toList_length, l'.toList_length]
  obtain ⟨hl, hr⟩ := List.append_inj h hlen
  exact ⟨List.Vector.toList_injective hl, List.Vector.toList_injective hr⟩

def numbered : List Addition := [.push [1], .push [2], .push [3]]

/-- The path of the third leaf, with the index of the second. -/
def movedProof : Proof Bytes32 :=
  { auditPath := [combine (hashLeaf [1]) (hashLeaf [2])], leafIndex := 1, treeSize := 5 }

theorem build_numbered :
    build numbered = .returns (Tree.fromLeaves [[1], [2], [3]] : Tree Bytes32) :=
  (build_eq numbered).trans (if_pos (by decide))

/-- Of the proof that says that the third leaf is the second. -/
theorem sound_iff_numbered :
    Sound (Tree.fromLeaves [[1], [2], [3]] : Tree Bytes32) [[1], [2], [3]] movedProof [2] ↔
      ¬ Moved (Tree.fromLeaves [[1], [2], [3]]) [[1], [2], [3]] movedProof [2] :=
  sound_iff splits_sha256 build_numbered (by decide) (by decide +kernel)

set_option maxRecDepth 20000 in
/-- The third of three leaves verifies as the second, in a tree of the right size. -/
theorem movedProof_verifies :
    InTree movedProof ∧
      NoCollision Bytes32 (hashedBytes [[1], [2], [3]] movedProof [3]) ∧
      ∃ tree : Tree Bytes32, build numbered = .returns tree ∧
        (root tree >>= fun rootHash => verify movedProof [3] rootHash) = .returns true ∧
        movedProof.treeSize = tree.nodes.length ∧ ¬ Sound tree [[1], [2], [3]] movedProof [3] := by
  have hverify : (root (Tree.fromLeaves [[1], [2], [3]] : Tree Bytes32) >>= fun rootHash =>
      verify movedProof [3] rootHash) = .returns true := by decide +kernel
  have hsize : movedProof.treeSize =
      (Tree.fromLeaves [[1], [2], [3]] : Tree Bytes32).nodes.length := by decide +kernel
  refine ⟨by decide, by decide +kernel, _, build_numbered, hverify, hsize, ?_⟩
  intro hsound
  have hleaf := (hsound hverify).2 hsize
  cases hleaf

end

end Astria.Merkle
