import Astria.Merkle.Nodes

/-!
# Proofs of inclusion

The proofs of `crates/astria-merkle/src/audit.rs`: they are complete, for every tree that fits in
memory, and they bind a leaf to its position, if no two of the inputs that were hashed collide.

Results:
* `constructProof_verify`: every leaf of a tree has a proof, which verifies against the root;
* `Proof.verify_injOn`: proofs with one position verify one leaf against a root;
* `root_fromLeaves_injOn`: trees with one root have the same leaves.
-/

namespace Astria.Merkle

open Astria.Core Astria.Lib HashTree

variable {D : Type} [hasher : Hasher D]

/-! ## Completeness -/

section

variable {tree : Tree D} {leaves : List Bytes}

/-- The sibling that the proof takes is the other half of the parent's block. -/
theorem Tree.Holds.combine_sibling (h : tree.Holds leaves) {l d r : ℕ}
    (hparent : IsNode leaves.length (l + d + 1) (r / 2))
    (hleft : Leftmost leaves.length l d r) :
    (if r % 2 = 0 then
        combine (blockDigest leaves l (r * 2 ^ d))
          (tree.getNode (completeRightChild (index (l + d + 1) (r / 2)) (2 * leaves.length - 1)))
      else
        combine (tree.getNode (completeLeftChild (index (l + d + 1) (r / 2))))
          (blockDigest leaves l (r * 2 ^ d))) =
      blockDigest leaves (l + d + 1) (r / 2) := by
  rw [blockDigest_node hparent, hleft.blockDigest_eq]
  by_cases heven : r % 2 = 0
  · obtain ⟨k, e, hk, hchild, hchildLeft, hchildIndex⟩ := completeRightChild_index hparent
    have hr : 2 * (r / 2) = r := by omega
    rw [if_pos heven, hchildIndex, h.node _ _ hchild, hchildLeft.blockDigest_eq, ← hk, hr]
  · have hr : 2 * (r / 2) + 1 = r := by omega
    rw [if_neg heven, completeLeftChild, perfectLeftChild_index, h.node _ _ hparent.left, hr]

/-- The audit path of a node leads from its digest to the root. -/
theorem Tree.Holds.reconstructLoop_auditPath (h : tree.Holds leaves) (fuel : ℕ) {l q : ℕ}
    (hnode : IsNode leaves.length l q) (hfuel : Nat.clog 2 leaves.length ≤ l + fuel)
    (h64 : Nat.clog 2 leaves.length ≤ 64) :
    reconstructLoop (2 * leaves.length - 1) (tree.auditPath fuel (index l q)) (index l q)
      (blockDigest leaves l q) = some (blockDigest leaves (Nat.clog 2 leaves.length) 0) := by
  have hpos : 0 < leaves.length := by
    have := hnode.start_lt
    omega
  induction fuel generalizing l q with
  | zero =>
    rcases hnode.le_root with hl | ⟨rfl, rfl⟩
    · omega
    · rfl
  | succ fuel ih =>
    rw [Tree.auditPath, h.length, completeRoot_eq hpos]
    by_cases hroot : index l q = index (Nat.clog 2 leaves.length) 0
    · obtain ⟨rfl, rfl⟩ := index_inj hroot
      rw [if_pos rfl]
      rfl
    · rw [if_neg hroot]
      have hl : l < Nat.clog 2 leaves.length := by
        rcases hnode.le_root with hlt | ⟨hl, hq⟩
        · exact hlt
        · rw [hl, hq] at hroot
          exact absurd rfl hroot
      obtain ⟨d, r, hr, hparent, hleft, hloop⟩ :=
        completeParentLoop_index 64 hnode.start_lt hl (by omega)
      have hside := index_lt_parent_iff (l := l) (d := d) (r := r)
      have hsibling := h.combine_sibling hparent hleft
      rw [hr] at hloop ⊢
      rw [completeParent, hloop]
      dsimp only
      rw [reconstructLoop, completeParent, hloop]
      dsimp only
      have hstep := ih hparent (by omega)
      rw [← hsibling] at hstep
      by_cases heven : r % 2 = 0
      · rw [if_pos heven] at hstep
        rw [if_pos (hside.mpr heven), if_pos (hside.mpr heven)]
        exact hstep
      · rw [if_neg heven] at hstep
        rw [if_neg (hside.not.mpr heven), if_neg (hside.not.mpr heven)]
        exact hstep

variable [DecidableEq D]

/-- Every leaf of a tree has a proof, and the proof verifies against the root. -/
theorem constructProof_verify (leaves : List Bytes) (h64 : leaves.length ≤ 2 ^ 63) {j : ℕ}
    (hj : j < leaves.length) :
    ∃ proof : Proof D, (Tree.fromLeaves leaves).constructProof j = some proof ∧
      proof.leafIndex = j ∧ proof.treeSize = 2 * leaves.length - 1 ∧
      proof.verify leaves[j] (Tree.fromLeaves leaves).root = some true := by
  have h := Tree.fromLeaves_holds (D := D) h64
  have hclog : Nat.clog 2 leaves.length ≤ 63 := Nat.clog_le_of_le_pow h64
  have hnode : IsNode leaves.length 0 j := isNode_zero.mpr hj
  unfold Tree.constructProof
  rw [if_pos (by rw [← index_zero, h.length]; exact index_lt_iff.mpr hnode)]
  refine ⟨_, rfl, rfl, h.length, ?_⟩
  have hleaf : (hashLeaf leaves[j] : D) = blockDigest leaves 0 j := by
    rw [blockDigest_zero, List.getD_eq_getElem?_getD, List.getElem?_eq_getElem hj,
      Option.getD_some]
  have hne : leaves ≠ [] := List.ne_nil_of_length_pos (by omega)
  unfold Proof.verify Proof.reconstructRootWithLeafHash
  dsimp only
  rw [h.length, ← index_zero, hleaf,
    h.reconstructLoop_auditPath 64 hnode (by omega) (by omega), h.root_eq hne]
  exact congrArg some (decide_eq_true rfl)

end

/-! ## Soundness -/

/-- The bytes that are hashed: leaves and nodes are told apart by their first byte. -/
def encodeInput : Input Bytes D → Bytes
  | .leaf leaf => 0 :: leaf
  | .node left right => 1 :: (hasher.toBytes left ++ hasher.toBytes right)

theorem hashInput_eq (input : Input Bytes D) :
    hashInput input = hasher.sha256 (encodeInput input) := by
  cases input <;> rfl

/-- Digests can be read back from their bytes. -/
def Splits (D : Type) [hasher : Hasher D] : Prop :=
  ∀ {l r l' r' : D}, hasher.toBytes l ++ hasher.toBytes r = hasher.toBytes l' ++ hasher.toBytes r' →
    l = l' ∧ r = r'

theorem encodeInput_inj (hsplits : Splits D) {a b : Input Bytes D}
    (h : encodeInput a = encodeInput b) : a = b := by
  cases a with
  | leaf x =>
    cases b with
    | leaf y => rw [(List.cons.inj h).2]
    | node l r => exact absurd (List.cons.inj h).1 (by decide)
  | node l r =>
    cases b with
    | leaf y => exact absurd (List.cons.inj h).1 (by decide)
    | node l' r' =>
      obtain ⟨hl, hr⟩ := hsplits (List.cons.inj h).2
      rw [hl, hr]

/-- A hash that does not collide on some bytes does not collide on the leaves and nodes that have
these bytes. -/
theorem hashInput_injOn (hsplits : Splits D) {S : Set Bytes} (hS : S.InjOn hasher.sha256) :
    {input : Input Bytes D | encodeInput input ∈ S}.InjOn hashInput := by
  intro a ha b hb h
  rw [hashInput_eq, hashInput_eq] at h
  exact encodeInput_inj hsplits (hS ha hb h)

/-- On which side of its parent each node of a path is; `none` where the source panics. -/
def turns (treeSize : ℕ) : ℕ → ℕ → Option (List Bool)
  | 0, _ => some []
  | length + 1, i =>
    match completeParent i treeSize with
    | none => none
    | some parent => (turns treeSize length parent).map (decide (i < parent) :: ·)

theorem reconstructLoop_eq_climb (treeSize : ℕ) (path : List D) (i : ℕ) (acc : D) :
    reconstructLoop treeSize path i acc =
      (turns treeSize path.length i).map fun sides => climb hashInput acc (sides.zip path) := by
  induction path generalizing i acc with
  | nil => rfl
  | cons sibling path ih =>
    rw [reconstructLoop, List.length_cons, turns]
    cases completeParent i treeSize with
    | none => rfl
    | some parent =>
      dsimp only
      rw [ih, Option.map_map]
      congr 1
      funext sides
      rw [Function.comp_apply, List.zip_cons_cons, climb, join]
      by_cases h : i < parent
      · rw [if_pos h, if_pos (decide_eq_true h)]
        rfl
      · rw [if_neg h, if_neg (by rw [decide_eq_true_iff]; exact h)]
        rfl

theorem length_turns {treeSize length i : ℕ} {sides : List Bool}
    (h : turns treeSize length i = some sides) : sides.length = length := by
  induction length generalizing i sides with
  | zero =>
    rw [← Option.some.inj h]
    rfl
  | succ length ih =>
    rw [turns] at h
    cases hp : completeParent i treeSize with
    | none =>
      rw [hp] at h
      cases h
    | some parent =>
      rw [hp] at h
      obtain ⟨rest, hrest, rfl⟩ := Option.map_eq_some_iff.mp h
      rw [List.length_cons, ih hrest]

namespace Proof

/-- The sides of a proof's path. -/
def turns (proof : Proof D) : Option (List Bool) :=
  Merkle.turns proof.treeSize proof.auditPath.length (leafIndexToTreeIndex proof.leafIndex)

/-- Proofs of the leaf at one place of a tree. -/
def SamePosition (p q : Proof D) : Prop :=
  p.leafIndex = q.leafIndex ∧ p.treeSize = q.treeSize ∧ p.auditPath.length = q.auditPath.length

instance (p q : Proof D) : Decidable (p.SamePosition q) := instDecidableAnd

omit hasher in
theorem SamePosition.turns_eq {p q : Proof D} (h : p.SamePosition q) : p.turns = q.turns := by
  unfold turns
  rw [h.1, h.2.1, h.2.2]

/-- What is hashed when a proof of a leaf is verified. -/
def inputs (proof : Proof D) (leaf : Bytes) : List (Input Bytes D) :=
  .leaf leaf :: climbInputs hashInput (hashLeaf leaf) ((proof.turns.getD []).zip proof.auditPath)

variable [DecidableEq D]

theorem verify_eq_some_true {proof : Proof D} {leaf : Bytes} {root : D} :
    proof.verify leaf root = some true ↔
      ∃ sides, proof.turns = some sides ∧
        climb hashInput (hashLeaf leaf) (sides.zip proof.auditPath) = root := by
  unfold verify reconstructRootWithLeafHash
  rw [reconstructLoop_eq_climb, Option.map_map, Option.map_eq_some_iff]
  constructor
  · rintro ⟨sides, hsides, hroot⟩
    exact ⟨sides, hsides, (of_decide_eq_true hroot).symm⟩
  · rintro ⟨sides, hsides, hroot⟩
    exact ⟨sides, hsides, decide_eq_true hroot.symm⟩

/-- Proofs with one position verify one leaf only. -/
theorem verify_injOn {S : Set (Input Bytes D)} (hS : S.InjOn hashInput) {p q : Proof D}
    (hpos : p.SamePosition q) {a b : Bytes} {root : D} (ha : ∀ i ∈ p.inputs a, i ∈ S)
    (hb : ∀ i ∈ q.inputs b, i ∈ S) (hp : p.verify a root = some true)
    (hq : q.verify b root = some true) : a = b := by
  obtain ⟨s, hs, hclimb⟩ := verify_eq_some_true.mp hp
  obtain ⟨t, ht, hclimb'⟩ := verify_eq_some_true.mp hq
  have hst : s = t := by
    rw [hpos.turns_eq, ht] at hs
    exact (Option.some.inj hs).symm
  have hlenp : s.length = p.auditPath.length := length_turns hs
  have hlenq : t.length = q.auditPath.length := length_turns ht
  unfold inputs at ha hb
  rw [hs, Option.getD_some] at ha
  rw [ht, Option.getD_some] at hb
  have hleaf : (hashLeaf a : D) = hashLeaf b := by
    refine climb_injOn hS (fun i hi => ha i (List.mem_cons_of_mem _ hi))
      (fun i hi => hb i (List.mem_cons_of_mem _ hi)) ?_ (hclimb.trans hclimb'.symm)
    rw [List.map_fst_zip (by omega), List.map_fst_zip (by omega), hst]
  exact Input.leaf.inj (hS (ha _ (List.mem_cons_self ..)) (hb _ (List.mem_cons_self ..)) hleaf)

end Proof

/-- The bytes that are hashed in the tree over some leaves; the root of an empty tree is a hash
too. -/
def treeBytes (D : Type) [Hasher D] (leaves : List Bytes) : List Bytes :=
  if leaves = [] then [[]]
  else ((ofList [] leaves).inputs (hashInput : Input Bytes D → D)).map encodeInput

theorem mem_treeBytes {leaves : List Bytes} (hne : leaves ≠ []) {input : Input Bytes D}
    (h : input ∈ (ofList [] leaves).inputs hashInput) :
    encodeInput input ∈ treeBytes D leaves := by
  unfold treeBytes
  rw [if_neg hne]
  exact List.mem_map_of_mem h

/-- The root of a tree with leaves is the hash of bytes that are not empty. -/
theorem exists_treeBytes_of_root {leaves : List Bytes} (h64 : leaves.length ≤ 2 ^ 63)
    (hne : leaves ≠ []) :
    ∃ bytes ∈ treeBytes D leaves, bytes ≠ [] ∧
      (Tree.fromLeaves leaves : Tree D).root = hasher.sha256 bytes := by
  obtain ⟨input, hmem, hdigest⟩ :=
    (ofList [] leaves).exists_input_of_digest (hashInput : Input Bytes D → D)
  refine ⟨encodeInput input, mem_treeBytes hne hmem, ?_, ?_⟩
  · cases input <;> exact List.cons_ne_nil _ _
  · rw [(Tree.fromLeaves_holds h64).root_eq hne, hdigest, hashInput_eq]

/-- Trees with one root have the same leaves. -/
theorem root_fromLeaves_injOn (hsplits : Splits D) {S : Set Bytes} (hS : S.InjOn hasher.sha256)
    {k l : List Bytes} (hk64 : k.length ≤ 2 ^ 63) (hl64 : l.length ≤ 2 ^ 63)
    (hk : ∀ i ∈ treeBytes D k, i ∈ S) (hl : ∀ i ∈ treeBytes D l, i ∈ S)
    (h : (Tree.fromLeaves k : Tree D).root = (Tree.fromLeaves l).root) : k = l := by
  by_cases hkne : k = []
  · by_cases hlne : l = []
    · rw [hkne, hlne]
    · obtain ⟨bytes, hmem, hbytes, hroot⟩ := exists_treeBytes_of_root (D := D) hl64 hlne
      rw [hroot, hkne] at h
      rw [hkne] at hk
      exact absurd (hS (hk [] (List.mem_singleton_self _)) (hl _ hmem) h).symm hbytes
  · by_cases hlne : l = []
    · obtain ⟨bytes, hmem, hbytes, hroot⟩ := exists_treeBytes_of_root (D := D) hk64 hkne
      rw [hroot, hlne] at h
      rw [hlne] at hl
      exact absurd (hS (hk _ hmem) (hl [] (List.mem_singleton_self _)) h) hbytes
    · rw [(Tree.fromLeaves_holds hk64).root_eq hkne, (Tree.fromLeaves_holds hl64).root_eq hlne] at h
      exact digest_ofList_injOn (hashInput_injOn hsplits hS) hkne hlne
        (fun i hi => hk _ (mem_treeBytes hkne hi)) (fun i hi => hl _ (mem_treeBytes hlne hi)) h

end Astria.Merkle
