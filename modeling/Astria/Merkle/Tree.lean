import Astria.Core.Primitive
import Mathlib.Data.Nat.Bitwise
import Mathlib.Data.Nat.Log

/-!
# Merkle trees

The merkle trees of `crates/astria-merkle/src/lib.rs`: a complete binary tree whose nodes are
kept in order in one flat list, the leaves at the even indices.

The digest type is a parameter: the sequencer instantiates it with arrays of 32 bytes, and the
results that need a collision-free hash with digests that have room for one.
-/

namespace Astria.Merkle

open Astria.Core

/-- SHA-256 over a type of digests. -/
class Hasher (D : Type) where
  sha256 : Bytes → D
  /-- The bytes of a digest. -/
  toBytes : D → Bytes
  /-- The digest of zeros, with which `finish` extends the flat list. -/
  zeros : D

/-! ## Indices -/

/-- `last_set_bit`. -/
def lastSetBit (x : ℕ) : ℕ := x - ((x - 1) &&& x)

/-- `last_zero_bit`. -/
def lastZeroBit (x : ℕ) : ℕ := lastSetBit (x + 1)

/-- `perfect_parent`. -/
def perfectParent (i : ℕ) : ℕ :=
  Nat.ldiff (lastZeroBit i ||| i) (2 * lastZeroBit i)

/-- `perfect_left_child`. -/
def perfectLeftChild (p : ℕ) : ℕ := Nat.ldiff p (lastZeroBit p / 2)

/-- `perfect_right_child`. -/
def perfectRightChild (p : ℕ) : ℕ := Nat.ldiff (p ||| lastZeroBit p) (lastZeroBit p / 2)

/-- `next_power_of_two`. -/
def nextPowerOfTwo (n : ℕ) : ℕ := 2 ^ Nat.clog 2 n

/-- `complete_root`. -/
def completeRoot (n : ℕ) : ℕ := (nextPowerOfTwo (n + 1) - 1) / 2

/-- The loop of `complete_parent`.  An index of 64 bits has at most 64 ancestors; past the last
one the source panics on an overflow, which is the `none` of this function. -/
def completeParentLoop : ℕ → ℕ → ℕ → Option ℕ
  | 0, _, _ => none
  | fuel + 1, i, n =>
    if perfectParent i < n then some (perfectParent i)
    else completeParentLoop fuel (perfectParent i) n

/-- `complete_parent`. -/
def completeParent (i n : ℕ) : Option ℕ := completeParentLoop 64 i n

/-- `complete_left_child`. -/
def completeLeftChild (p : ℕ) : ℕ := perfectLeftChild p

/-- `complete_right_child`. -/
def completeRightChild (i n : ℕ) : ℕ :=
  if perfectRightChild i < n then perfectRightChild i
  else i + 1 + completeRoot (n - (i + 1))

/-- `leaf_index_to_tree_index`. -/
def leafIndexToTreeIndex (j : ℕ) : ℕ := 2 * j

/-! ## Trees -/

variable {D : Type} [hasher : Hasher D]

/-- `hash_leaf`. -/
def hashLeaf (leaf : Bytes) : D := hasher.sha256 (0 :: leaf)

/-- `combine`. -/
def combine (left right : D) : D :=
  hasher.sha256 (1 :: (hasher.toBytes left ++ hasher.toBytes right))

/-- A tree: its nodes in order. -/
structure Tree (D : Type) where
  nodes : List D

namespace Tree

/-- `Tree::new`. -/
def new : Tree D := ⟨[]⟩

/-- `get_node`. -/
def getNode (tree : Tree D) (i : ℕ) : D := tree.nodes.getD i hasher.zeros

/-- `set_node`. -/
def setNode (tree : Tree D) (i : ℕ) (value : D) : Tree D := ⟨tree.nodes.set i value⟩

/-- The loop of `finish`: the branches above a new leaf are computed from their children, up to
the root. -/
def updateBranches (size : ℕ) : ℕ → ℕ → Tree D → Tree D
  | 0, _, tree => tree
  | fuel + 1, i, tree =>
    match completeParent i size with
    | none => tree
    | some p =>
      let updated := tree.setNode p
        (combine (tree.getNode (completeLeftChild p)) (tree.getNode (completeRightChild p size)))
      if p = completeRoot size then updated else updateBranches size fuel p updated

/-- `LeafBuilder::finish`: the leaf is appended after a branch, and its ancestors are updated. -/
def pushHash (tree : Tree D) (leafHash : D) : Tree D :=
  if tree.nodes = [] then ⟨[leafHash]⟩
  else
    let size := tree.nodes.length + 2
    let extended : Tree D := ⟨tree.nodes ++ [hasher.zeros, leafHash]⟩
    updateBranches size 64 (size - 1) extended

/-- `push`. -/
def push (tree : Tree D) (leaf : Bytes) : Tree D := tree.pushHash (hashLeaf leaf)

/-- `from_leaves`. -/
def fromLeaves (leaves : List Bytes) : Tree D := leaves.foldl push new

/-- `root`. -/
def root (tree : Tree D) : D :=
  if tree.nodes = [] then hasher.sha256 []
  else tree.getNode (completeRoot tree.nodes.length)

end Tree

/-! ## Proofs of inclusion -/

/-- A checked proof (`audit.rs`, `Proof`). -/
structure Proof (D : Type) where
  auditPath : List D
  leafIndex : ℕ
  treeSize : ℕ
  deriving DecidableEq

/-- The loop of `reconstruct_root_with_leaf_hash`; `none` is a panic. -/
def reconstructLoop (treeSize : ℕ) : List D → ℕ → D → Option D
  | [], _, acc => some acc
  | sibling :: rest, i, acc =>
    match completeParent i treeSize with
    | none => none
    | some parent =>
      reconstructLoop treeSize rest parent
        (if i < parent then combine acc sibling else combine sibling acc)

/-- `reconstruct_root_with_leaf_hash`. -/
def Proof.reconstructRootWithLeafHash (proof : Proof D) (leafHash : D) : Option D :=
  reconstructLoop proof.treeSize proof.auditPath (leafIndexToTreeIndex proof.leafIndex) leafHash

/-- `Proof::verify`: an audit of a leaf against a root; `none` is a panic. -/
def Proof.verify [DecidableEq D] (proof : Proof D) (leaf : Bytes) (root : D) : Option Bool :=
  (proof.reconstructRootWithLeafHash (hashLeaf leaf)).map fun reconstructed => root = reconstructed

/-- `construct_proof`. -/
def Tree.auditPath (tree : Tree D) : ℕ → ℕ → List D
  | 0, _ => []
  | fuel + 1, i =>
    if i = completeRoot tree.nodes.length then []
    else
      match completeParent i tree.nodes.length with
      | none => []
      | some p =>
        let sibling :=
          if i < p then completeRightChild p tree.nodes.length else completeLeftChild p
        tree.getNode sibling :: auditPath tree fuel p

/-- `construct_proof`. -/
def Tree.constructProof (tree : Tree D) (leafIndex : ℕ) : Option (Proof D) :=
  if leafIndexToTreeIndex leafIndex < tree.nodes.length then
    some
      { auditPath := tree.auditPath 64 (leafIndexToTreeIndex leafIndex)
        leafIndex := leafIndex
        treeSize := tree.nodes.length }
  else none

end Astria.Merkle
