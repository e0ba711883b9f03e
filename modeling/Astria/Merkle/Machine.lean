import Astria.Lib.Outcome
import Astria.Merkle.Inclusion
import Mathlib.Data.Nat.Factorization.Basic

/-!
# Trees and proofs on machine words

The functions of `crates/astria-merkle/src/lib.rs` and `audit.rs` with what they check: words of 64
bits, the assertions, the `unwrap` of checked operations, and the largest size of a `Vec`.  The
functions on natural numbers of the modules before this one say what is computed; here is when the
crate gets there without a panic.

Results:
* `completeParent_eq`: the loop of `complete_parent` ends for all words, with the parent or a panic;
* `completeParent_find`: the parent is the node of the first level above that is inside the tree;
* `completeRoot_eq`, `completeRightChild_eq`: the other indices, for trees that fit in memory;
* `extend_eq`: pushing leaves panics exactly when the nodes outgrow a `Vec`.
-/

namespace Astria.Merkle.Machine

open Astria.Core Astria.Lib

/-- `isize::MAX`, the most bytes that a `Vec` holds. -/
def isizeMax : ℕ := 2 ^ 63 - 1

/-- The rounds that a loop is given. -/
def rounds : ℕ := 65

/-! ## Indices -/

/-- `leaf_index_to_tree_index`. -/
def leafIndexToTreeIndex (j : ℕ) : Outcome ℕ := .ofOption (checkedMul u64Max j 2)

/-- `last_set_bit`. -/
def lastSetBit (x : ℕ) : Outcome ℕ := do
  let xMinusOne ← .ofOption (checkedSub x 1)
  .ofOption (checkedSub x (xMinusOne &&& x))

/-- `last_zero_bit`. -/
def lastZeroBit (x : ℕ) : Outcome ℕ := do
  let xPlusOne ← .ofOption (checkedAdd u64Max x 1)
  lastSetBit xPlusOne

/-- `!x`. -/
def complement (x : ℕ) : ℕ := u64Max - x

/-- `perfect_parent`; the shift loses the highest bit. -/
def perfectParent (i : ℕ) : Outcome ℕ := do
  let zeroBit ← lastZeroBit i
  return (zeroBit ||| i) &&& complement ((zeroBit <<< 1) % 2 ^ 64)

/-- `is_branch`. -/
def isBranch (i : ℕ) : Bool := i &&& 1 = 1

/-- `perfect_left_child`. -/
def perfectLeftChild (p : ℕ) : Outcome ℕ := do
  .assert (isBranch p)
  let zeroBit ← lastZeroBit p
  return p &&& complement (zeroBit >>> 1)

/-- `perfect_right_child`. -/
def perfectRightChild (p : ℕ) : Outcome ℕ := do
  .assert (isBranch p)
  let zeroBit ← lastZeroBit p
  return (p ||| zeroBit) &&& complement (zeroBit >>> 1)

/-- `usize::next_power_of_two`, compiled with overflow checks. -/
def nextPowerOfTwo (n : ℕ) : Outcome ℕ :=
  if Merkle.nextPowerOfTwo n ≤ u64Max then .returns (Merkle.nextPowerOfTwo n) else .panics

/-- `is_perfect`. -/
def isPerfect (n : ℕ) : Outcome Bool :=
  if n = 1 then .returns true
  else do
    let power ← nextPowerOfTwo n
    return power = (n + 1) % 2 ^ 64

/-- `perfect_root`. -/
def perfectRoot (n : ℕ) : Outcome ℕ := do
  let perfect ← isPerfect n
  .assert perfect
  return n >>> 1

/-- `complete_root`. -/
def completeRoot (n : ℕ) : Outcome ℕ := do
  let power ← nextPowerOfTwo ((n + 1) % 2 ^ 64)
  perfectRoot (power - 1)

/-- The loop of `complete_parent`. -/
def completeParentLoop : ℕ → ℕ → ℕ → Outcome ℕ
  | 0, _, _ => .runs
  | fuel + 1, i, n => do
    let parent ← perfectParent i
    if parent < n then return parent else completeParentLoop fuel parent n

/-- `complete_parent`. -/
def completeParent (i n : ℕ) : Outcome ℕ := completeParentLoop rounds i n

/-- `complete_left_child`. -/
def completeLeftChild (p : ℕ) : Outcome ℕ := perfectLeftChild p

/-- `complete_right_child`. -/
def completeRightChild (i n : ℕ) : Outcome ℕ := do
  .assert (isBranch i)
  .assert (i < n)
  let rightChild ← perfectRightChild i
  if rightChild < n then return rightChild
  else do
    let iPlusOne ← .ofOption (checkedAdd u64Max i 1)
    let rest ← .ofOption (checkedSub n iPlusOne)
    let root ← completeRoot rest
    .ofOption (checkedAdd u64Max iPlusOne root)

/-- `complete_parent_and_sibling`. -/
def completeParentAndSibling (i n : ℕ) : Outcome (ℕ × ℕ) := do
  .assert (i < n)
  let p ← completeParent i n
  let s ← if i < p then completeRightChild p n else completeLeftChild p
  return (p, s)

/-! ## Trees -/

section

variable {D : Type} [hasher : Hasher D]

/-- The offsets of a node in the bytes of the tree. -/
def checkNode (tree : Tree D) (i : ℕ) : Outcome Unit := do
  .assert (i < tree.nodes.length)
  let _low ← .ofOption (checkedMul u64Max i 32)
  let iPlusOne ← .ofOption (checkedAdd u64Max i 1)
  let _high ← .ofOption (checkedMul u64Max iPlusOne 32)
  return ()

/-- `get_node`. -/
def getNode (tree : Tree D) (i : ℕ) : Outcome D := do
  checkNode tree i
  .ofOption tree.nodes[i]?

/-- `set_node`. -/
def setNode (tree : Tree D) (i : ℕ) (value : D) : Outcome (Tree D) := do
  checkNode tree i
  return tree.setNode i value

/-- `combine_nodes`. -/
def combineNodes (tree : Tree D) (i j : ℕ) : Outcome D := do
  let left ← getNode tree i
  let right ← getNode tree j
  return combine left right

/-- `extend_from_slice` on the nodes, 32 bytes each; a `Vec` that would grow too large panics. -/
def extendFromSlice (tree : Tree D) (digests : List D) : Outcome (Tree D) :=
  if 32 * (tree.nodes.length + digests.length) ≤ isizeMax then .returns ⟨tree.nodes ++ digests⟩
  else .panics

/-- The loop of `LeafBuilder::drop`. -/
def updateBranches (size root : ℕ) : ℕ → ℕ → Tree D → Outcome (Tree D)
  | 0, _, _ => .runs
  | fuel + 1, i, tree => do
    let p ← completeParent i size
    let left ← completeLeftChild p
    let right ← completeRightChild p size
    let newValue ← combineNodes tree left right
    let updated ← setNode tree p newValue
    if p = root then return updated else updateBranches size root fuel p updated

/-- `LeafBuilder::drop`, with the digest of its hasher. -/
def pushHash (tree : Tree D) (leafHash : D) : Outcome (Tree D) :=
  if tree.nodes = [] then extendFromSlice tree [leafHash]
  else do
    let extended ← extendFromSlice tree [hasher.zeros, hasher.zeros]
    let size := extended.nodes.length
    let i ← .ofOption (checkedSub size 1)
    let withLeaf ← setNode extended i leafHash
    let root ← completeRoot withLeaf.nodes.length
    updateBranches size root rounds i withLeaf

/-- `LeafBuilder`; of its hasher, what has been written into it. -/
structure LeafBuilder (D : Type) where
  tree : Tree D
  written : Bytes

/-- `build_leaf`. -/
def buildLeaf (tree : Tree D) : LeafBuilder D := { tree := tree, written := [0] }

/-- `LeafBuilder::write`. -/
def LeafBuilder.write (builder : LeafBuilder D) (bytes : Bytes) : LeafBuilder D :=
  { builder with written := builder.written ++ bytes }

/-- The end of the builder's scope. -/
def LeafBuilder.drop (builder : LeafBuilder D) : Outcome (Tree D) :=
  pushHash builder.tree (hasher.sha256 builder.written)

/-- `push`. -/
def push (tree : Tree D) (leaf : Bytes) : Outcome (Tree D) := ((buildLeaf tree).write leaf).drop

/-- How a leaf is added: by a `push`, or by writes into a builder. -/
inductive Addition where
  | push (leaf : Bytes)
  | buildLeaf (writes : List Bytes)

/-- The leaf that is added. -/
def Addition.leaf : Addition → Bytes
  | push leaf => leaf
  | buildLeaf writes => writes.flatten

def Addition.run (tree : Tree D) : Addition → Outcome (Tree D)
  | push leaf => Machine.push tree leaf
  | buildLeaf writes => (writes.foldl LeafBuilder.write (Machine.buildLeaf tree)).drop

/-- Adds leaves to a tree, one after the other. -/
def extend : List Addition → Tree D → Outcome (Tree D)
  | [], tree => .returns tree
  | addition :: rest, tree => do
    let tree ← addition.run tree
    extend rest tree

/-- A tree that is built from nothing. -/
def build (additions : List Addition) : Outcome (Tree D) := extend additions Tree.new

/-- `root`. -/
def root (tree : Tree D) : Outcome D :=
  if tree.nodes = [] then .returns (hasher.sha256 [])
  else do
    let i ← completeRoot tree.nodes.length
    getNode tree i

/-! ## Proofs of inclusion -/

/-- The loop of `construct_proof`. -/
def auditPath (tree : Tree D) (root : ℕ) : ℕ → ℕ → Outcome (List D)
  | 0, _ => .runs
  | fuel + 1, i =>
    if i = root then .returns []
    else do
      let (p, sibling) ← completeParentAndSibling i tree.nodes.length
      let node ← getNode tree sibling
      let rest ← auditPath tree root fuel p
      return node :: rest

/-- `construct_proof`. -/
def constructProof (tree : Tree D) (leafIndex : ℕ) : Outcome (Option (Proof D)) :=
  if tree.nodes.length = 0 then .returns none
  else do
    let treeIndex ← leafIndexToTreeIndex leafIndex
    if ¬ treeIndex < tree.nodes.length then return none
    else do
      let root ← completeRoot tree.nodes.length
      let path ← auditPath tree root rounds treeIndex
      return some { auditPath := path, leafIndex := leafIndex, treeSize := tree.nodes.length }

/-- The loop of `reconstruct_root_with_leaf_hash`. -/
def reconstructLoop (treeSize : ℕ) : List D → ℕ → D → Outcome D
  | [], _, acc => .returns acc
  | sibling :: rest, i, acc => do
    let parent ← completeParent i treeSize
    reconstructLoop treeSize rest parent
      (if i < parent then combine acc sibling else combine sibling acc)

/-- `reconstruct_root_with_leaf_hash`. -/
def reconstructRootWithLeafHash (proof : Proof D) (leafHash : D) : Outcome D := do
  let i ← leafIndexToTreeIndex proof.leafIndex
  reconstructLoop proof.treeSize proof.auditPath i leafHash

/-- `reconstruct_root_with_leaf`. -/
def reconstructRootWithLeaf (proof : Proof D) (leaf : Bytes) : Outcome D :=
  reconstructRootWithLeafHash proof (hashLeaf leaf)

/-- `verify`. -/
def verify [DecidableEq D] (proof : Proof D) (leaf : Bytes) (rootHash : D) : Outcome Bool := do
  let reconstructed ← reconstructRootWithLeaf proof leaf
  return rootHash = reconstructed

end

/-! ## The indices that are computed -/

theorem lastSetBit_eq {x : ℕ} (hx : 0 < x) :
    lastSetBit x = .returns (Merkle.lastSetBit x) := by
  have hle : (x - 1) &&& x ≤ x := Nat.and_le_right
  unfold lastSetBit Merkle.lastSetBit checkedSub
  rw [if_pos (by omega), Outcome.ofOption_some, Outcome.returns_bind, if_pos hle]
  rfl

theorem lastZeroBit_eq {i : ℕ} (hi : i < u64Max) :
    lastZeroBit i = .returns (Merkle.lastZeroBit i) := by
  unfold lastZeroBit checkedAdd
  rw [if_pos (by omega), Outcome.ofOption_some, Outcome.returns_bind, lastSetBit_eq (by omega)]
  rfl

theorem lastZeroBit_le {i : ℕ} (hi : i < u64Max) : Merkle.lastZeroBit i ≤ u64Max := by
  unfold Merkle.lastZeroBit Merkle.lastSetBit
  omega

/-- Masking with a complement clears bits. -/
theorem and_complement {x : ℕ} (y : ℕ) (hx : x < 2 ^ 64) :
    x &&& complement (y % 2 ^ 64) = Nat.ldiff x y := by
  apply Nat.eq_of_testBit_eq
  intro i
  have hy : y % 2 ^ 64 < 2 ^ 64 := Nat.mod_lt _ (Nat.two_pow_pos 64)
  have hcomplement : complement (y % 2 ^ 64) = 2 ^ 64 - (y % 2 ^ 64 + 1) := by
    unfold complement u64Max
    omega
  rw [Nat.testBit_and, hcomplement, Nat.testBit_two_pow_sub_succ hy, Nat.testBit_mod_two_pow,
    Nat.testBit_ldiff]
  by_cases hi : i < 64
  · rw [decide_eq_true hi, Bool.true_and, Bool.true_and]
  · have hzero : x.testBit i = false :=
      Nat.testBit_lt_two_pow (lt_of_lt_of_le hx (Nat.pow_le_pow_right (by omega) (by omega)))
    rw [hzero, Bool.false_and, Bool.false_and]

theorem perfectParent_eq {i : ℕ} (hi : i < u64Max) :
    perfectParent i = .returns (Merkle.perfectParent i) := by
  have hle := lastZeroBit_le hi
  unfold u64Max at hi hle
  have hor : Merkle.lastZeroBit i ||| i < 2 ^ 64 := Nat.or_lt_two_pow (by omega) (by omega)
  unfold perfectParent
  rw [lastZeroBit_eq hi, Outcome.returns_bind, and_complement _ hor, Nat.shiftLeft_eq, pow_one,
    Nat.mul_comm]
  rfl

theorem perfectParent_le {i : ℕ} (hi : i < u64Max) : Merkle.perfectParent i ≤ u64Max := by
  have hle := lastZeroBit_le hi
  unfold u64Max at hi hle
  have hor : Merkle.lastZeroBit i ||| i < 2 ^ 64 := Nat.or_lt_two_pow (by omega) (by omega)
  have hand : (Merkle.lastZeroBit i ||| i) &&& complement (2 * Merkle.lastZeroBit i % 2 ^ 64) ≤
      Merkle.lastZeroBit i ||| i := Nat.and_le_left
  rw [and_complement _ hor] at hand
  unfold Merkle.perfectParent u64Max
  omega

/-- The last word has no bit that is not set. -/
theorem perfectParent_max : perfectParent u64Max = .panics := by decide +kernel

theorem shiftRight_one_lt {x : ℕ} (hx : x ≤ u64Max) : x >>> 1 = x / 2 % 2 ^ 64 := by
  unfold u64Max at hx
  rw [Nat.shiftRight_eq_div_pow, pow_one]
  omega

theorem perfectLeftChild_eq {p : ℕ} (hp : p < u64Max) (hbranch : isBranch p = true) :
    perfectLeftChild p = .returns (Merkle.perfectLeftChild p) := by
  have hlt : p < 2 ^ 64 := by
    unfold u64Max at hp
    omega
  unfold perfectLeftChild
  rw [Outcome.assert_of hbranch, Outcome.returns_bind, lastZeroBit_eq hp, Outcome.returns_bind,
    shiftRight_one_lt (lastZeroBit_le hp), and_complement _ hlt]
  rfl

theorem perfectRightChild_eq {p : ℕ} (hp : p < u64Max) (hbranch : isBranch p = true) :
    perfectRightChild p = .returns (Merkle.perfectRightChild p) := by
  have hle := lastZeroBit_le hp
  have hor : p ||| Merkle.lastZeroBit p < 2 ^ 64 := by
    unfold u64Max at hp hle
    exact Nat.or_lt_two_pow (by omega) (by omega)
  unfold perfectRightChild
  rw [Outcome.assert_of hbranch, Outcome.returns_bind, lastZeroBit_eq hp, Outcome.returns_bind,
    shiftRight_one_lt hle, and_complement _ hor]
  rfl

/-! ## The parent -/

/-- Every index is the index of a block. -/
theorem exists_index (i : ℕ) : ∃ l q, i = index l q := by
  obtain ⟨l, m, hodd, hm⟩ := Nat.exists_eq_two_pow_mul_odd (n := i + 1) (by omega)
  obtain ⟨q, hq⟩ := hodd
  refine ⟨l, q, ?_⟩
  have h := index_add_one l q
  rw [← hq, ← hm] at h
  omega

theorem le_index (l q : ℕ) : 2 ^ l - 1 ≤ index l q := by
  unfold index
  omega

/-- From a level on, all that is above has an index of at least this. -/
theorem completeParentLoop_above {l n : ℕ} (fuel q : ℕ) (hn : n ≤ 2 ^ (l + 1) - 1) :
    Merkle.completeParentLoop fuel (index l q) n = none := by
  induction fuel generalizing l q with
  | zero => rfl
  | succ fuel ih =>
    have hle := le_index (l + 1) (q / 2)
    have hpow : 2 ^ (l + 1) ≤ 2 ^ (l + 1 + 1) := Nat.pow_le_pow_right (by omega) (by omega)
    rw [Merkle.completeParentLoop, perfectParent_index, if_neg (by omega)]
    exact ih (q / 2) (by omega)

/-- More rounds change nothing once the level is high enough. -/
theorem completeParentLoop_fuel {l n : ℕ} (fuel q : ℕ) (hn : n ≤ 2 ^ (l + fuel + 1) - 1) :
    Merkle.completeParentLoop (fuel + 1) (index l q) n =
      Merkle.completeParentLoop fuel (index l q) n := by
  induction fuel generalizing l q with
  | zero =>
    rw [completeParentLoop_above _ _ hn]
    rfl
  | succ fuel ih =>
    have hstep := ih (l := l + 1) (q / 2) (by rw [Nat.add_right_comm l 1 fuel]; exact hn)
    rw [Merkle.completeParentLoop, perfectParent_index, hstep]
    conv_rhs => rw [Merkle.completeParentLoop, perfectParent_index]

theorem completeParentLoop_eq {l q n : ℕ} (fuel : ℕ) (hn : n ≤ u64Max) (hi : index l q ≤ u64Max)
    (hfuel : 65 ≤ l + fuel) :
    completeParentLoop fuel (index l q) n =
      .ofOption (Merkle.completeParentLoop fuel (index l q) n) := by
  induction fuel generalizing l q with
  | zero =>
    have hle := le_index l q
    have hpow : 2 ^ 65 ≤ 2 ^ l := Nat.pow_le_pow_right (by omega) (by omega)
    unfold u64Max at hi
    omega
  | succ fuel ih =>
    by_cases hmax : index l q = u64Max
    · -- the highest index: only level 64 has it, and the tree has nothing above
      have hmax' : index l q = index 64 0 := hmax
      obtain ⟨rfl, rfl⟩ := index_inj hmax'
      have hbound : n ≤ 2 ^ (64 + 1) - 1 := by
        unfold u64Max at hn
        omega
      rw [completeParentLoop_above _ _ hbound, completeParentLoop, hmax, perfectParent_max]
      rfl
    · have hlt : index l q < u64Max := lt_of_le_of_ne hi hmax
      have hle := perfectParent_le hlt
      rw [perfectParent_index] at hle
      rw [completeParentLoop, Merkle.completeParentLoop, perfectParent_eq hlt, Outcome.returns_bind,
        perfectParent_index]
      by_cases hin : index (l + 1) (q / 2) < n
      · rw [if_pos hin, if_pos hin]
        rfl
      · rw [if_neg hin, if_neg hin]
        exact ih hle (by omega)

/-- The loop of `complete_parent` ends on all words: with the parent, or with a panic where there is
none. -/
theorem completeParent_eq {i n : ℕ} (hi : i ≤ u64Max) (hn : n ≤ u64Max) :
    completeParent i n = .ofOption (Merkle.completeParent i n) := by
  obtain ⟨l, q, rfl⟩ := exists_index i
  have hbound : n ≤ 2 ^ (l + 64 + 1) - 1 := by
    have hpow : 2 ^ 64 ≤ 2 ^ (l + 64 + 1) := Nat.pow_le_pow_right (by omega) (by omega)
    unfold u64Max at hn
    omega
  unfold completeParent rounds Merkle.completeParent
  rw [completeParentLoop_eq 65 hn hi (by omega), completeParentLoop_fuel 64 q hbound]

theorem completeParentLoop_fuel_add {l n : ℕ} (fuel more q : ℕ)
    (hn : n ≤ 2 ^ (l + fuel + 1) - 1) :
    Merkle.completeParentLoop (fuel + more) (index l q) n =
      Merkle.completeParentLoop fuel (index l q) n := by
  induction more with
  | zero => rfl
  | succ more ih =>
    have hpow : 2 ^ (l + fuel + 1) ≤ 2 ^ (l + (fuel + more) + 1) :=
      Nat.pow_le_pow_right (by omega) (by omega)
    rw [← Nat.add_assoc, completeParentLoop_fuel (fuel + more) q (by omega), ih]

/-! ## The nodes above a leaf -/

/-- The levels above level `l` at which the leaf has a node over it that is inside the tree. -/
def levelsAbove (leafIndex treeSize l : ℕ) : List ℕ :=
  (List.range' (l + 1) (64 - l)).filter fun k => index k (leafIndex / 2 ^ k) < treeSize

theorem completeParentLoop_find (j n fuel l : ℕ) :
    Merkle.completeParentLoop fuel (index l (j / 2 ^ l)) n =
      ((List.range' (l + 1) fuel).find? fun k => index k (j / 2 ^ k) < n).map
        fun k => index k (j / 2 ^ k) := by
  induction fuel generalizing l with
  | zero => rfl
  | succ fuel ih =>
    have hhalf : j / 2 ^ l / 2 = j / 2 ^ (l + 1) := by rw [Nat.div_div_eq_div_mul, ← pow_succ]
    rw [Merkle.completeParentLoop, perfectParent_index, hhalf, List.range'_succ, List.find?_cons]
    by_cases hin : index (l + 1) (j / 2 ^ (l + 1)) < n
    · rw [if_pos hin, decide_eq_true hin, Option.map_some]
    · rw [if_neg hin, decide_eq_false hin, ih (l + 1)]

/-- The parent is the node of the first level above that is inside the tree. -/
theorem completeParent_find {j n l : ℕ} (hn : n ≤ u64Max) (hl : l ≤ 64) :
    Merkle.completeParent (index l (j / 2 ^ l)) n =
      (levelsAbove j n l).head?.map fun k => index k (j / 2 ^ k) := by
  have hbound : n ≤ 2 ^ (l + (64 - l) + 1) - 1 := by
    rw [Nat.add_sub_cancel' hl]
    unfold u64Max at hn
    omega
  have hrounds : 64 = 64 - l + l := by omega
  unfold Merkle.completeParent levelsAbove
  rw [List.head?_filter, ← completeParentLoop_find]
  conv_lhs => rw [hrounds]
  exact completeParentLoop_fuel_add _ _ _ hbound

theorem levelsAbove_tail {j n l k : ℕ} {rest : List ℕ} (h : levelsAbove j n l = k :: rest) :
    l < k ∧ k ≤ 64 ∧ index k (j / 2 ^ k) < n ∧ rest = levelsAbove j n k := by
  unfold levelsAbove at h
  obtain ⟨before, after, hrange, -, hin, hrest⟩ := List.filter_eq_cons_iff.mp h
  obtain ⟨skipped, hskipped, -, htail⟩ := List.range'_eq_append_iff.mp hrange
  obtain ⟨hk, hpos, hafter⟩ := List.range'_eq_cons_iff.mp htail.symm
  refine ⟨by omega, by omega, of_decide_eq_true hin, ?_⟩
  unfold levelsAbove
  rw [← hrest, hafter]
  congr 2
  omega

/-- A path can be climbed exactly as long as there are levels above. -/
theorem reconstructLoop_ne_none {D : Type} [Hasher D] {j n : ℕ} (hn : n ≤ u64Max) (path : List D)
    {l : ℕ} (hl : l ≤ 64) (acc : D) :
    Merkle.reconstructLoop n path (index l (j / 2 ^ l)) acc ≠ none ↔
      path.length ≤ (levelsAbove j n l).length := by
  induction path generalizing l acc with
  | nil => exact iff_of_true (Option.some_ne_none acc) (Nat.zero_le _)
  | cons sibling rest ih =>
    rw [Merkle.reconstructLoop, completeParent_find hn hl]
    cases hlevels : levelsAbove j n l with
    | nil =>
      refine iff_of_false (fun h => h rfl) ?_
      rw [List.length_nil, List.length_cons]
      omega
    | cons k levels =>
      obtain ⟨-, hk, -, rfl⟩ := levelsAbove_tail hlevels
      rw [List.head?_cons, Option.map_some]
      dsimp only
      rw [ih hk, List.length_cons, List.length_cons]
      omega

theorem completeParent_lt {i n p : ℕ} (h : Merkle.completeParent i n = some p) : p < n := by
  have hloop (fuel : ℕ) : ∀ i, Merkle.completeParentLoop fuel i n = some p → p < n := by
    induction fuel with
    | zero => exact fun _ h => nomatch h
    | succ fuel ih =>
      intro i h
      rw [Merkle.completeParentLoop] at h
      split_ifs at h with hin
      · rw [← Option.some.inj h]
        exact hin
      · exact ih _ h
  exact hloop 64 i h

/-! ## The indices of a tree that fits in memory -/

theorem nextPowerOfTwo_eq {n : ℕ} (h : n ≤ 2 ^ 63) :
    nextPowerOfTwo n = .returns (Merkle.nextPowerOfTwo n) := by
  have hclog : Nat.clog 2 n ≤ 63 := Nat.clog_le_of_le_pow h
  have hpow : Merkle.nextPowerOfTwo n ≤ 2 ^ 63 := Nat.pow_le_pow_right (by omega) hclog
  unfold nextPowerOfTwo
  rw [if_pos (by unfold u64Max; omega)]

theorem nextPowerOfTwo_sub_one {c : ℕ} (hc : 2 ≤ c) :
    Merkle.nextPowerOfTwo (2 ^ c - 1) = 2 ^ c := by
  obtain ⟨d, rfl⟩ : ∃ d, c = d + 1 := ⟨c - 1, by omega⟩
  have hpow : 2 ^ 1 ≤ 2 ^ d := Nat.pow_le_pow_right (by omega) (by omega)
  have hsucc : 2 ^ (d + 1) = 2 * 2 ^ d := by ring
  unfold Merkle.nextPowerOfTwo
  congr 1
  apply le_antisymm
  · exact Nat.clog_le_of_le_pow (by omega)
  · exact (Nat.lt_clog_iff_pow_lt (by omega)).mpr (by omega)

theorem isPerfect_eq {c : ℕ} (hc : c ≤ 63) : isPerfect (2 ^ c - 1) = .returns true := by
  unfold isPerfect
  by_cases hone : 2 ^ c - 1 = 1
  · rw [if_pos hone]
  · have hpow : 2 ^ c ≤ 2 ^ 63 := Nat.pow_le_pow_right (by omega) hc
    have hpos : 0 < 2 ^ c := Nat.two_pow_pos c
    rw [if_neg hone, nextPowerOfTwo_eq (by omega), Outcome.returns_bind]
    have hnext : Merkle.nextPowerOfTwo (2 ^ c - 1) = 2 ^ c := by
      rcases Nat.lt_or_ge c 2 with hlt | hge
      · obtain rfl | rfl : c = 0 ∨ c = 1 := by omega
        · exact congrArg (2 ^ ·) (Nat.clog_of_right_le_one (by omega) 2)
        · exact absurd rfl hone
      · exact nextPowerOfTwo_sub_one hge
    rw [hnext]
    exact congrArg Outcome.returns (decide_eq_true (by omega))

theorem completeRoot_eq {n : ℕ} (h : n < 2 ^ 63) :
    completeRoot n = .returns (Merkle.completeRoot n) := by
  have hclog : Nat.clog 2 (n + 1) ≤ 63 := Nat.clog_le_of_le_pow (by omega)
  have hperfect := isPerfect_eq hclog
  unfold completeRoot
  rw [Nat.mod_eq_of_lt (by omega), nextPowerOfTwo_eq (by omega), Outcome.returns_bind]
  unfold perfectRoot Merkle.completeRoot Merkle.nextPowerOfTwo
  rw [hperfect, Outcome.returns_bind, Outcome.assert_of rfl, Outcome.returns_bind,
    Nat.shiftRight_eq_div_pow, pow_one]
  rfl

theorem completeRoot_le (n : ℕ) : Merkle.completeRoot n ≤ n := by
  unfold Merkle.completeRoot Merkle.nextPowerOfTwo
  rcases Nat.eq_zero_or_pos n with rfl | hpos
  · rw [Nat.clog_of_right_le_one (by omega)]
    omega
  · have hclog := Nat.clog_pos (b := 2) (n := n + 1) (by omega) (by omega)
    obtain ⟨c, hc⟩ : ∃ c, Nat.clog 2 (n + 1) = c + 1 := Nat.exists_eq_add_of_le' hclog
    have hlt := Nat.pow_pred_clog_lt_self (b := 2) (x := n + 1) (by omega) (by omega)
    rw [hc, Nat.pred_succ] at hlt
    rw [hc, pow_succ]
    omega

theorem isBranch_index (l q : ℕ) : isBranch (index (l + 1) q) = true := by
  have h := index_add_one (l + 1) q
  have hdouble : 2 ^ (l + 1) * (2 * q + 1) = 2 * (2 ^ l * (2 * q + 1)) := by ring
  unfold isBranch
  rw [Nat.and_one_is_mod]
  exact decide_eq_true (by omega)

theorem not_isBranch_zero (q : ℕ) : isBranch (index 0 q) = false := by
  have h := index_add_one 0 q
  unfold isBranch
  rw [Nat.and_one_is_mod]
  exact decide_eq_false (by omega)

/-- What is right of a branch whose right child is cut off is small. -/
theorem rest_lt {i n : ℕ} (hbranch : isBranch i = true) (hi : i < u64Max)
    (hout : n ≤ Merkle.perfectRightChild i) : n - (i + 1) < 2 ^ 63 := by
  obtain ⟨l, q, rfl⟩ := exists_index i
  cases l with
  | zero =>
    rw [not_isBranch_zero] at hbranch
    cases hbranch
  | succ l =>
    rw [perfectRightChild_index] at hout
    have hright := index_add_one l (2 * q + 1)
    have hparent := index_add_one (l + 1) q
    have hgap : 2 ^ l * (2 * (2 * q + 1) + 1) = 2 ^ (l + 1) * (2 * q + 1) + 2 ^ l := by ring
    have hpow : 2 ^ l ≤ 2 ^ (l + 1) * (2 * q + 1) / 2 := by
      have hdouble : 2 ^ (l + 1) * (2 * q + 1) = 2 * (2 ^ l * (2 * q + 1)) := by ring
      have hle : 2 ^ l * 1 ≤ 2 ^ l * (2 * q + 1) := Nat.mul_le_mul_left _ (by omega)
      omega
    unfold u64Max at hi
    omega

theorem completeRightChild_eq {i n : ℕ} (hbranch : isBranch i = true) (hi : i < n)
    (hn : n ≤ u64Max) : completeRightChild i n = .returns (Merkle.completeRightChild i n) := by
  have hlt : i < u64Max := by omega
  unfold completeRightChild Merkle.completeRightChild
  rw [Outcome.assert_of hbranch, Outcome.returns_bind, Outcome.assert_of hi, Outcome.returns_bind,
    perfectRightChild_eq hlt hbranch, Outcome.returns_bind]
  by_cases hin : Merkle.perfectRightChild i < n
  · rw [if_pos hin, if_pos hin]
    rfl
  · have hrest := rest_lt hbranch hlt (Nat.le_of_not_lt hin)
    have hroot := completeRoot_le (n - (i + 1))
    rw [if_neg hin, if_neg hin, checkedAdd, if_pos (by omega), Outcome.ofOption_some,
      Outcome.returns_bind, checkedSub, if_pos (by omega), Outcome.ofOption_some,
      Outcome.returns_bind, completeRoot_eq hrest, Outcome.returns_bind, checkedAdd,
      if_pos (by omega), Outcome.ofOption_some]

end Astria.Merkle.Machine
