import Mathlib.Data.List.Induction
import Mathlib.Data.List.Nodup
import Mathlib.Data.Nat.Log
import Mathlib.Data.Set.Function
import Mathlib.Tactic.Ring

/-!
# Hash trees

Binary trees whose nodes are hashed with their two digests, the paths from a leaf to the root, and
the perfect tree that is cut behind its last leaf.  The hash is a function of what it is given,
which says whether that is a leaf or a node; where a result needs that it does not collide, this is
asked of the inputs that were hashed, not of all.

Results:
* `Tree.digest_injOn`: trees with one digest are equal, if the inputs hashed in them do not collide;
* `climb_injOn`: paths that turn the same way and end in one digest start in one digest;
* `Tree.descend_of_climb`: a path that ends in the digest of a tree is one of its paths, turned around;
* `leaves_cut`: the leaves of the cut tree, and `cut_congr`: a block that is not cut does not depend
  on the number of leaves;
* `cut_eq_leftmost`: a block of which only the leftmost part has leaves is that part.
-/

namespace Astria.Lib.HashTree

/-- What is hashed: the data of a leaf, or the digests of a node's children. -/
inductive Input (α D : Type) where
  | leaf (data : α)
  | node (left right : D)

inductive Tree (α : Type) where
  | leaf (data : α)
  | node (left right : Tree α)

variable {α D : Type} (hash : Input α D → D)

namespace Tree

/-- The digest of the root. -/
def digest : Tree α → D
  | leaf data => hash (.leaf data)
  | node left right => hash (.node (digest left) (digest right))

/-- What is hashed in a tree. -/
def inputs : Tree α → List (Input α D)
  | leaf data => [.leaf data]
  | node left right =>
    .node (left.digest hash) (right.digest hash) :: (inputs left ++ inputs right)

/-- The data of the leaves from left to right. -/
def leaves : Tree α → List α
  | leaf data => [data]
  | node left right => leaves left ++ leaves right

variable {hash}

theorem exists_input_of_digest (hash : Input α D → D) (t : Tree α) : ∃ i ∈ t.inputs hash, t.digest hash = hash i := by
  cases t with
  | leaf a => exact ⟨_, List.mem_singleton_self _, rfl⟩
  | node l r => exact ⟨_, List.mem_cons_self .., rfl⟩

theorem digest_injOn {S : Set (Input α D)} (hS : S.InjOn hash) {t u : Tree α}
    (ht : ∀ i ∈ t.inputs hash, i ∈ S) (hu : ∀ i ∈ u.inputs hash, i ∈ S)
    (h : t.digest hash = u.digest hash) : t = u := by
  induction t generalizing u with
  | leaf a =>
    have ha := ht _ (List.mem_singleton_self _)
    cases u with
    | leaf b => rw [Input.leaf.inj (hS ha (hu _ (List.mem_singleton_self _)) h)]
    | node l r => cases hS ha (hu _ (List.mem_cons_self ..)) h
  | node l r ihl ihr =>
    have hn := ht _ (List.mem_cons_self ..)
    cases u with
    | leaf b => cases hS hn (hu _ (List.mem_singleton_self _)) h
    | node l' r' =>
      obtain ⟨hl, hr⟩ := Input.node.inj (hS hn (hu _ (List.mem_cons_self ..)) h)
      rw [inputs] at ht hu
      rw [ihl (fun i hi => ht i (List.mem_cons_of_mem _ (List.mem_append_left _ hi)))
          (fun i hi => hu i (List.mem_cons_of_mem _ (List.mem_append_left _ hi))) hl,
        ihr (fun i hi => ht i (List.mem_cons_of_mem _ (List.mem_append_right _ hi)))
          (fun i hi => hu i (List.mem_cons_of_mem _ (List.mem_append_right _ hi))) hr]

end Tree

/-! ## Paths -/

/-- The digest above a node and its sibling; the flag tells whether the node is the left child. -/
def join (isLeft : Bool) (acc sibling : D) : Input α D :=
  if isLeft then .node acc sibling else .node sibling acc

theorem join_inj {isLeft : Bool} {a b s t : D}
    (h : join (α := α) isLeft a s = join isLeft b t) : a = b ∧ s = t := by
  unfold join at h
  cases isLeft with
  | true => exact Input.node.inj h
  | false => exact (Input.node.inj h).symm

/-- Follows a path upwards: at every step, whether the node is the left child, and its sibling. -/
def climb : D → List (Bool × D) → D
  | acc, [] => acc
  | acc, step :: rest => climb (hash (join step.1 acc step.2)) rest

/-- What is hashed on the way. -/
def climbInputs : D → List (Bool × D) → List (Input α D)
  | _, [] => []
  | acc, step :: rest =>
    join step.1 acc step.2 :: climbInputs (hash (join step.1 acc step.2)) rest

variable {hash}

theorem climb_injOn {S : Set (Input α D)} (hS : S.InjOn hash) {p q : List (Bool × D)} {a b : D}
    (hp : ∀ i ∈ climbInputs hash a p, i ∈ S) (hq : ∀ i ∈ climbInputs hash b q, i ∈ S)
    (hturns : p.map (·.1) = q.map (·.1)) (h : climb hash a p = climb hash b q) : a = b := by
  induction p generalizing q a b with
  | nil =>
    rw [List.map_nil, eq_comm, List.map_eq_nil_iff] at hturns
    rw [hturns] at h
    exact h
  | cons s p ih =>
    cases q with
    | nil => cases hturns
    | cons t q =>
      rw [List.map_cons, List.map_cons, List.cons.injEq] at hturns
      rw [climbInputs] at hp hq
      have hstep := ih (fun i hi => hp i (List.mem_cons_of_mem _ hi))
        (fun i hi => hq i (List.mem_cons_of_mem _ hi)) hturns.2 h
      have hin := hS (hp _ (List.mem_cons_self ..)) (hq _ (List.mem_cons_self ..)) hstep
      rw [hturns.1] at hin
      exact (join_inj hin).1

theorem climb_append (hash : Input α D → D) (a : D) (p q : List (Bool × D)) :
    climb hash a (p ++ q) = climb hash (climb hash a p) q := by
  induction p generalizing a with
  | nil => rfl
  | cons step p ih => exact ih _

theorem climbInputs_append (hash : Input α D → D) (a : D) (p q : List (Bool × D)) :
    climbInputs hash a (p ++ q) = climbInputs hash a p ++ climbInputs hash (climb hash a p) q := by
  induction p generalizing a with
  | nil => rfl
  | cons step p ih =>
    rw [List.cons_append, climbInputs, climbInputs, climb, ih, List.cons_append]

/-- What a path that starts at a leaf ends in was hashed on the way. -/
theorem exists_input_of_climb (hash : Input α D → D) (a : α) (p : List (Bool × D)) :
    ∃ i ∈ Input.leaf a :: climbInputs hash (hash (.leaf a)) p,
      climb hash (hash (.leaf a)) p = hash i := by
  induction p using List.reverseRecOn with
  | nil => exact ⟨_, List.mem_cons_self .., rfl⟩
  | append_singleton p step _ =>
    refine ⟨join step.1 (climb hash (hash (.leaf a)) p) step.2, ?_, climb_append hash _ p [step]⟩
    rw [climbInputs_append]
    exact List.mem_cons_of_mem _ (List.mem_append_right _ (List.mem_singleton_self _))

/-! ## Descending -/

namespace Tree

/-- Follows turns downwards, `true` to the left: the subtree that they lead to, and the digests of the
siblings that are passed. -/
def descend (hash : Input α D → D) : Tree α → List Bool → Option (Tree α × List D)
  | t, [] => some (t, [])
  | leaf _, _ :: _ => none
  | node left right, true :: turns =>
    (descend hash left turns).map fun e => (e.1, right.digest hash :: e.2)
  | node left right, false :: turns =>
    (descend hash right turns).map fun e => (e.1, left.digest hash :: e.2)

/-- A path that ends in the digest of a tree is a path of the tree, if the inputs that were hashed do
not collide: turned around it leads to the leaf, and its siblings are those of the tree. -/
theorem descend_of_climb {S : Set (Input α D)} (hS : S.InjOn hash) {a : α} {p : List (Bool × D)}
    {t : Tree α} (ha : .leaf a ∈ S) (hp : ∀ i ∈ climbInputs hash (hash (.leaf a)) p, i ∈ S)
    (ht : ∀ i ∈ t.inputs hash, i ∈ S) (h : climb hash (hash (.leaf a)) p = t.digest hash) :
    t.descend hash (p.map (·.1)).reverse = some (leaf a, (p.map (·.2)).reverse) := by
  induction p using List.reverseRecOn generalizing t with
  | nil =>
    cases t with
    | leaf b =>
      rw [Input.leaf.inj (hS ha (ht _ (List.mem_singleton_self _)) h)]
      rfl
    | node l r => cases hS ha (ht _ (List.mem_cons_self ..)) h
  | append_singleton p step ih =>
    rw [climbInputs_append] at hp
    rw [climb_append] at h
    have hjoin := hp _ (List.mem_append_right _ (List.mem_singleton_self _))
    have hp' (i : Input α D) (hi : i ∈ climbInputs hash (hash (.leaf a)) p) : i ∈ S :=
      hp i (List.mem_append_left _ hi)
    rw [List.map_append, List.map_append, List.reverse_append, List.reverse_append]
    cases t with
    | leaf b =>
      have heq := hS hjoin (ht _ (List.mem_singleton_self _)) h
      unfold join at heq
      split_ifs at heq
    | node l r =>
      rw [inputs] at ht
      have hl (i : Input α D) (hi : i ∈ l.inputs hash) : i ∈ S :=
        ht i (List.mem_cons_of_mem _ (List.mem_append_left _ hi))
      have hr (i : Input α D) (hi : i ∈ r.inputs hash) : i ∈ S :=
        ht i (List.mem_cons_of_mem _ (List.mem_append_right _ hi))
      have heq := hS hjoin (ht _ (List.mem_cons_self ..)) h
      obtain ⟨isLeft, sibling⟩ := step
      cases isLeft with
      | true =>
        obtain ⟨hacc, rfl⟩ := Input.node.inj heq
        exact (congrArg _ (ih hp' hl hacc)).trans rfl
      | false =>
        obtain ⟨rfl, hacc⟩ := Input.node.inj heq
        exact (congrArg _ (ih hp' hr hacc)).trans rfl

end Tree

/-! ## The perfect tree, cut behind its last leaf -/

/-- The block of `2 ^ l` leaves that starts at `q * 2 ^ l`, of a tree with `m` leaves.  Where the
right half of a block has no leaf, the block is its left half. -/
def cut (f : ℕ → α) (m : ℕ) : ℕ → ℕ → Tree α
  | 0, q => .leaf (f q)
  | l + 1, q =>
    if (2 * q + 1) * 2 ^ l < m then .node (cut f m l (2 * q)) (cut f m l (2 * q + 1))
    else cut f m l (2 * q)

variable {f g : ℕ → α} {m n l q : ℕ}

theorem cut_succ_of_lt (h : (2 * q + 1) * 2 ^ l < m) :
    cut f m (l + 1) q = .node (cut f m l (2 * q)) (cut f m l (2 * q + 1)) := if_pos h

theorem cut_succ_of_le (h : m ≤ (2 * q + 1) * 2 ^ l) : cut f m (l + 1) q = cut f m l (2 * q) :=
  if_neg (Nat.not_lt.mpr h)

/-- The data of the leaves that a block has. -/
theorem leaves_cut (h : q * 2 ^ l < m) :
    (cut f m l q).leaves = (List.range' (q * 2 ^ l) (min (2 ^ l) (m - q * 2 ^ l))).map f := by
  induction l generalizing q with
  | zero =>
    rw [pow_zero, Nat.mul_one] at h ⊢
    rw [Nat.min_eq_left (by omega)]
    rfl
  | succ l ih =>
    have hstart : q * 2 ^ (l + 1) = 2 * q * 2 ^ l := by ring
    have hmid : (2 * q + 1) * 2 ^ l = 2 * q * 2 ^ l + 2 ^ l := by ring
    rw [hstart] at h ⊢
    by_cases hlt : (2 * q + 1) * 2 ^ l < m
    · rw [cut_succ_of_lt hlt, Tree.leaves, ih h, ih hlt, ← List.map_append, hmid,
        Nat.min_eq_left (by omega), List.range'_append_1]
      congr 2
      rw [pow_succ]
      omega
    · rw [cut_succ_of_le (Nat.not_lt.mp hlt), ih h]
      congr 2
      rw [pow_succ]
      omega

/-- A block all of whose leaves are there depends on these only. -/
theorem cut_congr (hm : (q + 1) * 2 ^ l ≤ m) (hn : (q + 1) * 2 ^ l ≤ n)
    (h : ∀ i < (q + 1) * 2 ^ l, f i = g i) : cut f m l q = cut g n l q := by
  induction l generalizing q with
  | zero =>
    rw [cut, cut, h q (by rw [pow_zero]; omega)]
  | succ l ih =>
    have hend : (q + 1) * 2 ^ (l + 1) = (2 * q + 1) * 2 ^ l + 2 ^ l := by ring
    have hright : (2 * q + 1 + 1) * 2 ^ l = (2 * q + 1) * 2 ^ l + 2 ^ l := by ring
    have hpos : 0 < 2 ^ l := Nat.two_pow_pos l
    rw [hend] at hm hn h
    rw [cut_succ_of_lt (by omega), cut_succ_of_lt (by omega)]
    rw [ih (q := 2 * q) (by omega) (by omega) (fun i hi => h i (by omega)),
      ih (q := 2 * q + 1) (by omega) (by omega) (fun i hi => h i (by omega))]

/-- A block of which only the leftmost part has leaves is that part. -/
theorem cut_eq_leftmost (d : ℕ) (h : m ≤ q * 2 ^ (l + d) + 2 ^ l) :
    cut f m (l + d) q = cut f m l (q * 2 ^ d) := by
  induction d generalizing q with
  | zero => rw [Nat.add_zero, pow_zero, Nat.mul_one]
  | succ d ih =>
    have hstart : q * 2 ^ (l + (d + 1)) = 2 * q * 2 ^ (l + d) := by ring
    have hle : 2 ^ l ≤ 2 ^ (l + d) := Nat.pow_le_pow_right (by omega) (by omega)
    have hmid : (2 * q + 1) * 2 ^ (l + d) = 2 * q * 2 ^ (l + d) + 2 ^ (l + d) := by ring
    rw [hstart] at h
    rw [← Nat.add_assoc, cut_succ_of_le (by omega), ih h]
    congr 1
    ring

/-! ## The tree of a list -/

/-- The tree over a list that is not empty: a block that is large enough. -/
def ofList (default : α) (l : List α) : Tree α :=
  cut (fun i => l.getD i default) l.length (Nat.clog 2 l.length) 0

theorem leaves_ofList (default : α) {l : List α} (h : l ≠ []) :
    (ofList default l).leaves = l := by
  have hpos : 0 < l.length := List.length_pos_iff.mpr h
  unfold ofList
  rw [leaves_cut (by rw [Nat.zero_mul]; exact hpos), Nat.zero_mul, Nat.sub_zero,
    Nat.min_eq_right (Nat.le_pow_clog (by omega) _)]
  apply List.ext_getElem
  · rw [List.length_map, List.length_range']
  · intro i hi hi'
    rw [List.getElem_map, List.getElem_range', Nat.zero_add, Nat.one_mul, List.getD_eq_getElem?_getD,
      List.getElem?_eq_getElem hi', Option.getD_some]

/-- Lists whose trees have one digest are equal. -/
theorem digest_ofList_injOn {S : Set (Input α D)} (hS : S.InjOn hash) {default : α}
    {k l : List α} (hk : k ≠ []) (hl : l ≠ [])
    (hki : ∀ i ∈ (ofList default k).inputs hash, i ∈ S)
    (hli : ∀ i ∈ (ofList default l).inputs hash, i ∈ S)
    (h : (ofList default k).digest hash = (ofList default l).digest hash) : k = l := by
  have htree := Tree.digest_injOn hS hki hli h
  rw [← leaves_ofList default hk, htree, leaves_ofList default hl]

end Astria.Lib.HashTree
