import Mathlib.Data.Finset.Card
import Mathlib.Data.List.Nodup
import Mathlib.Data.Set.Card
import Mathlib.Logic.Function.Basic
import Mathlib.Order.Defs.Unbundled

/-!
# Sorted association lists

A finite map as a list of entries by ascending key, and patches: what a batch of changes, of which the
last one to a key counts, does to a partial map.

Results:
* `lookup_insert`, `lookup_erase`: reading after a write, with no assumption on the list;
* `lookup_mapValues`, `mapValues_insert`, `mapValues_erase`: changing every value commutes with them;
* `Sorted.insert`, `Sorted.erase`, `Sorted.length_insert`, `Sorted.length_erase`: a list without
  duplicate keys stays one, and how its length changes;
* `Sorted.encard_lookup`: it has as many entries as keys;
* `Sorted.foldl_update`: applying the entries of a list one by one is applying it as a patch.
-/

namespace Astria.Lib

/-! ## Entries by ascending key -/

namespace SortedMap

variable {K A B : Type} [DecidableEq K]

/-- The value at a key. -/
def lookup (k : K) (l : List (K × A)) : Option A := (l.find? fun e => e.1 = k).map (·.2)

/-- The entries of the other keys. -/
def erase (k : K) (l : List (K × A)) : List (K × A) := l.filter fun e => e.1 ≠ k

theorem lookup_nil (k : K) : lookup k ([] : List (K × A)) = none := rfl

theorem lookup_cons (k : K) (e : K × A) (l : List (K × A)) :
    lookup k (e :: l) = if e.1 = k then some e.2 else lookup k l := by
  unfold lookup
  by_cases h : e.1 = k
  · rw [List.find?_cons_of_pos (by simpa using h), if_pos h]
    rfl
  · rw [List.find?_cons_of_neg (by simpa using h), if_neg h]

theorem mem_of_lookup {k : K} {a : A} {l : List (K × A)} (h : lookup k l = some a) :
    (k, a) ∈ l := by
  induction l with
  | nil => cases h
  | cons e l ih =>
    rw [lookup_cons] at h
    split_ifs at h with hk
    · obtain rfl := Option.some.inj h
      rw [← hk]
      exact List.mem_cons_self ..
    · exact List.mem_cons_of_mem _ (ih h)

theorem lookup_isSome_iff {k : K} {l : List (K × A)} :
    (lookup k l).isSome = true ↔ k ∈ l.map (·.1) := by
  unfold lookup
  rw [Option.isSome_map, List.find?_isSome]
  simp

theorem lookup_erase (k j : K) (l : List (K × A)) :
    lookup j (erase k l) = if j = k then none else lookup j l := by
  induction l with
  | nil => simp [erase, lookup]
  | cons e l ih =>
    unfold erase at ih ⊢
    by_cases he : e.1 = k
    · rw [List.filter_cons_of_neg (by simpa using he), ih, lookup_cons]
      by_cases hj : j = k
      · rw [if_pos hj, if_pos hj]
      · rw [if_neg hj, if_neg hj, if_neg (by rw [he]; exact Ne.symm hj)]
    · rw [List.filter_cons_of_pos (by simpa using he), lookup_cons, ih, lookup_cons]
      by_cases hj : e.1 = j
      · rw [if_pos hj, if_pos hj, if_neg (by rw [← hj]; exact he)]
      · rw [if_neg hj, if_neg hj]

/-- Every value changed by a function. -/
def mapValues (f : A → B) (l : List (K × A)) : List (K × B) := l.map fun e => (e.1, f e.2)

theorem lookup_mapValues (f : A → B) (k : K) (l : List (K × A)) :
    lookup k (mapValues f l) = (lookup k l).map f := by
  induction l with
  | nil => rfl
  | cons e l ih =>
    show lookup k ((e.1, f e.2) :: mapValues f l) = _
    rw [lookup_cons, lookup_cons, ih]
    split_ifs <;> rfl

theorem mapValues_erase (f : A → B) (k : K) (l : List (K × A)) :
    mapValues f (erase k l) = erase k (mapValues f l) := by
  unfold mapValues erase
  rw [List.filter_map]
  rfl

variable (lt : K → K → Prop) [DecidableRel lt]

/-- The entry goes before the first greater key, or in the place of its own key. -/
def insert (k : K) (a : A) : List (K × A) → List (K × A)
  | [] => [(k, a)]
  | (j, b) :: l =>
    if lt k j then (k, a) :: (j, b) :: l
    else if k = j then (k, a) :: l
    else (j, b) :: insert k a l

theorem lookup_insert (k j : K) (a : A) (l : List (K × A)) :
    lookup j (insert lt k a l) = if j = k then some a else lookup j l := by
  induction l with
  | nil =>
    rw [insert, lookup_cons, lookup_nil]
    by_cases hj : j = k
    · rw [if_pos hj, if_pos hj.symm]
    · rw [if_neg hj, if_neg (Ne.symm hj)]
  | cons e l ih =>
    obtain ⟨i, b⟩ := e
    rw [insert]
    by_cases hj : j = k
    · rw [if_pos hj]
      subst hj
      split_ifs with hlt heq
      · rw [lookup_cons, if_pos rfl]
      · rw [lookup_cons, if_pos rfl]
      · rw [lookup_cons, ih, if_pos rfl]
        exact if_neg (Ne.symm heq)
    · rw [if_neg hj]
      split_ifs with hlt heq
      · rw [lookup_cons, if_neg (Ne.symm hj)]
      · subst heq
        rw [lookup_cons, lookup_cons, if_neg (Ne.symm hj), if_neg (Ne.symm hj)]
      · rw [lookup_cons, lookup_cons, ih, if_neg hj]

theorem mapValues_insert (f : A → B) (k : K) (a : A) (l : List (K × A)) :
    mapValues f (insert lt k a l) = insert lt k (f a) (mapValues f l) := by
  induction l with
  | nil => rfl
  | cons e l ih =>
    obtain ⟨j, b⟩ := e
    show mapValues f (insert lt k a ((j, b) :: l)) = insert lt k (f a) ((j, f b) :: mapValues f l)
    rw [insert, insert, ← ih]
    split_ifs <;> rfl

theorem mem_of_mem_insert {k : K} {a : A} {e : K × A} {l : List (K × A)}
    (h : e ∈ insert lt k a l) : e = (k, a) ∨ e ∈ l := by
  induction l with
  | nil =>
    rw [insert, List.mem_singleton] at h
    exact Or.inl h
  | cons d l ih =>
    rw [insert] at h
    split_ifs at h with hlt heq
    · exact List.mem_cons.mp h
    · rcases List.mem_cons.mp h with h | h
      · exact Or.inl h
      · exact Or.inr (List.mem_cons_of_mem _ h)
    · rcases List.mem_cons.mp h with h | h
      · exact Or.inr (h ▸ List.mem_cons_self ..)
      · exact (ih h).imp_right (List.mem_cons_of_mem _)

/-- The keys ascend. -/
def Sorted (l : List (K × A)) : Prop := l.Pairwise fun d e => lt d.1 e.1

namespace Sorted

variable {lt} {l : List (K × A)} {k : K} {a : A}

omit [DecidableEq K] [DecidableRel lt] in
theorem nil : Sorted lt ([] : List (K × A)) := List.Pairwise.nil

omit [DecidableRel lt] in
theorem erase (h : Sorted lt l) (k : K) : Sorted lt (erase k l) :=
  List.Pairwise.filter _ h

theorem insert [IsTrans K lt] [Std.Trichotomous lt] (h : Sorted lt l) (k : K) (a : A) :
    Sorted lt (insert lt k a l) := by
  induction l with
  | nil => exact List.pairwise_singleton _ _
  | cons e l ih =>
    obtain ⟨j, b⟩ := e
    have hbelow {e : K × A} (he : e ∈ l) : lt j e.1 := List.rel_of_pairwise_cons h he
    rw [SortedMap.insert]
    split_ifs with hlt heq
    · refine List.Pairwise.cons ?_ h
      intro e he
      rcases List.mem_cons.mp he with rfl | he
      · exact hlt
      · exact IsTrans.trans _ _ _ hlt (hbelow he)
    · subst heq
      exact List.Pairwise.cons (fun e he => hbelow he) (List.Pairwise.of_cons h)
    · refine List.Pairwise.cons ?_ (ih (List.Pairwise.of_cons h))
      intro e he
      rcases mem_of_mem_insert lt he with rfl | he
      · rcases Std.Trichotomous.rel_or_eq_or_rel_swap (r := lt) (a := k) (b := j) with h' | h' | h'
        · exact absurd h' hlt
        · exact absurd h' heq
        · exact h'
      · exact hbelow he

omit [DecidableEq K] [DecidableRel lt] in
theorem nodup [Std.Irrefl lt] (h : Sorted lt l) : (l.map (·.1)).Nodup := by
  rw [List.Nodup, List.pairwise_map]
  refine List.Pairwise.imp ?_ h
  intro d e hlt heq
  rw [heq] at hlt
  exact Std.Irrefl.irrefl _ hlt

omit [DecidableRel lt] in
/-- A sorted list holds the entry that is found at its key. -/
theorem lookup_eq_some [Std.Irrefl lt] (h : Sorted lt l) : lookup k l = some a ↔ (k, a) ∈ l := by
  constructor
  · exact mem_of_lookup
  · intro hmem
    induction l with
    | nil => cases hmem
    | cons e l ih =>
      rw [lookup_cons]
      rcases List.mem_cons.mp hmem with rfl | hmem
      · rw [if_pos rfl]
      · rw [if_neg, ih (List.Pairwise.of_cons h) hmem]
        intro heq
        have hlt := List.rel_of_pairwise_cons h hmem
        rw [heq] at hlt
        exact Std.Irrefl.irrefl _ hlt

omit [DecidableRel lt] in
/-- A sorted list has as many entries as the map that it stands for. -/
theorem encard_lookup [Std.Irrefl lt] (h : Sorted lt l) :
    {k | (lookup k l).isSome = true}.encard = l.length := by
  have hkeys : {k | (lookup k l).isSome = true} = ((l.map (·.1)).toFinset : Set K) := by
    ext k
    rw [Set.mem_ofPred_eq, lookup_isSome_iff, Finset.mem_coe, List.mem_toFinset]
  rw [hkeys, Set.encard_coe_eq_coe_finsetCard, List.toFinset_card_of_nodup (h.nodup), List.length_map]

theorem length_insert [IsTrans K lt] [Std.Irrefl lt] (h : Sorted lt l) (k : K) (a : A) :
    (SortedMap.insert lt k a l).length =
      if (lookup k l).isSome then l.length else l.length + 1 := by
  induction l with
  | nil => rfl
  | cons e l ih =>
    obtain ⟨j, b⟩ := e
    have hbelow {e : K × A} (he : e ∈ l) : lt j e.1 := List.rel_of_pairwise_cons h he
    rw [SortedMap.insert]
    by_cases hlt : lt k j
    · -- a smaller key than the first one is not in the list
      rw [if_pos hlt, List.length_cons, if_neg]
      intro hsome
      obtain ⟨e, he, hk⟩ := List.mem_map.mp (lookup_isSome_iff.mp hsome)
      rcases List.mem_cons.mp he with rfl | he
      · rw [← hk] at hlt
        exact Std.Irrefl.irrefl _ hlt
      · rw [← hk] at hlt
        exact Std.Irrefl.irrefl _ (IsTrans.trans _ _ _ hlt (hbelow he))
    · rw [if_neg hlt, lookup_cons]
      by_cases heq : k = j
      · rw [if_pos heq, if_pos heq.symm, Option.isSome_some, if_pos rfl, List.length_cons,
          List.length_cons]
      · rw [if_neg heq, if_neg (Ne.symm heq), List.length_cons, ih (List.Pairwise.of_cons h),
          List.length_cons]
        split_ifs <;> rfl

omit [DecidableRel lt] in
theorem length_erase [Std.Irrefl lt] (h : Sorted lt l) (k : K) :
    (SortedMap.erase k l).length =
      if (lookup k l).isSome then l.length - 1 else l.length := by
  induction l with
  | nil => rfl
  | cons e l ih =>
    have ih := ih (List.Pairwise.of_cons h)
    unfold SortedMap.erase at ih ⊢
    rw [lookup_cons]
    by_cases hk : e.1 = k
    · rw [List.filter_cons_of_neg (by simpa using hk), ih, if_pos hk, Option.isSome_some, if_pos rfl,
        List.length_cons, Nat.add_sub_cancel]
      refine if_neg ?_
      intro hsome
      obtain ⟨d, hd, heq⟩ := List.mem_map.mp (lookup_isSome_iff.mp hsome)
      have hlt := List.rel_of_pairwise_cons h hd
      rw [heq, hk] at hlt
      exact Std.Irrefl.irrefl _ hlt
    · rw [List.filter_cons_of_pos (by simpa using hk), List.length_cons, ih, if_neg hk]
      split_ifs with hsome
      · have hpos : 0 < l.length := by
          obtain ⟨d, hd, -⟩ := List.mem_map.mp (lookup_isSome_iff.mp hsome)
          exact List.length_pos_of_mem hd
        rw [List.length_cons]
        omega
      · rw [List.length_cons]

end Sorted

end SortedMap

/-! ## Patches -/

/-- What a batch of changes does to every key: nothing, a removal, or a new value. -/
abbrev Patch (K A : Type) := K → Option (Option A)

namespace Patch

variable {K A B : Type} {p : Patch K A} {m m' : K → Option A}

/-- A map with the changes of a patch. -/
def apply (p : Patch K A) (m : K → Option A) : K → Option A := fun k => (p k).getD (m k)

/-- Every removal is that of a key which is there. -/
def Legal (p : Patch K A) (m : K → Option A) : Prop :=
  ∀ k, p k = some none → (m k).isSome = true

theorem apply_of_none {k : K} (h : p k = none) : p.apply m k = m k := by
  unfold apply
  rw [h, Option.getD_none]

theorem apply_of_some {k : K} {a : Option A} (h : p k = some a) : p.apply m k = a := by
  unfold apply
  rw [h, Option.getD_some]

theorem apply_update [DecidableEq K] (k : K) (a : Option A) :
    apply (Function.update p k (some a)) m = Function.update (p.apply m) k a := by
  funext j
  unfold apply
  by_cases hj : j = k
  · subst hj
    rw [Function.update_self, Function.update_self, Option.getD_some]
  · rw [Function.update_of_ne hj, Function.update_of_ne hj]

/-- Something is left exactly if the patch adds something, or does not name some key. -/
theorem exists_apply_isSome :
    (∃ k, (p.apply m k).isSome = true) ↔
      (∃ k a, p k = some (some a)) ∨ ∃ k, p k = none ∧ (m k).isSome = true := by
  constructor
  · rintro ⟨k, hk⟩
    cases hp : p k with
    | none =>
      rw [apply_of_none hp] at hk
      exact Or.inr ⟨k, hp, hk⟩
    | some o =>
      rw [apply_of_some hp] at hk
      obtain ⟨a, rfl⟩ := Option.isSome_iff_exists.mp hk
      exact Or.inl ⟨k, a, hp⟩
  · rintro (⟨k, a, hp⟩ | ⟨k, hp, hk⟩)
    · exact ⟨k, by rw [apply_of_some hp]; rfl⟩
    · exact ⟨k, by rw [apply_of_none hp]; exact hk⟩

end Patch

namespace SortedMap

variable {K A B : Type} [DecidableEq K] {lt : K → K → Prop} {l : List (K × A)}

/-- Applying the entries of a list one by one is applying them as a patch. -/
theorem Sorted.foldl_update [Std.Irrefl lt] (h : Sorted lt l) (f : A → Option B)
    (m : K → Option B) :
    l.foldl (fun m e => Function.update m e.1 (f e.2)) m =
      Patch.apply (fun k => (lookup k l).map f) m := by
  induction l generalizing m with
  | nil => rfl
  | cons e l ih =>
    rw [List.foldl_cons, ih (List.Pairwise.of_cons h)]
    funext k
    unfold Patch.apply
    dsimp only
    rw [lookup_cons]
    by_cases hk : e.1 = k
    · -- the key of the first entry is that of no other one
      have hnone : lookup k l = none := by
        rw [← Option.not_isSome_iff_eq_none]
        intro hsome
        obtain ⟨d, hd, heq⟩ := List.mem_map.mp (lookup_isSome_iff.mp hsome)
        have hlt := List.rel_of_pairwise_cons h hd
        rw [heq, hk] at hlt
        exact Std.Irrefl.irrefl _ hlt
      rw [hnone, if_pos hk, ← hk, Function.update_self]
      rfl
    · rw [if_neg hk, Function.update_of_ne (Ne.symm hk)]

end SortedMap

end Astria.Lib
