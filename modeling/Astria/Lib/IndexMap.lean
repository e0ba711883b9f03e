import Astria.Lib.SortedMap
import Mathlib.Data.List.Perm.Basic

/-!
# Maps in order of insertion

A map that keeps the order in which its keys came, with the operations on an entry and the sorting by
key.  A hash map is one whose order is nobody's choice: what does not depend on it is stated for any
two maps with the same entries.

Results:
* `get_modify`, `get_insert`, `get_remove`, `get_sortKeys`: reading after a write or a sort;
* `entries_collect`: collecting a list without duplicate keys keeps it;
* `moveKeys_eq_copyKeys`, `get_copyKeys`: the entries of some keys, moved or copied out of a map;
* `SortedMap.Sorted.ext`, `sortKeys_ext`: a sorted map is determined by what it maps its keys to;
* `get_eq_of_same`: reading does not depend on the order.
-/

namespace Astria.Lib

/-! ## Sorted lists -/

namespace SortedMap

variable {K A : Type} [DecidableEq K] {lt : K → K → Prop}

/-- Sorted lists are equal if they map the same keys to the same values. -/
theorem Sorted.ext [IsTrans K lt] [Std.Irrefl lt] {l l' : List (K × A)} (h : Sorted lt l)
    (h' : Sorted lt l') (heq : ∀ k, lookup k l = lookup k l') : l = l' := by
  have hperm : l.Perm l' := by
    refine (List.perm_ext_iff_of_nodup (List.Nodup.of_map _ h.nodup)
      (List.Nodup.of_map _ h'.nodup)).mpr ?_
    rintro ⟨k, a⟩
    rw [← h.lookup_eq_some, ← h'.lookup_eq_some, heq]
  refine hperm.eq_of_pairwise ?_ h h'
  intro d e _ _ hde hed
  exact absurd (IsTrans.trans _ _ _ hde hed) (Std.Irrefl.irrefl _)

end SortedMap

/-! ## Maps -/

/-- The entries of a map, in the order in which their keys came. -/
structure IndexMap (K V : Type) where
  entries : List (K × V)
  nodup : (entries.map (·.1)).Nodup

namespace IndexMap

variable {K V : Type} [DecidableEq K]

omit [DecidableEq K] in
theorem ext {m m' : IndexMap K V} (h : m.entries = m'.entries) : m = m' := by
  obtain ⟨entries, hnodup⟩ := m
  obtain ⟨entries', hnodup'⟩ := m'
  cases h
  rfl

def empty : IndexMap K V := { entries := [], nodup := List.nodup_nil }

def get (m : IndexMap K V) (k : K) : Option V := SortedMap.lookup k m.entries

def keys (m : IndexMap K V) : List K := m.entries.map (·.1)

def values (m : IndexMap K V) : List V := m.entries.map (·.2)

/-- The entry of a key with a new value: in its place, or behind all others. -/
def updateEntries (k : K) (f : Option V → V) : List (K × V) → List (K × V)
  | [] => [(k, f none)]
  | e :: l => if e.1 = k then (k, f (some e.2)) :: l else e :: updateEntries k f l

theorem mem_keys_updateEntries {k j : K} {f : Option V → V} {l : List (K × V)} :
    j ∈ (updateEntries k f l).map (·.1) ↔ j = k ∨ j ∈ l.map (·.1) := by
  induction l with
  | nil => simp [updateEntries]
  | cons e l ih =>
    rw [updateEntries]
    split_ifs with h
    · rw [List.map_cons, List.map_cons, List.mem_cons, List.mem_cons, h]
      tauto
    · rw [List.map_cons, List.map_cons, List.mem_cons, List.mem_cons, ih]
      tauto

theorem length_updateEntries_le (k : K) (f : Option V → V) (l : List (K × V)) :
    (updateEntries k f l).length ≤ l.length + 1 := by
  induction l with
  | nil => exact Nat.le_refl 1
  | cons e l ih =>
    rw [updateEntries]
    split_ifs
    · exact Nat.le_succ _
    · exact Nat.succ_le_succ ih

theorem nodup_updateEntries (k : K) (f : Option V → V) {l : List (K × V)}
    (h : (l.map (·.1)).Nodup) : ((updateEntries k f l).map (·.1)).Nodup := by
  induction l with
  | nil => exact List.nodup_singleton _
  | cons e l ih =>
    rw [List.map_cons, List.nodup_cons] at h
    rw [updateEntries]
    split_ifs with hk
    · rw [List.map_cons, List.nodup_cons, ← hk]
      exact h
    · rw [List.map_cons, List.nodup_cons, mem_keys_updateEntries]
      exact ⟨fun hmem => hmem.elim hk h.1, ih h.2⟩

theorem lookup_updateEntries (k j : K) (f : Option V → V) (l : List (K × V)) :
    SortedMap.lookup j (updateEntries k f l) =
      if j = k then some (f (SortedMap.lookup k l)) else SortedMap.lookup j l := by
  induction l with
  | nil =>
    rw [updateEntries, SortedMap.lookup_cons, SortedMap.lookup_nil, SortedMap.lookup_nil]
    by_cases hj : j = k
    · rw [if_pos hj, if_pos hj.symm]
    · rw [if_neg hj, if_neg (Ne.symm hj)]
  | cons e l ih =>
    rw [updateEntries, SortedMap.lookup_cons, SortedMap.lookup_cons]
    by_cases he : e.1 = k
    · rw [if_pos he, if_pos he, SortedMap.lookup_cons, he]
      by_cases hj : j = k
      · rw [if_pos hj, if_pos hj.symm]
      · rw [if_neg hj, if_neg (Ne.symm hj), if_neg (Ne.symm hj)]
    · rw [if_neg he, if_neg he, SortedMap.lookup_cons, ih]
      by_cases hj : j = k
      · rw [if_pos hj, if_pos hj, if_neg (by rw [hj]; exact he)]
      · rw [if_neg hj, if_neg hj]

/-- `entry(k).or_insert(default)`, with a change of what is there. -/
def modify (k : K) (default : V) (f : V → V) (m : IndexMap K V) : IndexMap K V :=
  { entries := updateEntries k (fun v => f (v.getD default)) m.entries
    nodup := nodup_updateEntries k _ m.nodup }

theorem get_modify (k j : K) (default : V) (f : V → V) (m : IndexMap K V) :
    (m.modify k default f).get j =
      if j = k then some (f ((m.get k).getD default)) else m.get j :=
  lookup_updateEntries k j _ m.entries

/-- Changing the entries of several keys, each named once. -/
theorem get_foldl_modify {W : Type} (default : V) (f : W → V → V) (l : List (K × W))
    (h : (l.map (·.1)).Nodup) (m : IndexMap K V) (k : K) :
    (l.foldl (fun m e => m.modify e.1 default (f e.2)) m).get k =
      (SortedMap.lookup k l).elim (m.get k) fun w => some (f w ((m.get k).getD default)) := by
  induction l generalizing m with
  | nil => rfl
  | cons e l ih =>
    rw [List.map_cons, List.nodup_cons] at h
    rw [List.foldl_cons, ih h.2, get_modify, SortedMap.lookup_cons]
    by_cases hk : k = e.1
    · have hnone : SortedMap.lookup k l = none := by
        rw [← Option.not_isSome_iff_eq_none, SortedMap.lookup_isSome_iff, hk]
        exact h.1
      rw [hnone, if_pos hk, if_pos hk.symm, hk]
      rfl
    · rw [if_neg hk, if_neg (Ne.symm hk)]

/-- `insert`: the value of a key that is there is replaced. -/
def insert (k : K) (v : V) (m : IndexMap K V) : IndexMap K V :=
  { entries := updateEntries k (fun _ => v) m.entries
    nodup := nodup_updateEntries k _ m.nodup }

/-- `collect` of an iterator over entries. -/
def collect (l : List (K × V)) : IndexMap K V := l.foldl (fun m e => m.insert e.1 e.2) empty

theorem updateEntries_of_not_mem {k : K} (f : Option V → V) {l : List (K × V)}
    (h : k ∉ l.map (·.1)) : updateEntries k f l = l ++ [(k, f none)] := by
  induction l with
  | nil => rfl
  | cons e l ih =>
    rw [List.map_cons, List.mem_cons, not_or] at h
    rw [updateEntries, if_neg (Ne.symm h.1), ih h.2]
    rfl

theorem entries_foldl_insert (l : List (K × V)) (m : IndexMap K V)
    (h : (m.entries ++ l).map (·.1) |>.Nodup) :
    (l.foldl (fun m e => m.insert e.1 e.2) m).entries = m.entries ++ l := by
  induction l generalizing m with
  | nil => exact (List.append_nil _).symm
  | cons e l ih =>
    have hnew : e.1 ∉ m.entries.map (·.1) := by
      intro hmem
      rw [List.map_append, List.nodup_append'] at h
      exact h.2.2 hmem (List.mem_cons_self ..)
    have hinsert : (m.insert e.1 e.2).entries = m.entries ++ [e] :=
      updateEntries_of_not_mem _ hnew
    rw [List.foldl_cons, ih, hinsert, List.append_assoc]
    · rfl
    · rw [hinsert, List.append_assoc]
      exact h

theorem entries_collect {l : List (K × V)} (h : (l.map (·.1)).Nodup) :
    (collect l).entries = l := entries_foldl_insert l empty h

theorem collect_entries (m : IndexMap K V) : collect m.entries = m :=
  ext (entries_collect m.nodup)

theorem get_insert (k j : K) (v : V) (m : IndexMap K V) :
    (m.insert k v).get j = if j = k then some v else m.get j :=
  lookup_updateEntries k j _ m.entries

theorem updateEntries_of_lookup {k : K} {v : V} {l : List (K × V)}
    (h : SortedMap.lookup k l = some v) : updateEntries k (fun _ => v) l = l := by
  induction l with
  | nil => cases h
  | cons e l ih =>
    rw [SortedMap.lookup_cons] at h
    rw [updateEntries]
    split_ifs at h ⊢ with hk
    · rw [← hk, ← Option.some.inj h]
    · rw [ih h]

/-- Inserting what is there changes nothing. -/
theorem insert_of_get {m : IndexMap K V} {k : K} {v : V} (h : m.get k = some v) :
    m.insert k v = m := ext (updateEntries_of_lookup h)

theorem mem_updateEntries {k : K} {v : V} {l : List (K × V)} {e : K × V}
    (h : e ∈ updateEntries k (fun _ => v) l) : e = (k, v) ∨ e ∈ l := by
  induction l with
  | nil => exact Or.inl (List.mem_singleton.mp h)
  | cons d l ih =>
    rw [updateEntries] at h
    split_ifs at h with hk
    · exact (List.mem_cons.mp h).imp_right fun hmem => List.mem_cons_of_mem _ hmem
    · rcases List.mem_cons.mp h with rfl | hmem
      · exact Or.inr (List.mem_cons_self ..)
      · exact (ih hmem).imp_right fun hmem => List.mem_cons_of_mem _ hmem

theorem mem_foldl_insert {l : List (K × V)} {m : IndexMap K V} {e : K × V}
    (h : e ∈ (l.foldl (fun m e => m.insert e.1 e.2) m).entries) : e ∈ m.entries ∨ e ∈ l := by
  induction l generalizing m with
  | nil => exact Or.inl h
  | cons d l ih =>
    rcases ih h with hmem | hmem
    · rcases mem_updateEntries hmem with rfl | hmem
      · exact Or.inr (List.mem_cons_self ..)
      · exact Or.inl hmem
    · exact Or.inr (List.mem_cons_of_mem _ hmem)

/-- A map that was collected has no other entries. -/
theorem mem_of_mem_collect {l : List (K × V)} {e : K × V} (h : e ∈ (collect l).entries) : e ∈ l :=
  (mem_foldl_insert h).resolve_left List.not_mem_nil

/-! ### Some of the keys -/

/-- `shift_remove`, without the value: the other entries keep their order. -/
def remove (k : K) (m : IndexMap K V) : IndexMap K V :=
  { entries := SortedMap.erase k m.entries
    nodup := m.nodup.sublist (List.filter_sublist.map _) }

theorem get_remove (k j : K) (m : IndexMap K V) :
    (m.remove k).get j = if j = k then none else m.get j := SortedMap.lookup_erase k j m.entries

/-- The entries of some keys, moved out of a map one by one. -/
def moveKeys : List K → IndexMap K V → IndexMap K V → IndexMap K V
  | [], _, target => target
  | k :: ks, source, target =>
    match source.get k with
    | some v => moveKeys ks (source.remove k) (target.insert k v)
    | none => moveKeys ks source target

/-- The entries of some keys, copied out of a map one by one. -/
def copyKeys (source : IndexMap K V) : List K → IndexMap K V → IndexMap K V
  | [], target => target
  | k :: ks, target =>
    match source.get k with
    | some v => copyKeys source ks (target.insert k v)
    | none => copyKeys source ks target

/-- A key that is named twice is moved once and copied twice, which makes no difference: `rest` and
`target` are the two parts of `source`. -/
theorem moveKeys_eq_copyKeys (source : IndexMap K V) {rest target : IndexMap K V} (ks : List K)
    (hparts : ∀ k, source.get k = (target.get k).or (rest.get k))
    (hapart : ∀ k v, target.get k = some v → rest.get k = none) :
    moveKeys ks rest target = copyKeys source ks target := by
  induction ks generalizing rest target with
  | nil => rfl
  | cons k ks ih =>
    rw [moveKeys, copyKeys, hparts k]
    cases htarget : target.get k with
    | some v =>
      rw [hapart k v htarget, Option.some_or]
      dsimp only
      rw [insert_of_get htarget]
      exact ih hparts hapart
    | none =>
      rw [Option.none_or]
      cases hrest : rest.get k with
      | none => exact ih hparts hapart
      | some v =>
        apply ih
        · intro j
          rw [get_insert, get_remove]
          by_cases hj : j = k
          · rw [if_pos hj, hj, hparts, htarget, hrest]
            rfl
          · rw [if_neg hj, if_neg hj]
            exact hparts j
        · intro j w hw
          rw [get_remove]
          by_cases hj : j = k
          · exact if_pos hj
          · rw [get_insert, if_neg hj] at hw
            rw [if_neg hj]
            exact hapart j w hw

theorem get_copyKeys (source : IndexMap K V) (ks : List K) (target : IndexMap K V) (j : K) :
    (copyKeys source ks target).get j =
      if j ∈ ks then (source.get j).or (target.get j) else target.get j := by
  induction ks generalizing target with
  | nil => rfl
  | cons k ks ih =>
    rw [copyKeys]
    cases hk : source.get k with
    | none =>
      dsimp only
      rw [ih]
      by_cases hj : j = k
      · simp [hj, hk]
      · simp [hj]
    | some v =>
      dsimp only
      rw [ih, get_insert]
      by_cases hj : j = k
      · simp [hj, hk]
      · simp [hj]

/-- The copied entries, once for each time that their key is named. -/
def namedEntries (source : IndexMap K V) (ks : List K) : List (K × V) :=
  ks.filterMap fun k => (source.get k).map fun v => (k, v)

theorem get_of_mem_namedEntries {source : IndexMap K V} {ks : List K} {e : K × V}
    (h : e ∈ source.namedEntries ks) : source.get e.1 = some e.2 := by
  obtain ⟨k, -, hk⟩ := List.mem_filterMap.mp h
  obtain ⟨v, hv, rfl⟩ := Option.map_eq_some_iff.mp hk
  exact hv

theorem collect_namedEntries (source : IndexMap K V) (ks : List K) :
    collect (source.namedEntries ks) = copyKeys source ks empty := by
  have h (target : IndexMap K V) :
      (source.namedEntries ks).foldl (fun m e => m.insert e.1 e.2) target =
        copyKeys source ks target := by
    induction ks generalizing target with
    | nil => rfl
    | cons k ks ih =>
      rw [namedEntries, List.filterMap_cons, copyKeys]
      cases source.get k with
      | none => exact ih target
      | some v => exact ih (target.insert k v)
  exact h empty

/-! ### Sorting -/

variable (lt : K → K → Prop) [DecidableRel lt]

/-- The entries by ascending key; the keys are distinct, so any way of sorting gives the same. -/
def sortEntries (l : List (K × V)) : List (K × V) :=
  l.foldr (fun e sorted => SortedMap.insert lt e.1 e.2 sorted) []

theorem lookup_sortEntries (k : K) (l : List (K × V)) :
    SortedMap.lookup k (sortEntries lt l) = SortedMap.lookup k l := by
  induction l with
  | nil => rfl
  | cons e l ih =>
    rw [sortEntries, List.foldr_cons, SortedMap.lookup_insert, SortedMap.lookup_cons]
    unfold sortEntries at ih
    rw [ih]
    by_cases h : k = e.1
    · rw [if_pos h, if_pos h.symm]
    · rw [if_neg h, if_neg (Ne.symm h)]

variable [IsTrans K lt] [Std.Trichotomous lt] [Std.Irrefl lt]

omit [Std.Irrefl lt] in
theorem sorted_sortEntries (l : List (K × V)) : SortedMap.Sorted lt (sortEntries lt l) := by
  induction l with
  | nil => exact SortedMap.Sorted.nil
  | cons e l ih => exact ih.insert e.1 e.2

/-- `sort_unstable_keys`. -/
def sortKeys (m : IndexMap K V) : IndexMap K V :=
  { entries := sortEntries lt m.entries
    nodup := (sorted_sortEntries lt m.entries).nodup }

theorem sortEntries_of_sorted {l : List (K × V)} (h : SortedMap.Sorted lt l) :
    sortEntries lt l = l :=
  (sorted_sortEntries lt l).ext h fun k => lookup_sortEntries lt k l

theorem get_sortKeys (m : IndexMap K V) (k : K) : (m.sortKeys lt).get k = m.get k :=
  lookup_sortEntries lt k m.entries

/-- What sorting makes of a map depends on what it maps its keys to only. -/
theorem sortKeys_ext {m m' : IndexMap K V} (h : ∀ k, m.get k = m'.get k) :
    (m.sortKeys lt).entries = (m'.sortKeys lt).entries := by
  refine (sorted_sortEntries lt m.entries).ext (sorted_sortEntries lt m'.entries) ?_
  intro k
  calc SortedMap.lookup k (sortEntries lt m.entries) = m.get k := lookup_sortEntries lt k _
    _ = m'.get k := h k
    _ = SortedMap.lookup k (sortEntries lt m'.entries) := (lookup_sortEntries lt k _).symm

/-! ### Maps that differ in their order -/

/-- Two hash maps with the same entries. -/
def Same (m m' : IndexMap K V) : Prop := m.entries.Perm m'.entries

omit lt [DecidableRel lt] [IsTrans K lt] [Std.Trichotomous lt] [Std.Irrefl lt] in
theorem get_eq_some {m : IndexMap K V} {k : K} {v : V} :
    m.get k = some v ↔ (k, v) ∈ m.entries := by
  constructor
  · exact SortedMap.mem_of_lookup
  · intro hmem
    have hsome : (m.get k).isSome = true :=
      SortedMap.lookup_isSome_iff.mpr (List.mem_map_of_mem hmem)
    obtain ⟨w, hw⟩ := Option.isSome_iff_exists.mp hsome
    have hw' := SortedMap.mem_of_lookup hw
    have heq := List.inj_on_of_nodup_map m.nodup hw' hmem rfl
    rw [hw, (Prod.mk.inj heq).2]

omit lt [DecidableRel lt] [IsTrans K lt] [Std.Trichotomous lt] [Std.Irrefl lt] in
theorem get_eq_of_same {m m' : IndexMap K V} (h : m.Same m') (k : K) : m.get k = m'.get k := by
  apply Option.ext
  intro v
  rw [get_eq_some, get_eq_some]
  exact h.mem_iff

omit lt [DecidableRel lt] [IsTrans K lt] [Std.Trichotomous lt] [Std.Irrefl lt] in
/-- Going through the entries for those of one key finds its value. -/
theorem flatMap_key {W : Type} (m : IndexMap K V) (k : K) (f : V → List W) :
    (m.entries.flatMap fun e => if e.1 = k then f e.2 else []) = ((m.get k).map f).getD [] := by
  have hlist : ∀ l : List (K × V), (l.map (·.1)).Nodup →
      (l.flatMap fun e => if e.1 = k then f e.2 else []) =
        ((SortedMap.lookup k l).map f).getD [] := by
    intro l hnodup
    induction l with
    | nil => rfl
    | cons e l ih =>
      obtain ⟨hnot, hnodup⟩ := List.nodup_cons.mp hnodup
      rw [List.flatMap_cons, SortedMap.lookup_cons, ih hnodup]
      split_ifs with hkey
      · have hnone : SortedMap.lookup k l = none := by
          by_contra hsome
          obtain ⟨v, hv⟩ := Option.ne_none_iff_exists'.mp hsome
          exact hnot (List.mem_map.mpr ⟨(k, v), SortedMap.mem_of_lookup hv, hkey.symm⟩)
        rw [hnone]
        exact List.append_nil _
      · rfl
  exact hlist m.entries m.nodup

end IndexMap

end Astria.Lib
