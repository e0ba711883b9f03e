import Mathlib.Data.Set.Card
import Mathlib.Logic.Function.Basic

/-!
# Registries of numbered keys

A registry gives keys their ids and stores both directions.  Ids are handed out in ascending
order, from a counter that is kept next to the registry together with the number of keys.

Results:
* `Numbers.assign`, `Numbers.release`: a registry under its two counters stays one when a new key
  gets an unused id and when a key gives its id back;
* `Numbers.assign_self`: writing a key under its own id again changes nothing;
* `Succeeds`: an id that was handed out before is never given to another key afterwards;
  `Succeeds.key_eq` reads that off two registries of one history.
-/

namespace Astria.Lib

/-- Both directions of the ids of keys. -/
@[ext] structure IdRegistry (κ : Type) where
  toId : κ → Option ℕ
  toKey : ℕ → Option κ

namespace IdRegistry

variable {κ : Type}

def empty : IdRegistry κ := { toId := fun _ => none, toKey := fun _ => none }

/-- The registered keys. -/
def keys (r : IdRegistry κ) : Set κ := {k | (r.toId k).isSome}

@[simp] theorem mem_keys {r : IdRegistry κ} {k : κ} : k ∈ r.keys ↔ (r.toId k).isSome := Iff.rfl

/-- The registry holds `count` keys, both directions agree, and every id is below `next`. -/
structure Numbers (r : IdRegistry κ) (count next : ℕ) : Prop where
  inverse : ∀ k i, r.toId k = some i ↔ r.toKey i = some k
  below : ∀ k i, r.toId k = some i → i < next
  count : r.keys.encard = count

theorem numbers_empty (next : ℕ) : (empty : IdRegistry κ).Numbers 0 next := by
  refine ⟨fun k i => ?_, fun k i h => ?_, ?_⟩
  · simp [empty]
  · cases h
  · simp [keys, empty]

theorem Numbers.mono {r : IdRegistry κ} {count next next' : ℕ} (h : r.Numbers count next)
    (hle : next ≤ next') : r.Numbers count next' :=
  ⟨h.inverse, fun k i hi => lt_of_lt_of_le (h.below k i hi) hle, h.count⟩

/-- No id from the counter on is in use. -/
theorem Numbers.toKey_eq_none {r : IdRegistry κ} {count next i : ℕ} (h : r.Numbers count next)
    (hi : next ≤ i) : r.toKey i = none := by
  by_contra hne
  obtain ⟨k, hk⟩ := Option.ne_none_iff_exists'.mp hne
  have := h.below k i ((h.inverse k i).mpr hk)
  omega

variable [DecidableEq κ]

def assign (k : κ) (i : ℕ) (r : IdRegistry κ) : IdRegistry κ :=
  { toId := Function.update r.toId k (some i), toKey := Function.update r.toKey i (some k) }

def release (k : κ) (i : ℕ) (r : IdRegistry κ) : IdRegistry κ :=
  { toId := Function.update r.toId k none, toKey := Function.update r.toKey i none }

theorem keys_assign (k : κ) (i : ℕ) (r : IdRegistry κ) : (r.assign k i).keys = insert k r.keys := by
  ext k'
  by_cases h : k' = k <;> simp [assign, keys, h]

theorem keys_release (k : κ) (i : ℕ) (r : IdRegistry κ) : (r.release k i).keys = r.keys \ {k} := by
  ext k'
  by_cases h : k' = k <;> simp [release, keys, h]

/-- A new key gets an id that is not in use. -/
theorem Numbers.assign {r : IdRegistry κ} {count next next' i : ℕ} {k : κ}
    (h : r.Numbers count next) (hk : r.toId k = none) (hi : r.toKey i = none) (hlt : i < next')
    (hle : next ≤ next') : (r.assign k i).Numbers (count + 1) next' := by
  refine ⟨fun k' i' => ?_, fun k' i' h' => ?_, ?_⟩
  · have hinv := h.inverse k' i'
    by_cases hkk : k' = k <;> by_cases hii : i' = i
    · simp [IdRegistry.assign, hkk, hii]
    · subst hkk
      rw [hk] at hinv
      simpa [IdRegistry.assign, hii, Ne.symm hii] using hinv
    · subst hii
      rw [hi] at hinv
      simpa [IdRegistry.assign, hkk, Ne.symm hkk] using hinv
    · simpa [IdRegistry.assign, hkk, hii] using hinv
  · by_cases hkk : k' = k
    · have : i = i' := by simpa [IdRegistry.assign, hkk] using h'
      omega
    · have := h.below k' i' (by simpa [IdRegistry.assign, hkk] using h')
      omega
  · have hnot : k ∉ r.keys := by simp [hk]
    rw [keys_assign, Set.encard_insert_of_notMem hnot, h.count]
    norm_cast

/-- A key that has the id already changes nothing. -/
theorem Numbers.assign_self {r : IdRegistry κ} {count next i : ℕ} {k : κ}
    (h : r.Numbers count next) (hk : r.toId k = some i) : r.assign k i = r := by
  have hi := (h.inverse k i).mp hk
  ext1
  · exact Function.update_eq_self_iff.mpr hk.symm
  · exact Function.update_eq_self_iff.mpr hi.symm

/-- A key gives its id back. -/
theorem Numbers.release {r : IdRegistry κ} {count next i : ℕ} {k : κ}
    (h : r.Numbers count next) (hk : r.toId k = some i) :
    1 ≤ count ∧ (r.release k i).Numbers (count - 1) next := by
  have hmem : k ∈ r.keys := by simp [hk]
  have hcard : (r.keys \ {k}).encard + 1 = count := by
    rw [Set.encard_sdiff_singleton_add_one hmem, h.count]
  have hpos : 1 ≤ count := by
    by_contra hzero
    have : count = 0 := by omega
    subst this
    simp at hcard
  refine ⟨hpos, fun k' i' => ?_, fun k' i' h' => ?_, ?_⟩
  · have hinv := h.inverse k' i'
    by_cases hkk : k' = k
    · subst hkk
      by_cases hii : i' = i
      · simp [IdRegistry.release, hii]
      · rw [hk] at hinv
        simpa [IdRegistry.release, hii, Ne.symm hii] using hinv
    · by_cases hii : i' = i
      · subst hii
        rw [(h.inverse k i').mp hk] at hinv
        simpa [IdRegistry.release, hkk, Ne.symm hkk] using hinv
      · simpa [IdRegistry.release, hkk, hii] using hinv
  · by_cases hkk : k' = k
    · simp [IdRegistry.release, hkk] at h'
    · exact h.below k' i' (by simpa [IdRegistry.release, hkk] using h')
  · have hcast : ((count - 1 : ℕ) : ℕ∞) + 1 = count := by
      norm_cast
      omega
    rw [keys_release]
    exact (ENat.add_left_injective_of_ne_top (by simp)) (hcard.trans hcast.symm)

/-! ## Histories -/

/-- What lies between two registries of one history, each with its counter: the counter has not
gone down, and no id that was below it has been given to a key since. -/
structure Succeeds (r : IdRegistry κ) (next : ℕ) (r' : IdRegistry κ) (next' : ℕ) : Prop where
  next_le : next ≤ next'
  kept : ∀ i k, i < next → r'.toKey i = some k → r.toKey i = some k

omit [DecidableEq κ] in
theorem Succeeds.refl (r : IdRegistry κ) (next : ℕ) : r.Succeeds next r next :=
  ⟨le_refl _, fun _ _ _ h => h⟩

omit [DecidableEq κ] in
theorem Succeeds.trans {r r' r'' : IdRegistry κ} {next next' next'' : ℕ}
    (h : r.Succeeds next r' next') (h' : r'.Succeeds next' r'' next'') :
    r.Succeeds next r'' next'' :=
  ⟨h.next_le.trans h'.next_le, fun i k hi hk =>
    h.kept i k hi (h'.kept i k (lt_of_lt_of_le hi h.next_le) hk)⟩

/-- The next id is handed out. -/
theorem succeeds_assign (r : IdRegistry κ) (k : κ) (next : ℕ) :
    r.Succeeds next (r.assign k next) (next + 1) := by
  refine ⟨Nat.le_succ _, fun i k' hi hk' => ?_⟩
  have hne : i ≠ next := by omega
  simpa [assign, hne] using hk'

theorem succeeds_release (r : IdRegistry κ) (k : κ) (i next : ℕ) :
    r.Succeeds next (r.release k i) next := by
  refine ⟨le_refl _, fun i' k' _ hk' => ?_⟩
  by_cases hii : i' = i
  · simp [release, hii] at hk'
  · simpa [release, hii] using hk'

omit [DecidableEq κ] in
/-- An id belongs to one key in a whole history. -/
theorem Succeeds.key_eq {r r' : IdRegistry κ} {count next next' i : ℕ} {k k' : κ}
    (h : r.Succeeds next r' next') (hr : r.Numbers count next) (hk : r.toKey i = some k)
    (hk' : r'.toKey i = some k') : k = k' := by
  have hlt := hr.below k i ((hr.inverse k i).mpr hk)
  have := h.kept i k' hlt hk'
  exact Option.some.inj (hk.symm.trans this)

end IdRegistry

end Astria.Lib
