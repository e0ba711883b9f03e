import Astria.Lib.SortedMap
import Astria.Sequencer.Genesis

/-!
# Validator sets

The validators by ascending address (`authority/mod.rs`, `ValidatorSet`), what a list of updates does
to them, and how CometBFT applies the same updates to its own set.

Results:
* `withoutNames_applyUpdates`: names have no part in what updates do;
* `get_applyUpdates`: applying the updates of a block is applying them as one patch;
* `get_newFromUpdates`: of several updates of one validator only the last stands;
* `CometbftValidators.applyUpdates_toCometbft`, `CometbftValidators.accepts_toCometbft`: CometBFT
  arrives at the same validators, and accepts the updates if every removal is that of a member.
-/

namespace Astria.Core

/-! ## One update -/

/-- The address of the validator that an update names. -/
def ValidatorUpdate.address [Sequencer.External] (u : ValidatorUpdate) : AddressBytes :=
  addressBytes u.verificationKey

/-- What an update leaves of its validator. -/
def ValidatorUpdate.kept (u : ValidatorUpdate) : Option ValidatorUpdate :=
  if u.power = 0 then none else some u

theorem ValidatorUpdate.kept_eq_none {u : ValidatorUpdate} : u.kept = none ↔ u.power = 0 := by
  unfold kept
  split_ifs with h <;> simp [h]

theorem ValidatorUpdate.kept_eq_some {u v : ValidatorUpdate} :
    u.kept = some v ↔ u.power ≠ 0 ∧ u = v := by
  unfold kept
  split_ifs with h <;> simp [h]

end Astria.Core

namespace Astria.Sequencer

open Astria.Core Astria.Lib

/-! ## The order of addresses -/

/-- The order of the keys of a `BTreeMap`. -/
def addressLt (a b : AddressBytes) : Prop := a.toList < b.toList

instance : DecidableRel addressLt := fun a b => inferInstanceAs (Decidable (a.toList < b.toList))

instance : Std.Irrefl addressLt where
  irrefl a := List.lt_irrefl a.toList

instance : IsTrans AddressBytes addressLt where
  trans _ _ _ hab hbc := List.lt_trans hab hbc

instance : Std.Trichotomous addressLt where
  trichotomous a b hab hba := by
    have htri : Std.Trichotomous (fun l l' : List UInt8 => l < l') := inferInstance
    exact List.Vector.toList_injective (htri.trichotomous _ _ hab hba)

section

variable [ext : External]

namespace ValidatorSet

omit ext in
theorem insertInto_eq (a : AddressBytes) (u : ValidatorUpdate)
    (l : List (AddressBytes × ValidatorUpdate)) :
    insertInto a u l = SortedMap.insert addressLt a u l := by
  induction l with
  | nil => rfl
  | cons e l ih =>
    obtain ⟨b, v⟩ := e
    rw [insertInto, SortedMap.insert, ih]
    rfl

/-- The keys ascend, and every validator is under its own address. -/
structure WellFormed (set : ValidatorSet) : Prop where
  sorted : SortedMap.Sorted addressLt set.inner
  keyed : ∀ e ∈ set.inner, e.1 = e.2.address

variable {set updates : ValidatorSet} {u : ValidatorUpdate} {a : AddressBytes}

theorem wellFormed_empty : WellFormed ⟨[]⟩ := ⟨SortedMap.Sorted.nil, fun _ he => by cases he⟩

theorem WellFormed.insert (h : set.WellFormed) (u : ValidatorUpdate) : (set.insert u).WellFormed where
  sorted := by
    unfold ValidatorSet.insert
    rw [insertInto_eq]
    exact h.sorted.insert _ _
  keyed e he := by
    unfold ValidatorSet.insert at he
    rw [insertInto_eq] at he
    rcases SortedMap.mem_of_mem_insert addressLt he with rfl | he
    · rfl
    · exact h.keyed e he

theorem WellFormed.remove (h : set.WellFormed) (a : AddressBytes) : (set.remove a).WellFormed where
  sorted := h.sorted.erase a
  keyed e he := h.keyed e (List.mem_of_mem_filter he)

theorem WellFormed.get_eq_some (h : set.WellFormed) :
    set.get a = some u ↔ (a, u) ∈ set.inner := h.sorted.lookup_eq_some

theorem WellFormed.address_of_get (h : set.WellFormed) (hu : set.get a = some u) : u.address = a :=
  (h.keyed _ (h.get_eq_some.mp hu)).symm

omit ext in
theorem get_isSome : (set.get a).isSome = true ↔ a ∈ set.inner.map (·.1) :=
  SortedMap.lookup_isSome_iff

theorem get_insert (set : ValidatorSet) (u : ValidatorUpdate) :
    (set.insert u).get = Function.update set.get u.address (some u) := by
  funext a
  rw [Function.update_apply]
  show SortedMap.lookup a (insertInto u.address u set.inner) = _
  rw [insertInto_eq, SortedMap.lookup_insert]
  rfl

theorem inner_insert_ne_nil (set : ValidatorSet) (u : ValidatorUpdate) :
    (set.insert u).inner ≠ [] := by
  have hget : (set.insert u).get u.address = some u := by rw [get_insert, Function.update_self]
  exact List.ne_nil_of_mem (SortedMap.mem_of_lookup hget)

omit ext in
theorem get_remove (set : ValidatorSet) (a : AddressBytes) :
    (set.remove a).get = Function.update set.get a none := by
  funext b
  rw [Function.update_apply]
  exact SortedMap.lookup_erase a b set.inner

theorem WellFormed.length_insert (h : set.WellFormed) (u : ValidatorUpdate) :
    (set.insert u).inner.length =
      if (set.get u.address).isSome then set.inner.length else set.inner.length + 1 := by
  unfold ValidatorSet.insert
  rw [insertInto_eq]
  exact h.sorted.length_insert _ _

theorem WellFormed.length_remove (h : set.WellFormed) (a : AddressBytes) :
    (set.remove a).inner.length =
      if (set.get a).isSome then set.inner.length - 1 else set.inner.length :=
  h.sorted.length_erase a

theorem newFromUpdates_append (us : List ValidatorUpdate) (u : ValidatorUpdate) :
    newFromUpdates (us ++ [u]) = (newFromUpdates us).insert u := by
  unfold newFromUpdates
  rw [List.foldl_append]
  rfl

/-! ## Names -/

omit ext in
@[simp] theorem withoutNames_withoutNames (set : ValidatorSet) :
    set.withoutNames.withoutNames = set.withoutNames := by
  unfold withoutNames
  rw [List.map_map]
  rfl

omit ext in
theorem get_withoutNames (set : ValidatorSet) (a : AddressBytes) :
    set.withoutNames.get a = (set.get a).map withoutName :=
  SortedMap.lookup_mapValues withoutName a set.inner

omit ext in
theorem length_withoutNames (set : ValidatorSet) :
    set.withoutNames.inner.length = set.inner.length := List.length_map _

omit ext in
theorem toCometbft_withoutNames (set : ValidatorSet) :
    set.withoutNames.toCometbft = set.toCometbft := List.map_map

theorem WellFormed.withoutNames (h : set.WellFormed) : set.withoutNames.WellFormed where
  sorted := List.Pairwise.map _ (fun _ _ hlt => hlt) h.sorted
  keyed e he := by
    obtain ⟨d, hd, rfl⟩ := List.mem_map.mp he
    exact h.keyed d hd

omit ext in
theorem withoutNames_remove (set : ValidatorSet) (a : AddressBytes) :
    (set.remove a).withoutNames = set.withoutNames.remove a :=
  congrArg ValidatorSet.mk (SortedMap.mapValues_erase withoutName a set.inner)

theorem withoutNames_insert (set : ValidatorSet) (u : ValidatorUpdate) :
    (set.insert u).withoutNames = set.withoutNames.insert (withoutName u) := by
  unfold ValidatorSet.insert
  rw [insertInto_eq, insertInto_eq]
  exact congrArg ValidatorSet.mk
    (SortedMap.mapValues_insert addressLt withoutName u.address u set.inner)

omit ext in
/-- The names of a set and of its updates have no part in what the updates do. -/
theorem withoutNames_applyUpdates (set updates : ValidatorSet) :
    (set.applyUpdates updates).withoutNames = set.withoutNames.applyUpdates updates.withoutNames := by
  obtain ⟨l⟩ := updates
  induction l generalizing set with
  | nil => rfl
  | cons e l ih =>
    have hentry : SortedMap.mapValues withoutName
        (if e.2.power = 0 then SortedMap.erase e.1 set.inner else insertInto e.1 e.2 set.inner) =
          if e.2.power = 0 then SortedMap.erase e.1 set.withoutNames.inner
            else insertInto e.1 (withoutName e.2) set.withoutNames.inner := by
      rw [insertInto_eq, insertInto_eq]
      split_ifs
      · exact SortedMap.mapValues_erase _ _ _
      · exact SortedMap.mapValues_insert addressLt _ _ _ _
    refine (ih ⟨if e.2.power = 0 then SortedMap.erase e.1 set.inner
      else insertInto e.1 e.2 set.inner⟩).trans ?_
    exact congrArg (fun l' => ValidatorSet.applyUpdates ⟨l'⟩ (ValidatorSet.withoutNames ⟨l⟩)) hentry

theorem withoutNames_newFromUpdates_append (us : List ValidatorUpdate) (u : ValidatorUpdate) :
    ((newFromUpdates us).withoutNames.insert u).withoutNames =
      (newFromUpdates (us ++ [u])).withoutNames := by
  rw [withoutNames_insert, withoutNames_withoutNames, ← withoutNames_insert, newFromUpdates_append]

/-! ## Updates as a patch -/

/-- What a set of updates does to every address. -/
def patch (updates : ValidatorSet) : Patch AddressBytes ValidatorUpdate :=
  fun a => (updates.get a).map ValidatorUpdate.kept

theorem patch_insert (updates : ValidatorSet) (u : ValidatorUpdate) :
    (updates.insert u).patch = Function.update updates.patch u.address (some u.kept) := by
  funext a
  unfold patch
  rw [get_insert]
  by_cases ha : a = u.address
  · rw [ha, Function.update_self, Function.update_self, Option.map_some]
  · rw [Function.update_of_ne ha, Function.update_of_ne ha]

omit ext in
theorem patch_eq_some {o : Option ValidatorUpdate} :
    updates.patch a = some o ↔ ∃ u, updates.get a = some u ∧ u.kept = o := Option.map_eq_some_iff

omit ext in
/-- Applying a list of entries one by one to a set is updating the function that reads it. -/
theorem applyUpdates_aux (set : ValidatorSet) (l : List (AddressBytes × ValidatorUpdate)) :
    (set.applyUpdates ⟨l⟩).get =
      l.foldl (fun m e => Function.update m e.1 e.2.kept) set.get := by
  induction l generalizing set with
  | nil => rfl
  | cons e l ih =>
    have hstep : set.applyUpdates ⟨e :: l⟩ =
        ValidatorSet.applyUpdates
          ⟨if e.2.power = 0 then SortedMap.erase e.1 set.inner
            else insertInto e.1 e.2 set.inner⟩ ⟨l⟩ := rfl
    rw [hstep, ih, List.foldl_cons]
    congr 1
    funext a
    rw [Function.update_apply]
    by_cases hpower : e.2.power = 0
    · rw [if_pos hpower, ValidatorUpdate.kept_eq_none.mpr hpower]
      exact SortedMap.lookup_erase _ _ _
    · rw [if_neg hpower, ValidatorUpdate.kept_eq_some.mpr ⟨hpower, rfl⟩, insertInto_eq]
      exact SortedMap.lookup_insert _ _ _ _ _

/-- Applying the updates of a block is applying them as one patch. -/
theorem get_applyUpdates (set : ValidatorSet) (h : updates.WellFormed) :
    (set.applyUpdates updates).get = updates.patch.apply set.get := by
  obtain ⟨l⟩ := updates
  rw [applyUpdates_aux]
  exact h.sorted.foldl_update ValidatorUpdate.kept set.get

theorem WellFormed.applyUpdates (h : set.WellFormed) (hupdates : updates.WellFormed) :
    (set.applyUpdates updates).WellFormed := by
  obtain ⟨l⟩ := updates
  have hkeyed := hupdates.keyed
  clear hupdates
  induction l generalizing set with
  | nil => exact h
  | cons e l ih =>
    have hrest := fun d hd => hkeyed d (List.mem_cons_of_mem _ hd)
    have he : e.1 = e.2.address := hkeyed e (List.mem_cons_self ..)
    show ValidatorSet.WellFormed (ValidatorSet.applyUpdates
      ⟨if e.2.power = 0 then SortedMap.erase e.1 set.inner else insertInto e.1 e.2 set.inner⟩ ⟨l⟩)
    refine ih ?_ hrest
    by_cases hpower : e.2.power = 0
    · rw [if_pos hpower]
      exact h.remove e.1
    · rw [if_neg hpower, he]
      exact h.insert e.2

/-! ## The updates that stand -/

theorem wellFormed_foldl_insert (us : List ValidatorUpdate) (h : set.WellFormed) :
    (us.foldl ValidatorSet.insert set).WellFormed := by
  induction us generalizing set with
  | nil => exact h
  | cons u us ih => exact ih (h.insert u)

theorem wellFormed_newFromUpdates (us : List ValidatorUpdate) : (newFromUpdates us).WellFormed :=
  wellFormed_foldl_insert us wellFormed_empty

end ValidatorSet

section

variable {m m' : AddressBytes → Option ValidatorUpdate}

omit ext in
/-- The same validators, but for their names. -/
def AgreeButNames (m m' : AddressBytes → Option ValidatorUpdate) : Prop :=
  ∀ a, (m a).map withoutName = (m' a).map withoutName

namespace AgreeButNames

omit ext in
theorem of_withoutNames (set : ValidatorSet) : AgreeButNames set.withoutNames.get set.get := by
  intro a
  rw [ValidatorSet.get_withoutNames, Option.map_map]
  rfl

omit ext in
theorem isSome_eq (h : AgreeButNames m m') (a : AddressBytes) : (m a).isSome = (m' a).isSome := by
  have hsome := congrArg Option.isSome (h a)
  rwa [Option.isSome_map, Option.isSome_map] at hsome

omit ext in
theorem update (h : AgreeButNames m m') (a : AddressBytes) (o : Option ValidatorUpdate) :
    AgreeButNames (Function.update m a o) (Function.update m' a o) := by
  intro b
  rw [Function.update_apply, Function.update_apply]
  split_ifs
  · rfl
  · exact h b

end AgreeButNames

end

/-- The updates of a list that no later one of the same validator replaces. -/
def standing : List ValidatorUpdate → List ValidatorUpdate
  | [] => []
  | u :: us => if ∃ v ∈ us, v.address = u.address then standing us else u :: standing us

section

variable {us : List ValidatorUpdate} {u : ValidatorUpdate} {a : AddressBytes}

theorem mem_of_mem_standing (h : u ∈ standing us) : u ∈ us := by
  induction us with
  | nil => cases h
  | cons v us ih =>
    rw [standing] at h
    split_ifs at h with hlater
    · exact List.mem_cons_of_mem _ (ih h)
    · rcases List.mem_cons.mp h with rfl | h
      · exact List.mem_cons_self ..
      · exact List.mem_cons_of_mem _ (ih h)

/-- No two standing updates name the same validator. -/
theorem nodup_standing (us : List ValidatorUpdate) :
    ((standing us).map ValidatorUpdate.address).Nodup := by
  induction us with
  | nil => exact List.nodup_nil
  | cons u us ih =>
    rw [standing]
    split_ifs with hlater
    · exact ih
    · rw [List.map_cons, List.nodup_cons]
      refine ⟨?_, ih⟩
      intro hmem
      obtain ⟨v, hv, heq⟩ := List.mem_map.mp hmem
      exact hlater ⟨v, mem_of_mem_standing hv, heq⟩

/-- Every validator that is named has a standing update. -/
theorem exists_standing (h : u ∈ us) : ∃ v ∈ standing us, v.address = u.address := by
  induction us generalizing u with
  | nil => cases h
  | cons w us ih =>
    rw [standing]
    split_ifs with hlater
    · rcases List.mem_cons.mp h with rfl | h
      · obtain ⟨v, hv, heq⟩ := hlater
        obtain ⟨v', hv', heq'⟩ := ih hv
        exact ⟨v', hv', heq'.trans heq⟩
      · exact ih h
    · rcases List.mem_cons.mp h with rfl | h
      · exact ⟨u, List.mem_cons_self .., rfl⟩
      · obtain ⟨v, hv, heq⟩ := ih h
        exact ⟨v, List.mem_cons_of_mem _ hv, heq⟩

namespace ValidatorSet

theorem get_foldl_insert (us : List ValidatorUpdate) (set : ValidatorSet) :
    (us.foldl ValidatorSet.insert set).get a = some u ↔
      u ∈ standing us ∧ u.address = a ∨ (∀ v ∈ us, v.address ≠ a) ∧ set.get a = some u := by
  induction us generalizing set with
  | nil => simp [standing]
  | cons w us ih =>
    rw [List.foldl_cons, ih, get_insert, standing]
    by_cases hw : a = w.address
    · rw [hw, Function.update_self]
      by_cases hlater : ∃ v ∈ us, v.address = w.address
      · obtain ⟨v, hv, heq⟩ := hlater
        have hnone : ¬∀ v ∈ us, v.address ≠ w.address := fun h => h v hv heq
        have hnone' : ¬∀ v ∈ w :: us, v.address ≠ w.address :=
          fun h => h w (List.mem_cons_self ..) rfl
        rw [if_pos ⟨v, hv, heq⟩]
        simp only [hnone, hnone', false_and]
      · have hall : ∀ v ∈ us, v.address ≠ w.address := fun v hv heq => hlater ⟨v, hv, heq⟩
        have hnone' : ¬∀ v ∈ w :: us, v.address ≠ w.address :=
          fun h => h w (List.mem_cons_self ..) rfl
        rw [if_neg hlater]
        simp only [hnone', false_and, or_false, Option.some.injEq]
        constructor
        · rintro (⟨hu, heq⟩ | ⟨-, rfl⟩)
          · exact absurd heq (hall u (mem_of_mem_standing hu))
          · exact ⟨List.mem_cons_self .., rfl⟩
        · rintro ⟨hu, heq⟩
          rcases List.mem_cons.mp hu with rfl | hu
          · exact Or.inr ⟨hall, rfl⟩
          · exact absurd heq (hall u (mem_of_mem_standing hu))
    · rw [Function.update_of_ne hw, List.forall_mem_cons]
      have hmem : u.address = a → (u ∈ (if ∃ v ∈ us, v.address = w.address then standing us
          else w :: standing us) ↔ u ∈ standing us) := by
        intro hu
        split_ifs with hlater
        · rfl
        · rw [List.mem_cons]
          refine or_iff_right ?_
          rintro rfl
          exact hw hu.symm
      constructor
      · rintro (⟨hu, heq⟩ | ⟨hall, hget⟩)
        · exact Or.inl ⟨(hmem heq).mpr hu, heq⟩
        · exact Or.inr ⟨⟨Ne.symm hw, hall⟩, hget⟩
      · rintro (⟨hu, heq⟩ | ⟨⟨-, hall⟩, hget⟩)
        · exact Or.inl ⟨(hmem heq).mp hu, heq⟩
        · exact Or.inr ⟨hall, hget⟩

/-- Of several updates of one validator only the last stands. -/
theorem get_newFromUpdates :
    (newFromUpdates us).get a = some u ↔ u ∈ standing us ∧ u.address = a := by
  unfold newFromUpdates
  rw [get_foldl_insert]
  have hnone : (⟨[]⟩ : ValidatorSet).get a = none := rfl
  rw [hnone]
  simp

/-- What a list of updates does to an address, in terms of those that stand. -/
theorem patch_newFromUpdates {o : Option ValidatorUpdate} :
    (newFromUpdates us).patch a = some o ↔
      ∃ u ∈ standing us, u.address = a ∧ u.kept = o := by
  rw [patch_eq_some]
  simp only [get_newFromUpdates, and_assoc]

end ValidatorSet

end

/-! ## CometBFT's rules -/

/-- The validators of CometBFT, by address. -/
abbrev CometbftValidators := AddressBytes → Option CometbftValidatorUpdate

/-- The address of the validator that an update names. -/
def CometbftValidatorUpdate.address (u : CometbftValidatorUpdate) : AddressBytes :=
  addressBytes u.pubKey

omit ext in
/-- The form of a validator that CometBFT knows. -/
def toCometbftUpdate (u : ValidatorUpdate) : CometbftValidatorUpdate :=
  { pubKey := u.verificationKey, power := u.power }

omit ext in
/-- The validators of a store as CometBFT knows them. -/
def cometbftValidators (m : AddressBytes → Option ValidatorUpdate) : CometbftValidators :=
  fun a => (m a).map toCometbftUpdate

omit ext in
/-- CometBFT knows no names. -/
theorem AgreeButNames.cometbftValidators_eq {m m' : AddressBytes → Option ValidatorUpdate}
    (h : AgreeButNames m m') : cometbftValidators m = cometbftValidators m' := by
  funext a
  have hsame := congrArg (Option.map toCometbftUpdate) (h a)
  rwa [Option.map_map, Option.map_map] at hsame

namespace CometbftValidators

/-- One update: a power of zero removes the validator. -/
def applyUpdate (m : CometbftValidators) (u : CometbftValidatorUpdate) : CometbftValidators :=
  Function.update m u.address (if u.power = 0 then none else some u)

/-- The updates of a block. -/
def applyUpdates (m : CometbftValidators) (us : List CometbftValidatorUpdate) : CometbftValidators :=
  us.foldl applyUpdate m

/-- The updates that CometBFT accepts: no validator is named twice, and only a member is removed. -/
structure Accepts (m : CometbftValidators) (us : List CometbftValidatorUpdate) : Prop where
  nodup : (us.map CometbftValidatorUpdate.address).Nodup
  member : ∀ u ∈ us, u.power = 0 → (m u.address).isSome = true

variable {m : AddressBytes → Option ValidatorUpdate} {updates : ValidatorSet}

/-- CometBFT arrives at the validators that the updates leave. -/
theorem applyUpdates_toCometbft (h : updates.WellFormed) :
    applyUpdates (cometbftValidators m) updates.toCometbft =
      cometbftValidators (updates.patch.apply m) := by
  have hfold : applyUpdates (cometbftValidators m) updates.toCometbft =
      updates.inner.foldl
        (fun m e => Function.update m e.1 (e.2.kept.map toCometbftUpdate)) (cometbftValidators m) := by
    unfold applyUpdates ValidatorSet.toCometbft
    rw [List.foldl_map]
    refine List.foldl_ext _ _ _ ?_
    intro m e he
    unfold applyUpdate
    rw [h.keyed e he]
    congr 1
    unfold ValidatorUpdate.kept
    show (if e.2.power = 0 then _ else _) = _
    split_ifs <;> rfl
  rw [hfold, h.sorted.foldl_update fun u => u.kept.map toCometbftUpdate]
  funext a
  show ((SortedMap.lookup a updates.inner).map _).getD _ =
    Option.map toCometbftUpdate (((SortedMap.lookup a updates.inner).map _).getD _)
  cases SortedMap.lookup a updates.inner <;> rfl

/-- CometBFT accepts the updates exactly if each removal is that of a member. -/
theorem accepts_toCometbft (h : updates.WellFormed) :
    Accepts (cometbftValidators m) updates.toCometbft ↔ updates.patch.Legal m := by
  have haddress : updates.toCometbft.map CometbftValidatorUpdate.address = updates.inner.map (·.1) := by
    unfold ValidatorSet.toCometbft
    rw [List.map_map]
    refine List.map_congr_left ?_
    intro e he
    exact (h.keyed e he).symm
  constructor
  · rintro ⟨-, hmember⟩ a ha
    obtain ⟨u, hu, hkept⟩ := ValidatorSet.patch_eq_some.mp ha
    have hmem := h.get_eq_some.mp hu
    have hsome := hmember (toCometbftUpdate u) (List.mem_map.mpr ⟨_, hmem, rfl⟩)
      (ValidatorUpdate.kept_eq_none.mp hkept)
    have haddress : (toCometbftUpdate u).address = a := h.address_of_get hu
    rw [haddress] at hsome
    unfold cometbftValidators at hsome
    rwa [Option.isSome_map] at hsome
  · intro hlegal
    refine ⟨?_, ?_⟩
    · rw [haddress]
      exact h.sorted.nodup
    · intro u hu hpower
      obtain ⟨e, he, rfl⟩ := List.mem_map.mp hu
      have hget : updates.get e.1 = some e.2 := h.get_eq_some.mpr he
      have hsome := hlegal e.1
        (ValidatorSet.patch_eq_some.mpr ⟨e.2, hget, ValidatorUpdate.kept_eq_none.mpr hpower⟩)
      have haddress : CometbftValidatorUpdate.address
          { pubKey := e.2.verificationKey, power := e.2.power } = e.1 := (h.keyed e he).symm
      rw [haddress]
      unfold cometbftValidators
      rwa [Option.isSome_map]

end CometbftValidators

end

end Astria.Sequencer
