import Astria.Sequencer.Run
import Astria.Sequencer.ValidatorSet

/-!
# The validators in a block

The stored validators from the start of a block to its end (`authority/component.rs`,
`impls/validator_update.rs`): before the Aspen upgrade one set, that the end of the block applies the
updates to; since then one key for each validator, that the actions write themselves, and a count.

Results:
* `ValidatorUpdate.checkAndExecute_executed`: everything that a validator update does;
* `InBlock.step`, `InBlock.transactions`: what every update, and every list of transactions, keeps;
* `BlockExecution.validators`: what a block does to the stored validators, and what it returns.
-/

namespace Astria.Sequencer

open Astria.Core Astria.Lib Exec

section

variable [ext : External]

/-! ## What else happens in a block -/

omit ext in
/-- The stored validators and the updates of the block are as they were. -/
structure Base.SameValidators (s s' : Base) : Prop where
  preAspen : s'.usePreAspenValidatorUpdates = s.usePreAspenValidatorUpdates
  set : s'.authority.preAspenValidatorSet = s.authority.preAspenValidatorSet
  validators : s'.authority.validators = s.authority.validators
  count : s'.nonverifiable.validatorCount = s.nonverifiable.validatorCount
  updates : s'.blockValidatorUpdates = s.blockValidatorUpdates

instance : IsPreorder Base Base.SameValidators where
  refl _ := ⟨rfl, rfl, rfl, rfl, rfl⟩
  trans _ _ _ h h' :=
    ⟨h'.preAspen.trans h.preAspen, h'.set.trans h.set, h'.validators.trans h.validators,
      h'.count.trans h.count, h'.updates.trans h.updates⟩

omit ext in
theorem settingsWrites_sameValidators : SettingsWrites Base.SameValidators := by
  constructor <;> intros <;> exact ⟨rfl, rfl, rfl, rfl, rfl⟩

theorem fundsWrites_sameValidators : FundsWrites Base.SameValidators := by
  constructor <;> intros <;> exact ⟨rfl, rfl, rfl, rfl, rfl⟩

omit ext in
theorem configWrites_sameValidators : ConfigWrites Base.SameValidators := by
  constructor <;> intros <;> exact ⟨rfl, rfl, rfl, rfl, rfl⟩

omit ext in
theorem transactionWrites_sameValidators : TransactionWrites Base.SameValidators := by
  constructor <;> intros <;> exact ⟨rfl, rfl, rfl, rfl, rfl⟩

/-- Only a validator update reaches the validators. -/
theorem Action.checkAndExecute_sameValidators {act : Action} {s s' : State} {u : Unit}
    (hkind : act.kind ≠ .validatorUpdate) (h : Action.checkAndExecute act s = .ok u s') :
    s.base.SameValidators s'.base := by
  cases hconfigures : ActionKind.configuresBridge act.kind with
  | false =>
    exact Action.checkAndExecute_keepsOther settingsWrites_sameValidators fundsWrites_sameValidators
      hconfigures hkind h
  | true => exact Action.checkAndExecute_keepsConfig configWrites_sameValidators hconfigures h

/-! ## One update -/

/-- The update is among those of the block. -/
def Base.addUpdate (act : ValidatorUpdate) (s : Base) : Base :=
  s.putBlockValidatorUpdates (s.blockValidatorUpdates.insert act)

/-- Everything that a validator update does. -/
inductive ValidatorUpdate.Executed (act : ValidatorUpdate) (s : Base) : Base → Prop
  | preAspen : s.usePreAspenValidatorUpdates = true →
      (act.power = 0 → ∃ set, s.authority.preAspenValidatorSet = some set ∧
        (set.get act.address).isSome = true) →
      Executed act s (s.addUpdate act)
  | removed {count : ℕ} : s.usePreAspenValidatorUpdates = false → act.power = 0 →
      s.nonverifiable.validatorCount = some count → 1 < count →
      (s.authority.validators act.address).isSome = true →
      Executed act s (((s.deleteValidator act.address).putValidatorCount (count - 1)).addUpdate act)
  | updated {count : ℕ} : s.usePreAspenValidatorUpdates = false → act.power ≠ 0 →
      s.nonverifiable.validatorCount = some count →
      (s.authority.validators act.address).isSome = true →
      Executed act s ((s.putValidator act).addUpdate act)
  | added {count : ℕ} : s.usePreAspenValidatorUpdates = false → act.power ≠ 0 →
      s.nonverifiable.validatorCount = some count →
      (s.authority.validators act.address).isSome = false →
      Executed act s
        (((s.putValidatorCount (saturatingAdd u64Max count 1)).putValidator act).addUpdate act)

omit ext in
/-- A validator that is there is removed. -/
theorem removeValidator_ok {a : AddressBytes} {s s' : Base} {removed : Bool}
    (h : removeValidator a s = .ok removed s') :
    removed = (s.authority.validators a).isSome ∧
      s' = if (s.authority.validators a).isSome then s.deleteValidator a else s := by
  simp only [removeValidator, bind_eq_ok, reads_eq_ok, and_assoc, exists_and_left,
    exists_eq_left] at h
  by_cases hsome : (s.authority.validators a).isSome = true
  · rw [if_pos hsome] at h ⊢
    simp only [bind_eq_ok, writes_eq_ok, pure_eq_ok] at h
    obtain ⟨_, _, rfl, rfl, rfl⟩ := h
    exact ⟨hsome.symm, rfl⟩
  · rw [if_neg hsome] at h ⊢
    obtain ⟨rfl, rfl⟩ := pure_eq_ok.mp h
    exact ⟨(Bool.eq_false_of_not_eq_true hsome).symm, rfl⟩

omit ext in
theorem Base.getValidatorCount_eq_ok {s : Base} {n : ℕ} :
    s.getValidatorCount = .ok n ↔ s.nonverifiable.validatorCount = some n := by
  unfold Base.getValidatorCount
  cases s.nonverifiable.validatorCount <;> simp

omit ext in
theorem Base.preAspenGetValidatorSet_eq_ok {s : Base} {set : ValidatorSet} :
    s.preAspenGetValidatorSet = .ok set ↔ s.authority.preAspenValidatorSet = some set := by
  unfold Base.preAspenGetValidatorSet
  cases s.authority.preAspenValidatorSet <;> simp

theorem addToBlockValidatorUpdates_eq_ok {act : ValidatorUpdate} {s s' : Base} {u : Unit} :
    addToBlockValidatorUpdates act s = .ok u s' ↔ s' = s.addUpdate act := by
  simp only [addToBlockValidatorUpdates, bind_eq_ok, reads_eq_ok, writes_eq_ok, and_assoc,
    exists_and_left, exists_eq_left]
  rfl

/-- A validator update that succeeds has done one of four things. -/
theorem ValidatorUpdate.checkAndExecute_executed {act : ValidatorUpdate} {s s' : Base} {u : Unit}
    (h : ValidatorUpdate.checkAndExecute act s = .ok u s') : ValidatorUpdate.Executed act s s' := by
  simp only [ValidatorUpdate.checkAndExecute, bind_eq_ok, reads_eq_ok, and_assoc, exists_and_left,
    exists_eq_left] at h
  obtain ⟨_, t, hsudo, h⟩ := h
  obtain rfl : s = t := (keeps_validateSignerIsSudo (R := Eq) _ _).of_ok hsudo
  by_cases hpre : s.usePreAspenValidatorUpdates = true
  · rw [if_pos hpre] at h
    simp only [bind_eq_ok, addToBlockValidatorUpdates_eq_ok] at h
    obtain ⟨_, t, hcheck, rfl⟩ := h
    obtain rfl : s = t := (preAspenCheckValidatorUpdate_keeps (R := Eq) act).of_ok hcheck
    refine .preAspen hpre ?_
    intro hpower
    unfold preAspenCheckValidatorUpdate at hcheck
    rw [if_pos hpower] at hcheck
    simp only [bind_eq_ok, mapErr_eq_ok, tryReads_eq_ok, ensure_eq_ok,
      Base.preAspenGetValidatorSet_eq_ok] at hcheck
    obtain ⟨set, _, ⟨hset, rfl⟩, _, _, ⟨hmember, rfl⟩, -⟩ := hcheck
    exact ⟨set, hset, hmember⟩
  · have hpost := Bool.eq_false_of_not_eq_true hpre
    rw [if_neg hpre] at h
    simp only [bind_eq_ok, mapErr_eq_ok, tryReads_eq_ok, Base.getValidatorCount_eq_ok, and_assoc,
      exists_and_left, exists_eq_left] at h
    obtain ⟨count, hcount, h⟩ := h
    by_cases hpower : act.power = 0
    · rw [if_pos hpower] at h
      simp only [removeExistingValidator, bind_eq_ok, mapErr_eq_ok, ensure_eq_ok, writes_eq_ok,
        addToBlockValidatorUpdates_eq_ok, and_assoc, exists_and_left, exists_eq_left,
        exists_const] at h
      obtain ⟨hlt, _, ⟨removed, t, hremove, hremoved, rfl⟩, rfl⟩ := h
      obtain ⟨rfl, rfl⟩ := removeValidator_ok hremove
      have hmember : (s.authority.validators act.address).isSome = true := hremoved
      have hdeleted : (if (s.authority.validators (addressBytes act.verificationKey)).isSome = true
          then s.deleteValidator (addressBytes act.verificationKey) else s) =
            s.deleteValidator act.address := if_pos hmember
      rw [hdeleted]
      exact .removed hpost hpower hcount hlt hmember
    · rw [if_neg hpower] at h
      simp only [addOrUpdateValidator, bind_eq_ok, reads_eq_ok, addToBlockValidatorUpdates_eq_ok,
        and_assoc, exists_and_left, exists_eq_left] at h
      obtain ⟨_, t, h, rfl⟩ := h
      by_cases hmember : (s.authority.validators act.address).isSome = true
      · have hmember' : (s.authority.validators (addressBytes act.verificationKey)).isSome = true :=
          hmember
        rw [if_pos hmember'] at h
        rw [writes_eq_ok.mp h]
        exact .updated hpost hpower hcount hmember
      · have hmember' : ¬(s.authority.validators (addressBytes act.verificationKey)).isSome = true :=
          hmember
        rw [if_neg hmember'] at h
        simp only [bind_eq_ok, writes_eq_ok, exists_eq_left, exists_const] at h
        rw [h]
        exact .added hpost hpower hcount (Bool.eq_false_of_not_eq_true hmember)

/-! ## The stored set -/

omit ext in
theorem Base.putValidatorCount_self {s : Base} {count : ℕ}
    (h : s.nonverifiable.validatorCount = some count) : s.putValidatorCount count = s := by
  unfold Base.putValidatorCount
  rw [← h]

omit ext in
/-- The store holds a set of validators, but for their names, in the layout of its time. -/
structure Base.Stores [External] (s : Base) (set : ValidatorSet) : Prop where
  wellFormed : set.WellFormed
  preAspen : s.usePreAspenValidatorUpdates = true →
    s.authority.preAspenValidatorSet = some set.withoutNames ∧ s.authority.validators = fun _ => none
  postAspen : s.usePreAspenValidatorUpdates = false →
    s.authority.preAspenValidatorSet = none ∧ AgreeButNames s.authority.validators set.get ∧
      ∃ count, s.nonverifiable.validatorCount = some count ∧ count ≤ set.inner.length

omit ext in
/-- Since the upgrade the count is that of all validators of a set. -/
def Base.CountsAll (s : Base) (set : ValidatorSet) : Prop :=
  s.usePreAspenValidatorUpdates = false → s.nonverifiable.validatorCount = some set.inner.length

omit ext in
theorem Base.CountsAll.congr {s s' : Base} {set : ValidatorSet} (h : s.CountsAll set)
    (hsame : s.SameValidators s') : s'.CountsAll set := by
  intro hpost
  rw [hsame.count]
  exact h (hsame.preAspen ▸ hpost)

namespace Base.Stores

variable {s s' : Base} {set : ValidatorSet} {act : ValidatorUpdate} {a : AddressBytes} {count : ℕ}

theorem congr (h : s.Stores set) (hsame : s.SameValidators s') : s'.Stores set where
  wellFormed := h.wellFormed
  preAspen hpre := by
    rw [hsame.set, hsame.validators]
    exact h.preAspen (hsame.preAspen ▸ hpre)
  postAspen hpost := by
    rw [hsame.set, hsame.validators, hsame.count]
    exact h.postAspen (hsame.preAspen ▸ hpost)

/-- Since the upgrade a validator is stored if it is in the set. -/
theorem isSome_eq (h : s.Stores set) (hpost : s.usePreAspenValidatorUpdates = false)
    (a : AddressBytes) : (s.authority.validators a).isSome = (set.get a).isSome :=
  (h.postAspen hpost).2.1.isSome_eq a

/-- The pending updates are no part of the stored set. -/
theorem addUpdate (h : s.Stores set) (act : ValidatorUpdate) : (s.addUpdate act).Stores set :=
  ⟨h.wellFormed, h.preAspen, h.postAspen⟩

/-- Removing a validator and counting it off. -/
theorem remove (h : s.Stores set) (hpost : s.usePreAspenValidatorUpdates = false)
    (hcount : s.nonverifiable.validatorCount = some count)
    (hmember : (s.authority.validators a).isSome = true) :
    ((s.deleteValidator a).putValidatorCount (count - 1)).Stores (set.remove a) := by
  obtain ⟨hset, hvalidators, n, hn, hle⟩ := h.postAspen hpost
  obtain rfl : count = n := Option.some.inj (hcount.symm.trans hn)
  refine ⟨h.wellFormed.remove a, fun hpre => ?_, fun _ => ⟨hset, ?_, count - 1, rfl, ?_⟩⟩
  · have hpre : s.usePreAspenValidatorUpdates = true := hpre
    rw [hpost] at hpre
    cases hpre
  · rw [ValidatorSet.get_remove]
    exact hvalidators.update a none
  · rw [h.isSome_eq hpost] at hmember
    rw [h.wellFormed.length_remove, if_pos hmember]
    omega

/-- Writing a validator, with a count that the set bears out. -/
theorem put (h : s.Stores set) (hpost : s.usePreAspenValidatorUpdates = false) (act : ValidatorUpdate)
    (hle : count ≤ (set.insert act).inner.length) :
    ((s.putValidatorCount count).putValidator act).Stores (set.insert act) := by
  obtain ⟨hset, hvalidators, -⟩ := h.postAspen hpost
  refine ⟨h.wellFormed.insert act, fun hpre => ?_, fun _ => ⟨hset, ?_, count, rfl, hle⟩⟩
  · have hpre : s.usePreAspenValidatorUpdates = true := hpre
    rw [hpost] at hpre
    cases hpre
  · rw [ValidatorSet.get_insert]
    exact hvalidators.update act.address (some act)

end Base.Stores

/-! ## Inside a block -/

/-- The validators after `begin_block` were `m`, and the updates `us` have been executed since: the end
of the block applies them before the Aspen upgrade, the store has them since. -/
structure InBlock (m : AddressBytes → Option ValidatorUpdate) (preAspen : Bool)
    (us : List ValidatorUpdate) (s : Base) : Prop where
  layout : s.usePreAspenValidatorUpdates = preAspen
  updates : s.blockValidatorUpdates = (ValidatorSet.newFromUpdates us).withoutNames
  stored : ∃ set, s.Stores set ∧ (preAspen = true → set.get = m) ∧
    (preAspen = false →
      set.get = (ValidatorSet.newFromUpdates us).patch.apply m ∧ (us ≠ [] → set.inner ≠ []))
  removals : ∀ u ∈ us, u.power = 0 → (m u.address).isSome = true ∨
    preAspen = false ∧ ∃ v ∈ us, v.address = u.address ∧ v.power ≠ 0

namespace InBlock

variable {m : AddressBytes → Option ValidatorUpdate} {preAspen : Bool} {us : List ValidatorUpdate}
  {s s' : Base} {act : ValidatorUpdate}

theorem congr (h : InBlock m preAspen us s) (hsame : s.SameValidators s') :
    InBlock m preAspen us s' where
  layout := hsame.preAspen.trans h.layout
  updates := hsame.updates.trans h.updates
  stored := by
    obtain ⟨set, hset, hpre, hpost⟩ := h.stored
    exact ⟨set, hset.congr hsame, hpre, hpost⟩
  removals := h.removals

/-- An update keeps what holds of the earlier removals, if its own is that of a member, or of a
validator that the block has added. -/
theorem removals_append (h : InBlock m preAspen us s)
    (hact : act.power = 0 → (m act.address).isSome = true ∨
      preAspen = false ∧ ∃ v ∈ us, v.address = act.address ∧ v.power ≠ 0) :
    ∀ u ∈ us ++ [act], u.power = 0 → (m u.address).isSome = true ∨
      preAspen = false ∧ ∃ v ∈ us ++ [act], v.address = u.address ∧ v.power ≠ 0 := by
  intro u hu hpower
  have hor : (m u.address).isSome = true ∨ preAspen = false ∧
      ∃ v ∈ us, v.address = u.address ∧ v.power ≠ 0 := by
    rcases List.mem_append.mp hu with hu | hu
    · exact h.removals u hu hpower
    · obtain rfl := List.mem_singleton.mp hu
      exact hact hpower
  refine hor.imp_right ?_
  rintro ⟨hpost, v, hv, heq, hpos⟩
  exact ⟨hpost, v, List.mem_append_left _ hv, heq, hpos⟩

/-- A validator that the store has is a member or was added in the block. -/
theorem member_or_added (h : InBlock m false us s) {a : AddressBytes}
    (hmember : (s.authority.validators a).isSome = true) :
    (m a).isSome = true ∨ ∃ v ∈ us, v.address = a ∧ v.power ≠ 0 := by
  obtain ⟨set, hset, -, hpatch⟩ := h.stored
  rw [hset.isSome_eq h.layout, (hpatch rfl).1] at hmember
  cases hp : (ValidatorSet.newFromUpdates us).patch a with
  | none =>
    rw [Patch.apply_of_none hp] at hmember
    exact Or.inl hmember
  | some o =>
    rw [Patch.apply_of_some hp] at hmember
    obtain ⟨v, hv, heq, hkept⟩ := ValidatorSet.patch_newFromUpdates.mp hp
    refine Or.inr ⟨v, mem_of_mem_standing hv, heq, ?_⟩
    intro hpower
    rw [ValidatorUpdate.kept_eq_none.mpr hpower] at hkept
    rw [← hkept] at hmember
    cases hmember

/-- Since the upgrade the store follows every update at once. -/
theorem postAspen_step (h : InBlock m false us s) {set set' : ValidatorSet}
    (hpatch : set.get = (ValidatorSet.newFromUpdates us).patch.apply m)
    (hlayout : s'.usePreAspenValidatorUpdates = false)
    (hupdates : s'.blockValidatorUpdates = (s.blockValidatorUpdates.insert act).withoutNames)
    (hstores : s'.Stores set')
    (hget : set'.get = Function.update set.get act.address act.kept)
    (hnonempty : set'.inner ≠ [])
    (hact : act.power = 0 → (s.authority.validators act.address).isSome = true) :
    InBlock m false (us ++ [act]) s' := by
  refine ⟨hlayout, ?_, ⟨set', hstores, fun hpre => ?_, fun _ => ⟨?_, fun _ => hnonempty⟩⟩,
    h.removals_append fun hpower => ?_⟩
  · rw [hupdates, h.updates, ValidatorSet.withoutNames_newFromUpdates_append]
  · cases hpre
  · rw [hget, hpatch, ValidatorSet.newFromUpdates_append, ValidatorSet.patch_insert,
      Patch.apply_update]
  · exact (h.member_or_added (hact hpower)).imp_right fun hadded => ⟨rfl, hadded⟩

/-- What a block keeps when it executes one more update. -/
theorem step (h : InBlock m preAspen us s) (hexec : ValidatorUpdate.Executed act s s') :
    InBlock m preAspen (us ++ [act]) s' := by
  obtain ⟨set, hset, hpre', hpost'⟩ := h.stored
  have hlayout := h.layout
  cases hexec with
  | preAspen hpre hcheck =>
    obtain rfl : preAspen = true := hlayout.symm.trans hpre
    refine ⟨hpre, ?_, ⟨set, hset.addUpdate act, hpre', fun hpost => ?_⟩, h.removals_append ?_⟩
    · rw [← ValidatorSet.withoutNames_newFromUpdates_append, ← h.updates]
      rfl
    · cases hpost
    · intro hpower
      obtain ⟨set', hset', hmember⟩ := hcheck hpower
      obtain rfl : set' = set.withoutNames :=
        Option.some.inj (hset'.symm.trans (hset.preAspen hpre).1)
      rw [(AgreeButNames.of_withoutNames set).isSome_eq, hpre' rfl] at hmember
      exact Or.inl hmember
  | @removed count hpost hpower hcount hlt hmember =>
    obtain rfl : preAspen = false := hlayout.symm.trans hpost
    have hstores := (hset.remove hpost hcount hmember).addUpdate act
    refine h.postAspen_step (hpost' rfl).1 hpost rfl hstores ?_ ?_ fun _ => hmember
    · rw [ValidatorUpdate.kept_eq_none.mpr hpower, ValidatorSet.get_remove]
    · obtain ⟨-, -, n, hn, hle⟩ := hstores.postAspen hpost
      obtain rfl : count - 1 = n := Option.some.inj hn
      intro hempty
      rw [hempty, List.length_nil] at hle
      omega
  | @updated count hpost hpower hcount hmember =>
    obtain rfl : preAspen = false := hlayout.symm.trans hpost
    obtain ⟨-, -, n, hn, hle⟩ := hset.postAspen hpost
    obtain rfl : count = n := Option.some.inj (hcount.symm.trans hn)
    have hlength := hset.wellFormed.length_insert act
    rw [hset.isSome_eq hpost] at hmember
    rw [if_pos hmember] at hlength
    have hstores := (hset.put hpost act (by omega : count ≤ _)).addUpdate act
    rw [Base.putValidatorCount_self hcount] at hstores
    refine h.postAspen_step (hpost' rfl).1 hpost rfl hstores ?_ (set.inner_insert_ne_nil act)
      fun hzero => absurd hzero hpower
    rw [ValidatorUpdate.kept_eq_some.mpr ⟨hpower, rfl⟩, ValidatorSet.get_insert]
  | @added count hpost hpower hcount hmember =>
    obtain rfl : preAspen = false := hlayout.symm.trans hpost
    obtain ⟨-, -, n, hn, hle⟩ := hset.postAspen hpost
    obtain rfl : count = n := Option.some.inj (hcount.symm.trans hn)
    have hlength := hset.wellFormed.length_insert act
    rw [hset.isSome_eq hpost] at hmember
    rw [hmember] at hlength
    have hlength : (set.insert act).inner.length = set.inner.length + 1 := hlength
    have hle' : saturatingAdd u64Max count 1 ≤ (set.insert act).inner.length := by
      unfold saturatingAdd
      omega
    have hstores := (hset.put hpost act hle').addUpdate act
    refine h.postAspen_step (hpost' rfl).1 hpost rfl hstores ?_ (set.inner_insert_ne_nil act)
      fun hzero => absurd hzero hpower
    rw [ValidatorUpdate.kept_eq_some.mpr ⟨hpower, rfl⟩, ValidatorSet.get_insert]

end InBlock

/-! ## Transactions -/

omit ext in
/-- The validator update that an action is. -/
def Action.toValidatorUpdate : Action → Option ValidatorUpdate
  | .validatorUpdate act => some act
  | _ => none

omit ext in
/-- The validator updates of a list of actions. -/
def validatorUpdatesOf (acts : List Action) : List ValidatorUpdate :=
  acts.filterMap Action.toValidatorUpdate

section

variable {m : AddressBytes → Option ValidatorUpdate} {preAspen : Bool} {us : List ValidatorUpdate}

/-- An action with its fee executes its update, if it is one. -/
theorem InBlock.action {source : AddressBytes} {act : Action} {s s' : State} {u : Unit}
    (h : InBlock m preAspen us s.base) (hexec : executeAction source act s = .ok u s') :
    InBlock m preAspen (us ++ (Action.toValidatorUpdate act).toList) s'.base := by
  by_cases hkind : act.kind = .validatorUpdate
  · cases act with
    | validatorUpdate act =>
      rw [executeAction_eq (by rw [hkind]; decide)] at hexec
      simp only [mapErr_eq_ok, bind_eq_ok] at hexec
      obtain ⟨_, t, hact, hfees⟩ := hexec
      obtain ⟨b, hb, rfl⟩ := onBase_eq_ok.mp hact
      obtain ⟨c, hc, rfl⟩ := onBase_eq_ok.mp hfees
      have hpaid : b.SameValidators c :=
        checkAndPayFees_keepsOk fundsWrites_sameValidators transactionWrites_sameValidators hc
      exact (h.step (ValidatorUpdate.checkAndExecute_executed hb)).congr hpaid
    | _ => cases hkind
  · have hsame : s.base.SameValidators s'.base :=
      executeAction_keeps fundsWrites_sameValidators transactionWrites_sameValidators
        (fun t ht => Action.checkAndExecute_sameValidators hkind ht) hexec
    have hnone : Action.toValidatorUpdate act = none := by
      cases act with
      | validatorUpdate act => exact absurd rfl hkind
      | _ => rfl
    rw [hnone, Option.toList_none, List.append_nil]
    exact h.congr hsame

variable [TransactionCodec]

/-- The first `k` actions of a transaction execute their updates. -/
theorem Executing.inBlock {tx : Transaction} {s t : State} {k : ℕ} (hs : InBlock m preAspen us s.base)
    (h : Executing tx s k t) :
    InBlock m preAspen (us ++ validatorUpdatesOf (tx.actions.inner.take k)) t.base := by
  induction h with
  | start hless hprep =>
    rw [List.take_zero]
    have hstart : s.base.SameValidators (s.withEvents []).base := ⟨rfl, rfl, rfl, rfl, rfl⟩
    have hprepared := (prepareTransaction_keepsAny transactionWrites_sameValidators tx).of_ok hprep
    show InBlock m preAspen (us ++ []) _
    rw [List.append_nil]
    exact (hs.congr hstart).congr hprepared
  | @step k t r act hexec hget hact ih =>
    have hcontext : t.base.SameValidators (t.withContext (contextAt tx k)).base :=
      ⟨rfl, rfl, rfl, rfl, rfl⟩
    have hnext := (ih.congr hcontext).action hact
    rw [List.take_add_one, hget]
    unfold validatorUpdatesOf at hnext ⊢
    rw [List.filterMap_append, ← List.append_assoc]
    exact hnext

/-- The updates that the transactions of a finalized block execute. -/
def executedUpdates : List Transaction → State → List ValidatorUpdate
  | [], _ => []
  | tx :: rest, s =>
    match executeTransaction tx s with
    | (.ok _, t) => validatorUpdatesOf tx.actions.inner ++ executedUpdates rest t
    | (.error _, t) => executedUpdates rest t

/-- The transactions of a finalized block execute their updates, except those that fail. -/
theorem InBlock.transactions {s : State} (h : InBlock m preAspen us s.base) (txs : List Transaction) :
    InBlock m preAspen (us ++ executedUpdates txs s) (finalizeTransactions txs s).2.base := by
  induction txs generalizing us s with
  | nil =>
    rw [executedUpdates, List.append_nil]
    exact h
  | cons tx rest ih =>
    show InBlock m preAspen _ (finalizeTransactions rest (finalizeTransaction tx s).2).2.base
    rw [finalizeTransaction_snd, executedUpdates]
    cases hexec : executeTransaction tx s with
    | mk result t =>
      cases result with
      | ok events =>
        rw [← List.append_assoc]
        obtain ⟨r, hactions, rfl⟩ := executeTransaction_executing hexec
        refine ih ?_
        have hr := hactions.inBlock h
        rw [List.take_length] at hr
        exact hr.congr ⟨rfl, rfl, rfl, rfl, rfl⟩
      | error e =>
        obtain rfl := executeTransaction_error hexec
        exact ih h

end

/-! ## Before the transactions -/

omit ext in
/-- The validators but those that misbehaved. -/
def withoutMisbehaving {A : Type} (misbehavior : List Misbehavior) (m : AddressBytes → Option A) :
    AddressBytes → Option A :=
  fun a => if ∃ x ∈ misbehavior, x.validatorAddress = a then none else m a

namespace ValidatorSet

/-- The set but the validators that misbehaved. -/
def removeAll (set : ValidatorSet) (misbehavior : List Misbehavior) : ValidatorSet :=
  misbehavior.foldl (fun acc m => acc.remove m.validatorAddress) set

theorem WellFormed.removeAll {set : ValidatorSet} (h : set.WellFormed) (l : List Misbehavior) :
    (set.removeAll l).WellFormed := by
  induction l generalizing set with
  | nil => exact h
  | cons x l ih => exact ih (h.remove x.validatorAddress)

omit ext in
theorem get_removeAll (set : ValidatorSet) (l : List Misbehavior) :
    (set.removeAll l).get = withoutMisbehaving l set.get := by
  induction l generalizing set with
  | nil => rfl
  | cons x l ih =>
    show ((set.remove x.validatorAddress).removeAll l).get = _
    rw [ih, get_remove]
    funext a
    unfold withoutMisbehaving
    by_cases hx : a = x.validatorAddress
    · rw [hx, Function.update_self, ite_self, if_pos ⟨x, List.mem_cons_self .., rfl⟩]
    · rw [Function.update_of_ne hx]
      simp only [List.exists_mem_cons_iff, Ne.symm hx, false_or]

omit ext in
theorem withoutNames_removeAll (set : ValidatorSet) (l : List Misbehavior) :
    (set.removeAll l).withoutNames = set.withoutNames.removeAll l := by
  induction l generalizing set with
  | nil => rfl
  | cons x l ih =>
    show ((set.remove x.validatorAddress).removeAll l).withoutNames =
      (set.withoutNames.remove x.validatorAddress).removeAll l
    rw [ih, withoutNames_remove]

end ValidatorSet

section

variable {s s' : Base} {set : ValidatorSet} {u : Unit}

/-- A misbehaving validator leaves the store, if it is there. -/
theorem removeMisbehaving_stores {x : Misbehavior} (h : s.Stores set)
    (hpost : s.usePreAspenValidatorUpdates = false) (hexec : removeMisbehaving x s = .ok u s') :
    s'.Stores (set.remove x.validatorAddress) ∧ s'.usePreAspenValidatorUpdates = false ∧
      s'.blockValidatorUpdates = s.blockValidatorUpdates ∧
      (s.CountsAll set → s'.CountsAll (set.remove x.validatorAddress)) := by
  have hlength := h.wellFormed.length_remove x.validatorAddress
  simp only [removeMisbehaving, bind_eq_ok, mapErr_eq_ok] at hexec
  obtain ⟨removed, t, hremove, hexec⟩ := hexec
  obtain ⟨rfl, rfl⟩ := removeValidator_ok hremove
  by_cases hmember : (s.authority.validators x.validatorAddress).isSome = true
  · rw [if_pos hmember] at hexec
    simp only [bind_eq_ok, mapErr_eq_ok, tryReads_eq_ok, Base.getValidatorCount_eq_ok, writes_eq_ok,
      and_assoc, exists_and_left, exists_eq_left] at hexec
    obtain ⟨count, hcount, rfl⟩ := hexec
    rw [if_pos hmember]
    have hcount : s.nonverifiable.validatorCount = some count := by
      rw [if_pos hmember] at hcount
      exact hcount
    refine ⟨h.remove hpost hcount hmember, hpost, rfl, fun hcounts _ => ?_⟩
    rw [h.isSome_eq hpost] at hmember
    rw [if_pos hmember] at hlength
    obtain rfl : count = set.inner.length := Option.some.inj (hcount.symm.trans (hcounts hpost))
    exact congrArg some hlength.symm
  · rw [if_neg hmember, if_neg hmember] at hexec
    obtain ⟨-, rfl⟩ := pure_eq_ok.mp hexec
    obtain ⟨hset, hvalidators, count, hcount, hle⟩ := h.postAspen hpost
    rw [h.isSome_eq hpost] at hmember
    have hnone : set.get x.validatorAddress = none := Option.not_isSome_iff_eq_none.mp hmember
    rw [if_neg hmember] at hlength
    refine ⟨⟨h.wellFormed.remove _, fun hpre => ?_, fun _ => ⟨hset, ?_, count, hcount, ?_⟩⟩, hpost, rfl,
      fun hcounts _ => ?_⟩
    · rw [hpost] at hpre
      cases hpre
    · rw [ValidatorSet.get_remove, Function.update_eq_self_iff.mpr hnone.symm]
      exact hvalidators
    · rw [hlength]
      exact hle
    · rw [hlength]
      exact hcounts hpost

/-- `begin_block` removes the validators that misbehaved from the store. -/
theorem authorityBeginBlock_stores {l : List Misbehavior} (h : s.Stores set)
    (hexec : authorityBeginBlock l s = .ok u s') :
    s'.Stores (set.removeAll l) ∧
      s'.usePreAspenValidatorUpdates = s.usePreAspenValidatorUpdates ∧
      s'.blockValidatorUpdates = s.blockValidatorUpdates ∧
      (s.CountsAll set → s'.CountsAll (set.removeAll l)) := by
  simp only [authorityBeginBlock, bind_eq_ok, reads_eq_ok, and_assoc, exists_and_left,
    exists_eq_left] at hexec
  by_cases hpre : s.usePreAspenValidatorUpdates = true
  · rw [if_pos hpre] at hexec
    obtain ⟨hset, hvalidators⟩ := h.preAspen hpre
    simp only [preAspenRemoveMisbehaving, bind_eq_ok, mapErr_eq_ok, tryReads_eq_ok,
      Base.preAspenGetValidatorSet_eq_ok, writes_eq_ok, and_assoc, exists_and_left,
      exists_eq_left] at hexec
    obtain ⟨set', hset', rfl⟩ := hexec
    obtain rfl : set.withoutNames = set' := Option.some.inj (hset.symm.trans hset')
    have hremoved : (set.withoutNames.removeAll l).withoutNames = (set.removeAll l).withoutNames := by
      rw [ValidatorSet.withoutNames_removeAll, ValidatorSet.withoutNames_removeAll,
        ValidatorSet.withoutNames_withoutNames]
    have hnot : ¬s.usePreAspenValidatorUpdates = false := by
      rw [hpre]
      exact Bool.false_ne_true ∘ Eq.symm
    exact ⟨⟨h.wellFormed.removeAll l, fun _ => ⟨congrArg some hremoved, hvalidators⟩,
      fun hpost => absurd hpost hnot⟩, rfl, rfl, fun _ hpost => absurd hpost hnot⟩
  · have hpost := Bool.eq_false_of_not_eq_true hpre
    rw [if_neg hpre] at hexec
    rw [hpost]
    -- one validator after the other
    clear hpre
    induction l generalizing s set with
    | nil =>
      rw [forEach_nil_eq_ok] at hexec
      rw [hexec]
      exact ⟨h, hpost, rfl, id⟩
    | cons x l ih =>
      rw [forEach_cons_eq_ok] at hexec
      obtain ⟨t, hx, hrest⟩ := hexec
      obtain ⟨hstores, hpost', hupdates, hcounts⟩ := removeMisbehaving_stores h hpost hx
      obtain ⟨hstores', hpost'', hupdates', hcounts'⟩ := ih hstores hrest hpost'
      exact ⟨hstores', hpost'', hupdates'.trans hupdates, hcounts' ∘ hcounts⟩

theorem forEach_putValidator {l : List (AddressBytes × ValidatorUpdate)}
    (h : (forEach l fun e => writes (Base.putValidator e.2) : BaseM Unit) s = .ok u s') :
    s' = { s with
      authority.validators :=
        l.foldl (fun m e => Function.update m e.2.address (some e.2)) s.authority.validators } := by
  induction l generalizing s with
  | nil =>
    rw [forEach_nil_eq_ok] at h
    exact h
  | cons e l ih =>
    simp only [forEach_cons_eq_ok, writes_eq_ok, exists_eq_left] at h
    rw [ih h]
    rfl

/-- Writing the validators of a set one by one writes the set. -/
theorem ValidatorSet.WellFormed.foldl_put (h : set.WellFormed) :
    set.inner.foldl (fun (m : AddressBytes → Option ValidatorUpdate) e =>
      Function.update m e.2.address (some e.2)) (fun _ => none) = set.get := by
  have hkeys : set.inner.foldl (fun (m : AddressBytes → Option ValidatorUpdate) e =>
      Function.update m e.2.address (some e.2)) (fun _ => none) =
        set.inner.foldl (fun (m : AddressBytes → Option ValidatorUpdate) e =>
          Function.update m e.1 (some e.2)) (fun _ => none) := by
    refine List.foldl_ext _ _ _ ?_
    intro m e he
    rw [h.keyed e he]
  rw [hkeys, h.sorted.foldl_update some]
  funext a
  show ((SortedMap.lookup a set.inner).map some).getD none = SortedMap.lookup a set.inner
  cases SortedMap.lookup a set.inner <;> rfl

/-- The upgrade moves every validator to a key of its own. -/
theorem handleAspenUpgrade_ok (hexec : handleAspenUpgrade s = .ok u s') :
    ∃ set, s.authority.preAspenValidatorSet = some set ∧
      s' = { s with
        authority.preAspenValidatorSet := none
        authority.validators :=
          set.inner.foldl (fun m e => Function.update m e.2.address (some e.2)) s.authority.validators
        nonverifiable.validatorCount := some set.inner.length } := by
  simp only [handleAspenUpgrade, bind_eq_ok, mapErr_eq_ok, tryReads_eq_ok,
    Base.preAspenGetValidatorSet_eq_ok, writes_eq_ok, and_assoc, exists_and_left, exists_eq_left,
    exists_const] at hexec
  obtain ⟨set, hset, hexec⟩ := hexec
  exact ⟨set, hset, forEach_putValidator hexec⟩

/-- Whether the validators of a block are updated as before the Aspen upgrade: an upgrade that is due
comes first. -/
def Upgrades.usesPreAspen (upgrades : Upgrades) (height : ℕ) (s : Base) : Bool :=
  s.usePreAspenValidatorUpdates && (upgrades.upgradeActivatingAtHeight height).isNone

/-- An upgrade that is due keeps the stored set, and changes its layout. -/
theorem executeUpgradeIfDue_stores [UpgradeCodec] {upgrades : Upgrades} {height : ℕ} {s s' : State}
    {set : ValidatorSet} {hashes : List Bytes32} (h : s.base.Stores set)
    (hexec : executeUpgradeIfDue upgrades height s = .ok hashes s') :
    s'.base.Stores set ∧
      s'.base.usePreAspenValidatorUpdates = upgrades.usesPreAspen height s.base ∧
      s'.base.blockValidatorUpdates = s.base.blockValidatorUpdates ∧
      (s.base.CountsAll set → s'.base.CountsAll set) := by
  unfold executeUpgradeIfDue at hexec
  unfold Upgrades.usesPreAspen
  cases hdue : upgrades.upgradeActivatingAtHeight height with
  | none =>
    rw [hdue] at hexec
    obtain ⟨-, rfl⟩ := pure_eq_ok.mp hexec
    exact ⟨h, (Bool.and_true _).symm, rfl, id⟩
  | some aspen =>
    rw [hdue] at hexec
    have hexec : aspen.execute s = .ok hashes s' := hexec
    simp only [Aspen.execute, bind_eq_ok, pure_eq_ok, onBase_eq_ok, mapErr_eq_ok] at hexec
    obtain ⟨_, _, ⟨b, hchanges, rfl⟩, _, _, ⟨c, hmarket, rfl⟩, _, t, horacle, _, _, ⟨d, hauthority, rfl⟩,
      -, rfl⟩ := hexec
    simp only [AspenChange.all, forEach_cons_eq_ok, forEach_nil_eq_ok, writes_eq_ok,
      exists_eq_left] at hchanges
    rw [MarketMapGenesis.handleGenesis, writes_eq_ok] at hmarket
    obtain ⟨o, -, rfl⟩ := zoom_eq_ok.mp horacle
    -- the record of the changes is what tells the layouts apart
    have hpost : c.usePreAspenValidatorUpdates = false := by
      rw [hmarket, hchanges]
      simp [Base.usePreAspenValidatorUpdates, Base.putUpgradeChangeInfo, Base.putMarketMap, Aspen.name,
        AspenChange.name]
    obtain ⟨set', hset', rfl⟩ := handleAspenUpgrade_ok hauthority
    have hauthority' : c.authority = s.base.authority := by
      rw [hmarket, hchanges]
      rfl
    have hpending : c.nonverifiable = s.base.nonverifiable := by
      rw [hmarket, hchanges]
      rfl
    rw [hauthority'] at hset'
    cases hpre : s.base.usePreAspenValidatorUpdates with
    | false =>
      obtain ⟨hnone, -⟩ := h.postAspen hpre
      rw [hnone] at hset'
      cases hset'
    | true =>
      obtain ⟨hset, hvalidators⟩ := h.preAspen hpre
      obtain rfl : set.withoutNames = set' := Option.some.inj (hset.symm.trans hset')
      have hlength := ValidatorSet.length_withoutNames set
      refine ⟨⟨h.wellFormed, fun hpre => ?_, fun _ => ⟨rfl, ?_, _, rfl, hlength.le⟩⟩, hpost, ?_,
        fun _ _ => congrArg some hlength⟩
      · have hpre : c.usePreAspenValidatorUpdates = true := hpre
        rw [hpost] at hpre
        cases hpre
      · show AgreeButNames (set.withoutNames.inner.foldl _ c.authority.validators) _
        rw [hauthority', hvalidators, h.wellFormed.withoutNames.foldl_put]
        exact .of_withoutNames set
      · show c.nonverifiable.blockValidatorUpdates.getD ⟨[]⟩ = _
        rw [hpending]
        rfl

/-- Before the transactions the misbehaving validators leave the store, after an upgrade that is due. -/
theorem preExecuteTransactions_stores [UpgradeCodec] {upgrades : Upgrades} {appHash : Bytes32}
    {block : BlockData} {s s' : State} {set : ValidatorSet} {hashes : List Bytes32}
    (h : s.base.Stores set)
    (hexec : preExecuteTransactions upgrades appHash block s = .ok hashes s') :
    s'.base.Stores (set.removeAll block.misbehavior) ∧
      s'.base.usePreAspenValidatorUpdates = upgrades.usesPreAspen block.height s.base ∧
      s'.base.blockValidatorUpdates = s.base.blockValidatorUpdates ∧
      (s.base.CountsAll set → s'.base.CountsAll (set.removeAll block.misbehavior)) := by
  simp only [preExecuteTransactions, bind_eq_ok, mapErr_eq_ok, applyDelta_eq_ok, pure_eq_ok,
    onBase_tryReads_eq_ok] at hexec
  obtain ⟨_, _, ⟨_, t, hupgrade, rfl, rfl⟩, chainId, _, ⟨-, rfl⟩, _, _, ⟨_, r, hbegin, rfl, rfl⟩, -, rfl⟩ :=
    hexec
  have hevents : (s.withEvents []).base.Stores set := ⟨h.wellFormed, h.preAspen, h.postAspen⟩
  obtain ⟨hstores, hpre, hpending, hcounts⟩ := executeUpgradeIfDue_stores hevents hupgrade
  obtain ⟨b, hb, rfl⟩ := onBase_eq_ok.mp hbegin
  simp only [beginBlock, bind_eq_ok, writes_eq_ok, mapErr_eq_ok, exists_eq_left, exists_const] at hb
  obtain ⟨_, c, hauthority, hibc⟩ := hb
  have hstarted : (Base.putBlockTimestamp block.time (Base.putBlockHeight block.height
      (State.withEvents [] (State.withEvents s.events t)).base)).Stores set :=
    ⟨hstores.wellFormed, hstores.preAspen, hstores.postAspen⟩
  obtain ⟨hremoved, hsame, hkept, hcounts'⟩ := authorityBeginBlock_stores hstarted hauthority
  have hcomponent : c.SameValidators b :=
    (keeps_writeIbc (fun _ _ => ⟨rfl, rfl, rfl, rfl, rfl⟩) _).of_ok hibc
  refine ⟨(hremoved.congr hcomponent).congr ⟨rfl, rfl, rfl, rfl, rfl⟩, ?_, ?_, fun hall => ?_⟩
  · exact (hcomponent.preAspen.trans hsame).trans hpre
  · exact (hcomponent.updates.trans hkept).trans hpending
  · exact ((hcounts' (hcounts hall)).congr hcomponent).congr ⟨rfl, rfl, rfl, rfl, rfl⟩

/-- The start of a block in which no update has been executed. -/
theorem preExecuteTransactions_inBlock [UpgradeCodec] {upgrades : Upgrades} {appHash : Bytes32}
    {block : BlockData} {s s' : State} {set : ValidatorSet} {hashes : List Bytes32}
    (h : s.base.Stores set) (hclear : s.base.blockValidatorUpdates = ⟨[]⟩)
    (hexec : preExecuteTransactions upgrades appHash block s = .ok hashes s') :
    InBlock (withoutMisbehaving block.misbehavior set.get) (upgrades.usesPreAspen block.height s.base)
      [] s'.base := by
  obtain ⟨hremoved, hpre, hkept, -⟩ := preExecuteTransactions_stores h hexec
  refine ⟨hpre, hkept.trans hclear, ⟨_, hremoved, fun _ => ?_, fun _ => ⟨?_, ?_⟩⟩, ?_⟩
  · exact ValidatorSet.get_removeAll _ _
  · rw [ValidatorSet.get_removeAll]
    rfl
  · intro h
    exact absurd rfl h
  · intro u hu
    cases hu

/-! ## After the transactions -/

variable {m : AddressBytes → Option ValidatorUpdate} {preAspen : Bool} {us : List ValidatorUpdate}

/-- What a block has done to the validators when it ends: they follow the updates that it returns. -/
structure EndsWith (m : AddressBytes → Option ValidatorUpdate) (us : List ValidatorUpdate)
    (preAspen : Bool) (returned : List CometbftValidatorUpdate) (set : ValidatorSet) (s : Base) :
    Prop where
  returned : returned = (ValidatorSet.newFromUpdates us).toCometbft
  stores : s.Stores set
  layout : s.usePreAspenValidatorUpdates = preAspen
  cleared : s.blockValidatorUpdates = ⟨[]⟩
  get_eq : set.get = (ValidatorSet.newFromUpdates us).patch.apply m
  nonempty : preAspen = false → us ≠ [] → set.inner ≠ []
  removals : ∀ u ∈ us, u.power = 0 → (m u.address).isSome = true ∨
    preAspen = false ∧ ∃ v ∈ us, v.address = u.address ∧ v.power ≠ 0

/-- `end_block` returns the pending updates and clears them, and before the upgrade it stores the set that
they lead to. -/
theorem endBlock_stores {recipient : AddressBytes} {returned : List CometbftValidatorUpdate}
    {updates : ValidatorSet} (h : s.Stores set) (hupdates : updates.WellFormed)
    (hpending : s.blockValidatorUpdates = updates.withoutNames)
    (hexec : endBlock recipient s = .ok returned s') :
    returned = updates.toCometbft ∧
      s'.usePreAspenValidatorUpdates = s.usePreAspenValidatorUpdates ∧
      s'.blockValidatorUpdates = ⟨[]⟩ ∧
      ∃ set', s'.Stores set' ∧ (s.CountsAll set → s'.CountsAll set') ∧
        set' = if s.usePreAspenValidatorUpdates = true then set.applyUpdates updates else set := by
  simp only [endBlock, bind_eq_ok, mapErr_eq_ok, reads_eq_ok, writes_eq_ok, pure_eq_ok, and_assoc,
    exists_and_left, exists_eq_left, exists_const] at hexec
  obtain ⟨_, t, hauthority, _, b, hfees, rfl, rfl⟩ := hexec
  have hreturned : s.blockValidatorUpdates.toCometbft = updates.toCometbft := by
    rw [hpending, ValidatorSet.toCometbft_withoutNames]
  have hpaid : t.clearBlockValidatorUpdates.SameValidators s' := by
    have hkeeps : Keeps Base.SameValidators
        (payBlockFees recipient t.clearBlockValidatorUpdates.ephemeral.blockFees) := by
      refine Keeps.forEach (fun fee => ?_) _
      exact (keeps_increaseBalance fundsWrites_sameValidators.balance _ _ _).mapErr _
    exact hkeeps.of_ok hfees
  simp only [authorityEndBlock, bind_eq_ok, reads_eq_ok, and_assoc, exists_and_left,
    exists_eq_left] at hauthority
  by_cases hpre : s.usePreAspenValidatorUpdates = true
  · rw [if_pos hpre] at hauthority
    obtain ⟨hstored, hvalidators⟩ := h.preAspen hpre
    simp only [bind_eq_ok, reads_eq_ok, mapErr_eq_ok, tryReads_eq_ok,
      Base.preAspenGetValidatorSet_eq_ok, writes_eq_ok, and_assoc, exists_and_left,
      exists_eq_left] at hauthority
    obtain ⟨set', hstored', rfl⟩ := hauthority
    obtain rfl : set.withoutNames = set' := Option.some.inj (hstored.symm.trans hstored')
    have happlied : (set.withoutNames.applyUpdates s.blockValidatorUpdates).withoutNames =
        (set.applyUpdates updates).withoutNames := by
      rw [hpending, ValidatorSet.withoutNames_applyUpdates, ValidatorSet.withoutNames_applyUpdates,
        ValidatorSet.withoutNames_withoutNames, ValidatorSet.withoutNames_withoutNames]
    have hstores : (Base.clearBlockValidatorUpdates (s.preAspenPutValidatorSet
        (set.withoutNames.applyUpdates s.blockValidatorUpdates))).Stores (set.applyUpdates updates) := by
      refine ⟨h.wellFormed.applyUpdates hupdates, fun _ => ⟨congrArg some happlied, hvalidators⟩,
        fun hpost => ?_⟩
      have hpost : s.usePreAspenValidatorUpdates = false := hpost
      rw [hpre] at hpost
      cases hpost
    refine ⟨hreturned, hpaid.preAspen, hpaid.updates, _, hstores.congr hpaid, fun _ hpost => ?_,
      (if_pos hpre).symm⟩
    have hpost : s.usePreAspenValidatorUpdates = false := hpaid.preAspen.symm.trans hpost
    rw [hpre] at hpost
    cases hpost
  · rw [if_neg hpre] at hauthority
    obtain ⟨-, rfl⟩ := pure_eq_ok.mp hauthority
    have hstores : t.clearBlockValidatorUpdates.Stores set :=
      ⟨h.wellFormed, h.preAspen, h.postAspen⟩
    have hcounts (hall : t.CountsAll set) : t.clearBlockValidatorUpdates.CountsAll set := hall
    exact ⟨hreturned, hpaid.preAspen, hpaid.updates, set, hstores.congr hpaid,
      fun hall => (hcounts hall).congr hpaid, (if_neg hpre).symm⟩

/-- `end_block` stores what is not stored yet, and returns the updates. -/
theorem endBlock_endsWith {recipient : AddressBytes} {returned : List CometbftValidatorUpdate}
    (h : InBlock m preAspen us s) (hexec : endBlock recipient s = .ok returned s') :
    ∃ set, EndsWith m us preAspen returned set s' := by
  obtain ⟨set, hset, hpre', hpost'⟩ := h.stored
  have hwellFormed := ValidatorSet.wellFormed_newFromUpdates us
  have hlayout := h.layout
  obtain ⟨hreturned, hsame, hcleared, set', hstores, -, hset'⟩ :=
    endBlock_stores hset hwellFormed h.updates hexec
  refine ⟨set', hreturned, hstores, hsame.trans hlayout, hcleared, ?_, ?_, h.removals⟩
  · rw [hset']
    cases preAspen with
    | true => rw [if_pos hlayout, ValidatorSet.get_applyUpdates _ hwellFormed, hpre' rfl]
    | false =>
      rw [hlayout, if_neg Bool.false_ne_true]
      exact (hpost' rfl).1
  · rintro rfl
    rw [hset', hlayout, if_neg Bool.false_ne_true]
    exact (hpost' rfl).2

variable {returned : List CometbftValidatorUpdate}

theorem EndsWith.congr (h : EndsWith m us preAspen returned set s) (hsame : s.SameValidators s') :
    EndsWith m us preAspen returned set s' :=
  { h with
    stores := h.stores.congr hsame
    layout := hsame.preAspen.trans h.layout
    cleared := hsame.updates.trans h.cleared }

/-- The storage of the block leaves the validators, and keeps the updates and results to return. -/
theorem storeBlock_result [BlockCodec] {handler : UpgradesHandler} {chainId : String}
    {post : PostExecution} {events : List Event}
    (hexec : storeBlock handler chainId post returned events s = .ok u s') :
    s.SameValidators s' ∧ ∃ result, s'.ephemeral.postTransactionExecutionResult = some result ∧
      result.validatorUpdates = returned ∧ result.txResults = post.allTxResults := by
  simp only [storeBlock, bind_eq_ok, reads_eq_ok, writes_eq_ok, mapErr_eq_ok, lift_eq_ok, and_assoc,
    exists_and_left, exists_eq_left, exists_const] at hexec
  obtain ⟨block, -, params, b, hend, rfl⟩ := hexec
  have hsame : Keeps Base.SameValidators (handler.endBlock post.height) := by
    unfold UpgradesHandler.endBlock
    cases handler.upgrades.upgradeActivatingAtHeight post.height with
    | none => exact keeps_pure _
    | some aspen =>
      refine Keeps.bind (keeps_reads _) fun _ => Keeps.bind (keeps_writes fun _ => ?_) fun _ =>
        keeps_pure _
      exact ⟨rfl, rfl, rfl, rfl, rfl⟩
  have hend' := hsame.of_ok hend
  exact ⟨⟨hend'.preAspen, hend'.set, hend'.validators, hend'.count, hend'.updates⟩, _, rfl, rfl, rfl⟩

/-- The end of a block. -/
theorem postExecuteTransactions_endsWith [BlockCodec] {handler : UpgradesHandler}
    {post : PostExecution} {s s' : State} (h : InBlock m preAspen us s.base)
    (hexec : postExecuteTransactions handler post s = .ok u s') :
    ∃ result set, s'.base.ephemeral.postTransactionExecutionResult = some result ∧
      EndsWith m us preAspen result.validatorUpdates set s'.base := by
  obtain ⟨chainId, recipient, returned, b, c, -, -, hend, hstore, rfl⟩ :=
    postExecuteTransactions_eq_ok.mp hexec
  have hevents : InBlock m preAspen us (s.withEvents []).base := h.congr ⟨rfl, rfl, rfl, rfl, rfl⟩
  obtain ⟨set, hset⟩ := endBlock_endsWith hevents hend
  obtain ⟨hsame, result, hresult, hreturned, -⟩ := storeBlock_result hstore
  have hstored : EndsWith m us preAspen returned set
      { b with ephemeral.events := [] } := hset.congr ⟨rfl, rfl, rfl, rfl, rfl⟩
  refine ⟨result, set, hresult, ?_⟩
  rw [hreturned]
  exact (hstored.congr hsame).congr ⟨rfl, rfl, rfl, rfl, rfl⟩

end

/-! ## Whole blocks -/

section

variable [UpgradeCodec] [TransactionCodec] [BlockCodec]

/-- A block is executed, in `finalize_block` or when it was proposed; a node that prepares a proposal
caches the results of its transactions before the rest. -/
structure BlockExecution (handler : UpgradesHandler) (appHash : Bytes32) (block : Block)
    (s s' : State) : Prop where
  parts : ∃ hashes t u, preExecuteTransactions handler.upgrades appHash block.data s = .ok hashes t ∧
    (u = (finalizeTransactions block.expanded.userSubmittedTransactions t).2 ∨
      u = (finalizeTransactions block.expanded.userSubmittedTransactions t).2.putExecutionResults
        (finalizeTransactions block.expanded.userSubmittedTransactions t).1) ∧
    postExecuteTransactions handler
      (block.postExecution (finalizeTransactions block.expanded.userSubmittedTransactions t).1) u =
        .ok () s'

variable {handler : UpgradesHandler} {appHash : Bytes32} {block : Block}

theorem BlockExecution.of_executeBlock {s s' : State}
    (h : executeBlock handler appHash block s = .ok () s') :
    BlockExecution handler appHash block s s' := by
  obtain ⟨hashes, t, hpre, hpost⟩ := executeBlock_ok h
  exact ⟨hashes, t, _, hpre, Or.inl rfl, hpost⟩

/-- The updates that a block executes. -/
def Block.executedUpdates (handler : UpgradesHandler) (appHash : Bytes32) (block : Block) (s : State) :
    List ValidatorUpdate :=
  match preExecuteTransactions handler.upgrades appHash block.data s with
  | .ok _ t => Sequencer.executedUpdates block.expanded.userSubmittedTransactions t
  | .error _ _ => []

/-- What a block does to the stored validators: those that misbehaved leave, and the rest follows the
updates that it returns. -/
theorem BlockExecution.validators {s s' : State} {set : ValidatorSet}
    (hs : s.base.Stores set) (hclear : s.base.blockValidatorUpdates = ⟨[]⟩)
    (h : BlockExecution handler appHash block s s') :
    ∃ result set', s'.base.ephemeral.postTransactionExecutionResult = some result ∧
      EndsWith (withoutMisbehaving block.data.misbehavior set.get)
        (block.executedUpdates handler appHash s)
        (handler.upgrades.usesPreAspen block.data.height s.base) result.validatorUpdates set'
        s'.base := by
  obtain ⟨hashes, t, u, hpre, hu, hpost⟩ := h.parts
  have hstart := preExecuteTransactions_inBlock hs hclear hpre
  have hrun := hstart.transactions block.expanded.userSubmittedTransactions
  have hcached : InBlock (withoutMisbehaving block.data.misbehavior set.get)
      (handler.upgrades.usesPreAspen block.data.height s.base)
      (block.executedUpdates handler appHash s) u.base := by
    unfold Block.executedUpdates
    rw [hpre]
    obtain rfl | rfl := hu
    · exact hrun
    · exact hrun.congr ⟨rfl, rfl, rfl, rfl, rfl⟩
  exact postExecuteTransactions_endsWith hcached hpost

end

end

end Astria.Sequencer
