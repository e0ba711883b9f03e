import Astria.Sequencer.TestUtils
import Astria.Sequencer.Validators

/-!
# The validators of CometBFT

What the updates that a block returns do to the validators that CometBFT has at its start, and how
these validators relate to the stored ones over a run of blocks.

Before the Aspen upgrade every removal is checked against the stored set alone, so that the removals of
one block can add up to the whole set.  Since then the checks follow the updates of the block, so that
a validator can join and leave in one block, whose removal CometBFT then refuses.  Misbehaving
validators leave the stored set only.

Results:
* `goesOn_iff`: when CometBFT accepts the updates of a block and has a validator left;
* `BlockRun.storedValidators_follow`: the stored validators after every block of a run.
-/

namespace Astria.Sequencer

open Astria.Core Astria.Lib Exec

section

variable [ext : External]

/-! ## One block -/

/-- CometBFT accepts the updates of a block, and has a validator left. -/
structure CometbftValidators.GoesOn (m : CometbftValidators) (us : List CometbftValidatorUpdate) :
    Prop where
  accepts : CometbftValidators.Accepts m us
  nonempty : ∃ a, (m.applyUpdates us a).isSome = true

/-- The updates of a block that stand leave CometBFT with validators: before the Aspen upgrade fewer of
them are removals than there are validators at the start, or one is none; since then every validator
that joins in the block is still there at its end. -/
def Settles (preAspen : Bool) (set : ValidatorSet) (us : List ValidatorUpdate) : Prop :=
  if preAspen then
    ((standing us).filter fun u => u.power = 0).length < set.inner.length ∨
      ∃ u ∈ standing us, u.power ≠ 0
  else
    (∀ u ∈ us, u.power ≠ 0 → set.get u.address = none →
      ∃ v ∈ standing us, v.address = u.address ∧ v.power ≠ 0) ∧
      (set.inner ≠ [] ∨ us ≠ [])

omit ext in
/-- Of a list without duplicates some element is missing in a part of it exactly if that is shorter. -/
theorem exists_not_mem_iff {α : Type} {l l' : List α} (hl : l.Nodup) (hl' : l'.Nodup)
    (hsub : l ⊆ l') : (∃ x ∈ l', x ∉ l) ↔ l.length < l'.length := by
  constructor
  · rintro ⟨x, hx, hnot⟩
    by_contra hlen
    have hperm := (hl.subperm hsub).perm_of_length_le (Nat.le_of_not_lt hlen)
    exact hnot (hperm.mem_iff.mpr hx)
  · intro hlen
    by_contra hall
    push Not at hall
    have hle := (hl'.subperm hall).length_le
    omega

section

variable {us : List ValidatorUpdate} {m m' : AddressBytes → Option ValidatorUpdate}

theorem legal_newFromUpdates :
    (ValidatorSet.newFromUpdates us).patch.Legal m ↔
      ∀ u ∈ standing us, u.power = 0 → (m u.address).isSome = true := by
  constructor
  · intro h u hu hpower
    exact h u.address (ValidatorSet.patch_newFromUpdates.mpr
      ⟨u, hu, rfl, ValidatorUpdate.kept_eq_none.mpr hpower⟩)
  · intro h a ha
    obtain ⟨u, hu, rfl, hkept⟩ := ValidatorSet.patch_newFromUpdates.mp ha
    exact h u hu (ValidatorUpdate.kept_eq_none.mp hkept)

/-- What CometBFT makes of the updates of a block. -/
theorem goesOn_toCometbft :
    CometbftValidators.GoesOn (cometbftValidators m) (ValidatorSet.newFromUpdates us).toCometbft ↔
      (∀ u ∈ standing us, u.power = 0 → (m u.address).isSome = true) ∧
        ∃ a, ((ValidatorSet.newFromUpdates us).patch.apply m a).isSome = true := by
  have hwellFormed := ValidatorSet.wellFormed_newFromUpdates us
  have hsome (f : AddressBytes → Option ValidatorUpdate) (a : AddressBytes) :
      (cometbftValidators f a).isSome = (f a).isSome := Option.isSome_map
  constructor
  · rintro ⟨haccepts, hnonempty⟩
    rw [CometbftValidators.applyUpdates_toCometbft hwellFormed] at hnonempty
    simp only [hsome] at hnonempty
    rw [CometbftValidators.accepts_toCometbft hwellFormed, legal_newFromUpdates] at haccepts
    exact ⟨haccepts, hnonempty⟩
  · rintro ⟨hlegal, hnonempty⟩
    refine ⟨?_, ?_⟩
    · rw [CometbftValidators.accepts_toCometbft hwellFormed, legal_newFromUpdates]
      exact hlegal
    · rw [CometbftValidators.applyUpdates_toCometbft hwellFormed]
      simp only [hsome]
      exact hnonempty

/-- Removals of members alone leave a validator exactly if they are fewer than the members. -/
theorem exists_apply_iff {set : ValidatorSet} (hset : set.WellFormed)
    (hlegal : ∀ u ∈ standing us, u.power = 0 → (set.get u.address).isSome = true) :
    (∃ a, ((ValidatorSet.newFromUpdates us).patch.apply set.get a).isSome = true) ↔
      ((standing us).filter fun u => u.power = 0).length < set.inner.length ∨
        ∃ u ∈ standing us, u.power ≠ 0 := by
  let removed := ((standing us).filter fun u => u.power = 0).map ValidatorUpdate.address
  have hremoved : removed.Nodup :=
    (nodup_standing us).sublist (List.filter_sublist.map ValidatorUpdate.address)
  have hkeys : (set.inner.map (·.1)).Nodup := hset.sorted.nodup
  have hsub : removed ⊆ set.inner.map (·.1) := by
    intro a ha
    obtain ⟨u, hu, rfl⟩ := List.mem_map.mp ha
    obtain ⟨hu, hpower⟩ := List.mem_filter.mp hu
    exact ValidatorSet.get_isSome.mp (hlegal u hu (by simpa using hpower))
  have hcount := exists_not_mem_iff hremoved hkeys hsub
  rw [List.length_map, List.length_map] at hcount
  rw [Patch.exists_apply_isSome, ← hcount]
  constructor
  · rintro (⟨a, v, hp⟩ | ⟨a, hp, hmember⟩)
    · obtain ⟨u, hu, -, hkept⟩ := ValidatorSet.patch_newFromUpdates.mp hp
      exact Or.inr ⟨u, hu, (ValidatorUpdate.kept_eq_some.mp hkept).1⟩
    · refine Or.inl ⟨a, ValidatorSet.get_isSome.mp hmember, ?_⟩
      intro ha
      obtain ⟨u, hu, rfl⟩ := List.mem_map.mp ha
      obtain ⟨hu, -⟩ := List.mem_filter.mp hu
      rw [ValidatorSet.patch_newFromUpdates.mpr ⟨u, hu, rfl, rfl⟩] at hp
      cases hp
  · intro h
    by_cases hpositive : ∃ u ∈ standing us, u.power ≠ 0
    · obtain ⟨u, hu, hpower⟩ := hpositive
      exact Or.inl ⟨u.address, u, ValidatorSet.patch_newFromUpdates.mpr
        ⟨u, hu, rfl, ValidatorUpdate.kept_eq_some.mpr ⟨hpower, rfl⟩⟩⟩
    · obtain ⟨a, ha, hnot⟩ := h.resolve_right hpositive
      refine Or.inr ⟨a, ?_, ValidatorSet.get_isSome.mpr ha⟩
      -- every standing update is a removal, and none of them names this validator
      rw [Option.eq_none_iff_forall_ne_some]
      intro o ho
      obtain ⟨u, hu, rfl, -⟩ := ValidatorSet.patch_newFromUpdates.mp ho
      refine hnot (List.mem_map.mpr ⟨u, List.mem_filter.mpr ⟨hu, ?_⟩, rfl⟩)
      by_contra hpower
      exact hpositive ⟨u, hu, by simpa using hpower⟩

end

omit ext in
theorem isSome_of_withoutMisbehaving {A : Type} {l : List Misbehavior} {m : AddressBytes → Option A}
    {a : AddressBytes} (h : (withoutMisbehaving l m a).isSome = true) : (m a).isSome = true := by
  unfold withoutMisbehaving at h
  split_ifs at h
  · cases h
  · exact h

/-! ## What the validators of a run follow -/

/-- What a block tells about the validators: who misbehaved, and the updates that it returns. -/
structure ValidatorChange where
  misbehavior : List Misbehavior
  returned : List CometbftValidatorUpdate

omit ext in
/-- The stored validators, in the layout of their time. -/
def Base.storedValidators (s : Base) : AddressBytes → Option ValidatorUpdate :=
  if s.usePreAspenValidatorUpdates then fun a => s.authority.preAspenValidatorSet.bind (·.get a)
  else s.authority.validators

theorem Base.Stores.storedValidators_agree {s : Base} {set : ValidatorSet} (h : s.Stores set) :
    AgreeButNames s.storedValidators set.get := by
  unfold Base.storedValidators
  cases hpre : s.usePreAspenValidatorUpdates with
  | true =>
    rw [if_pos rfl, (h.preAspen hpre).1]
    exact .of_withoutNames set
  | false =>
    rw [if_neg Bool.false_ne_true]
    exact (h.postAspen hpre).2.1

namespace CometbftValidators

/-- The updates of all blocks in order. -/
def afterUpdates (m : CometbftValidators) (changes : List ValidatorChange) : CometbftValidators :=
  changes.foldl (fun m c => m.applyUpdates c.returned) m

/-- The updates of all blocks in order, if misbehaving validators left at the start of a block. -/
def afterChanges (m : CometbftValidators) (changes : List ValidatorChange) : CometbftValidators :=
  changes.foldl (fun m c => applyUpdates (withoutMisbehaving c.misbehavior m) c.returned) m

/-- Every validator that misbehaves is named by the updates of the block. -/
def Reported : CometbftValidators → List ValidatorChange → Prop
  | _, [] => True
  | m, c :: changes =>
    (∀ x ∈ c.misbehavior, (m x.validatorAddress).isSome = true →
      ∃ u ∈ c.returned, u.address = x.validatorAddress) ∧
      Reported (m.applyUpdates c.returned) changes

variable {m m' : CometbftValidators} {us : List CometbftValidatorUpdate}

theorem afterChanges_append (changes changes' : List ValidatorChange) :
    m.afterChanges (changes ++ changes') = (m.afterChanges changes).afterChanges changes' :=
  List.foldl_append

/-- Updates hide a difference at the validators that they name. -/
theorem applyUpdates_congr (h : ∀ a, (∀ u ∈ us, u.address ≠ a) → m a = m' a) :
    applyUpdates m us = applyUpdates m' us := by
  induction us generalizing m m' with
  | nil =>
    funext a
    exact h a fun u hu => by cases hu
  | cons v us ih =>
    refine ih ?_
    intro a ha
    unfold applyUpdate
    by_cases hv : a = v.address
    · rw [hv, Function.update_self, Function.update_self]
    · rw [Function.update_of_ne hv, Function.update_of_ne hv]
      refine h a ?_
      rw [List.forall_mem_cons]
      exact ⟨Ne.symm hv, ha⟩

theorem afterChanges_of_reported {changes : List ValidatorChange} (h : Reported m changes) :
    m.afterChanges changes = m.afterUpdates changes := by
  induction changes generalizing m with
  | nil => rfl
  | cons c changes ih =>
    obtain ⟨hnamed, hrest⟩ := h
    have hblock : applyUpdates (withoutMisbehaving c.misbehavior m) c.returned =
        applyUpdates m c.returned := by
      refine applyUpdates_congr ?_
      intro a ha
      unfold withoutMisbehaving
      split_ifs with hmem
      · obtain ⟨x, hx, rfl⟩ := hmem
        by_contra hne
        obtain ⟨u, hu, heq⟩ := hnamed x hx (Option.isSome_iff_ne_none.mpr (Ne.symm hne))
        exact ha u hu heq
      · rfl
    show (applyUpdates (withoutMisbehaving c.misbehavior m) c.returned).afterChanges changes = _
    rw [hblock]
    exact ih hrest

end CometbftValidators

/-! ## Around the execution of a block -/

omit ext in
/-- Nothing but events and the oracle changed. -/
def State.OnlyRecords (s s' : State) : Prop :=
  ∃ events, s'.base = { s.base with ephemeral.events := events }

omit ext in
theorem State.OnlyRecords.refl (s : State) : s.OnlyRecords s := ⟨s.base.ephemeral.events, rfl⟩

instance : IsPreorder State State.OnlyRecords where
  refl := State.OnlyRecords.refl
  trans := by
    rintro s t u ⟨events, h⟩ ⟨events', h'⟩
    exact ⟨events', by rw [h', h]⟩

omit ext in
theorem State.OnlyRecords.sameValidators {s s' : State} (h : s.OnlyRecords s') :
    s.base.SameValidators s'.base := by
  obtain ⟨events, h⟩ := h
  rw [h]
  exact ⟨rfl, rfl, rfl, rfl, rfl⟩

omit ext in
theorem State.OnlyRecords.result_eq {s s' : State} (h : s.OnlyRecords s') :
    s'.base.ephemeral.postTransactionExecutionResult =
      s.base.ephemeral.postTransactionExecutionResult := by
  obtain ⟨events, h⟩ := h
  rw [h]

omit ext in
theorem cometbftValidators_withoutMisbehaving (l : List Misbehavior)
    (m : AddressBytes → Option ValidatorUpdate) :
    cometbftValidators (withoutMisbehaving l m) = withoutMisbehaving l (cometbftValidators m) := by
  funext a
  unfold cometbftValidators withoutMisbehaving
  split_ifs <;> rfl

omit ext in
/-- The validators of the layout since the upgrade, and the updates of the block, are as they were. -/
def Base.SameUpdates (s s' : Base) : Prop :=
  s'.authority.validators = s.authority.validators ∧
    s'.blockValidatorUpdates = s.blockValidatorUpdates

omit ext in
instance : IsPreorder Base Base.SameUpdates where
  refl _ := ⟨rfl, rfl⟩
  trans _ _ _ h h' := ⟨h'.1.trans h.1, h'.2.trans h.2⟩

theorem genesisWrites_sameUpdates : GenesisWrites Base.SameUpdates := by
  constructor <;> intros <;> exact ⟨rfl, rfl⟩

/-- The genesis stores the validators that it was given, in the layout from before the upgrade. -/
theorem initChain_stores {genesis : GenesisAppState} {validators : List ValidatorUpdate}
    {chainId : String} {b : Base} {u : Unit}
    (h : initChain genesis validators chainId Base.empty = .ok u b) :
    b.Stores (ValidatorSet.newFromUpdates validators) ∧ b.blockValidatorUpdates = ⟨[]⟩ := by
  have hkept := (initChain_keeps genesisWrites_sameUpdates genesis validators chainId).of_ok h
  have hfresh := initChain_fresh h
  have hpre : b.usePreAspenValidatorUpdates = true := by
    unfold Base.usePreAspenValidatorUpdates
    rw [hfresh.2.1]
    rfl
  refine ⟨⟨ValidatorSet.wellFormed_newFromUpdates validators, fun _ => ⟨?_, hkept.1⟩, ?_⟩, hkept.2⟩
  · simp only [initChain, authorityInitChain, bind_eq_ok, mapErr_eq_ok, writes_eq_ok] at h
    obtain ⟨_, _, -, _, _, -, _, _, -, _, _, -, _, _, -, _, _, -, _, _, -, _, _, -, _, _, -, _, t,
      ⟨_, _, -, rfl⟩, hibc⟩ := h
    -- what follows the validators is the IBC component, which does not write them
    exact (ibcInitChain_keeps (R := fun s s' : Base =>
      s'.authority.preAspenValidatorSet = s.authority.preAspenValidatorSet)
      (fun _ _ => rfl) (fun _ _ => rfl) (fun _ _ => rfl) genesis).of_ok hibc
  · intro hpost
    rw [hpre] at hpost
    cases hpost

/-! ## Executed blocks -/

section

variable [UpgradeCodec] [TransactionCodec] [BlockCodec] {handler : UpgradesHandler}
  {appHash : Bytes32} {block : Block}

/-- CometBFT accepts the updates of a block and has a validator left exactly if the updates that the
block executes settle. -/
theorem goesOn_iff {s s' : State} {set : ValidatorSet} (hs : s.base.Stores set)
    (hclear : s.base.blockValidatorUpdates = ⟨[]⟩) (h : BlockExecution handler appHash block s s') :
    ∃ result, s'.base.ephemeral.postTransactionExecutionResult = some result ∧
      (CometbftValidators.GoesOn (cometbftValidators set.get) result.validatorUpdates ↔
        Settles (handler.upgrades.usesPreAspen block.data.height s.base) set
          (block.executedUpdates handler appHash s)) := by
  obtain ⟨result, set', hresult, hends⟩ := h.validators hs hclear
  refine ⟨result, hresult, ?_⟩
  rw [hends.returned, goesOn_toCometbft]
  generalize block.executedUpdates handler appHash s = us at hends ⊢
  cases hlayout : handler.upgrades.usesPreAspen block.data.height s.base with
  | true =>
    rw [hlayout] at hends
    -- every removal was checked against the stored set
    have hlegal : ∀ u ∈ standing us, u.power = 0 → (set.get u.address).isSome = true := by
      intro u hu hpower
      rcases hends.removals u (mem_of_mem_standing hu) hpower with hmember | ⟨hpost, -⟩
      · exact isSome_of_withoutMisbehaving hmember
      · cases hpost
    rw [exists_apply_iff hs.wellFormed hlegal]
    exact and_iff_right hlegal
  | false =>
    rw [hlayout] at hends
    constructor
    · rintro ⟨hlegal, a, ha⟩
      refine ⟨?_, ?_⟩
      · intro u hu hpower hnone
        obtain ⟨v, hv, heq⟩ := exists_standing hu
        refine ⟨v, hv, heq, ?_⟩
        intro hzero
        have hmember := hlegal v hv hzero
        rw [heq, hnone] at hmember
        cases hmember
      · by_contra hempty
        push Not at hempty
        obtain ⟨hset, rfl⟩ := hempty
        obtain ⟨l⟩ := set
        obtain rfl : l = [] := hset
        cases ha
    · rintro ⟨hjoined, hsome⟩
      refine ⟨?_, ?_⟩
      · intro u hu hpower
        rcases hends.removals u (mem_of_mem_standing hu) hpower with hmember | ⟨-, v, hv, heq, hpos⟩
        · exact isSome_of_withoutMisbehaving hmember
        · -- a validator that joins in the block would still be there
          rw [Option.isSome_iff_ne_none]
          intro hnone
          rw [← heq] at hnone
          obtain ⟨w, hw, heq', hpos'⟩ := hjoined v hv hpos hnone
          have hsame : w = u :=
            List.inj_on_of_nodup_map (nodup_standing us) hw hu (heq'.trans heq)
          rw [hsame] at hpos'
          exact hpos' hpower
      · by_cases hus : us = []
        · subst hus
          have hset := hsome.resolve_right fun hne => hne rfl
          obtain ⟨e, he⟩ := List.exists_mem_of_ne_nil _ hset
          exact ⟨e.1, ValidatorSet.get_isSome.mpr (List.mem_map.mpr ⟨e, he, rfl⟩)⟩
        · obtain ⟨e, he⟩ := List.exists_mem_of_ne_nil _ (hends.nonempty rfl hus)
          have hmember : (set'.get e.1).isSome = true :=
            ValidatorSet.get_isSome.mpr (List.mem_map.mpr ⟨e, he, rfl⟩)
          rw [hends.get_eq] at hmember
          refine ⟨e.1, ?_⟩
          cases hp : (ValidatorSet.newFromUpdates us).patch e.1 with
          | none =>
            rw [Patch.apply_of_none hp] at hmember ⊢
            exact isSome_of_withoutMisbehaving hmember
          | some o =>
            rw [Patch.apply_of_some hp] at hmember ⊢
            exact hmember

/-! ## Runs of blocks -/

/-- The prices of a block were applied, if it has any. -/
def AppliesPrices (block : Block) (s s' : State) : Prop :=
  match block.expanded.extendedCommitInfo with
  | none => s' = s
  | some info =>
    ∃ r, applyDelta (applyPrices info.1 block.data.time block.data.height) s = .ok r s'

/-- `finalize_block` and the commit of a block: it is executed after the prices were applied, unless it
was executed when it was proposed. -/
inductive Finalizes (handler : UpgradesHandler) (block : Block) (s : State) :
    PostTransactionExecutionResult → State → Prop
  | executed {appHash : Bytes32} {t u : State} {result : PostTransactionExecutionResult}
      {height version : ℕ} : AppliesPrices block s t → BlockExecution handler appHash block t u →
      u.base.ephemeral.postTransactionExecutionResult = some result →
      Finalizes handler block s result (u.putStorageVersionByHeight height version).commit
  | proposed {appHash : Bytes32} {t u : State} {result : PostTransactionExecutionResult}
      {height version : ℕ} : BlockExecution handler appHash block s t → AppliesPrices block t u →
      u.base.ephemeral.postTransactionExecutionResult = some result →
      Finalizes handler block s result (u.putStorageVersionByHeight height version).commit

/-- The states after the blocks of a run from a genesis, with what every block told about the
validators. -/
inductive BlockRun (handler : UpgradesHandler) (validators : List ValidatorUpdate) :
    List ValidatorChange → State → Prop
  | genesis {genesis : GenesisAppState} {chainId : String} {b : Base} :
      initChain genesis validators chainId Base.empty = .ok () b →
      BlockRun handler validators [] (State.commit { base := b, oracle := Oracle.empty })
  | block {changes : List ValidatorChange} {block : Block} {s s' : State}
      {result : PostTransactionExecutionResult} : BlockRun handler validators changes s →
      Finalizes handler block s result s' →
      BlockRun handler validators
        (changes ++ [{ misbehavior := block.data.misbehavior, returned := result.validatorUpdates }]) s'

omit ext [UpgradeCodec] [TransactionCodec] in
theorem applyPrices_onlyRecords (info : ExtendedCommitInfoWithMapping) (time : Time) (height : ℕ) :
    Keeps State.OnlyRecords (applyPrices info time height) := by
  have hput : ∀ price : CurrencyPair × ℤ, Keeps State.OnlyRecords (putPrice time height price) := by
    intro price
    have horacle (x : OracleM Unit) : Keeps State.OnlyRecords (onOracle x) :=
      Keeps.zoom (Q := fun _ _ => True) (fun _ => trivial) fun s _ _ => State.OnlyRecords.refl s
    have hrecord : Keeps State.OnlyRecords
        (onBase (writes (Base.record (.priceUpdate price.1 price.2)))) :=
      Keeps.zoom (Q := fun b b' => ∃ events, b' = { b with ephemeral.events := events })
        (keeps_writes fun b => ⟨b.ephemeral.events ++ [.priceUpdate price.1 price.2], rfl⟩)
        fun _ _ h => h
    exact Keeps.bind ((horacle _).mapErr _) fun _ => hrecord
  exact Keeps.bind (by simp) fun _ => Keeps.forEach hput _

omit ext [UpgradeCodec] [TransactionCodec] in
/-- The prices of a block leave the validators and the results of the block. -/
theorem AppliesPrices.onlyRecords {s s' : State} (h : AppliesPrices block s s') :
    s.OnlyRecords s' := by
  unfold AppliesPrices at h
  cases hinfo : block.expanded.extendedCommitInfo with
  | none =>
    rw [hinfo] at h
    rw [h]
    exact State.OnlyRecords.refl s
  | some info =>
    rw [hinfo] at h
    obtain ⟨r, hr⟩ := h
    obtain ⟨a, t, ht, -, rfl⟩ := applyDelta_eq_ok.mp hr
    obtain ⟨events, hevents⟩ := (applyPrices_onlyRecords _ _ _).of_ok ht
    exact ⟨s.base.ephemeral.events, by rw [State.withEvents, hevents]; rfl⟩

/-- What an executed block does to the stored validators, as CometBFT knows them. -/
theorem BlockExecution.changes {s s' : State} {set : ValidatorSet} (hs : s.base.Stores set)
    (hclear : s.base.blockValidatorUpdates = ⟨[]⟩) (h : BlockExecution handler appHash block s s') :
    ∃ result set', s'.base.ephemeral.postTransactionExecutionResult = some result ∧
      s'.base.Stores set' ∧ s'.base.blockValidatorUpdates = ⟨[]⟩ ∧
      cometbftValidators set'.get =
        CometbftValidators.applyUpdates
          (withoutMisbehaving block.data.misbehavior (cometbftValidators set.get))
          result.validatorUpdates := by
  obtain ⟨result, set', hresult, hends⟩ := h.validators hs hclear
  refine ⟨result, set', hresult, hends.stores, hends.cleared, ?_⟩
  rw [hends.get_eq, hends.returned, ← cometbftValidators_withoutMisbehaving]
  exact (CometbftValidators.applyUpdates_toCometbft
    (ValidatorSet.wellFormed_newFromUpdates _)).symm

/-- What a block that is finalized and committed does to the stored validators. -/
theorem Finalizes.validators {s s' : State} {set : ValidatorSet}
    {result : PostTransactionExecutionResult} (hs : s.base.Stores set)
    (hclear : s.base.blockValidatorUpdates = ⟨[]⟩) (h : Finalizes handler block s result s') :
    ∃ set', s'.base.Stores set' ∧ s'.base.blockValidatorUpdates = ⟨[]⟩ ∧
      cometbftValidators set'.get =
        CometbftValidators.applyUpdates
          (withoutMisbehaving block.data.misbehavior (cometbftValidators set.get))
          result.validatorUpdates := by
  cases h with
  | @executed appHash t u result height version hprices hexec hresult =>
    have hsame := hprices.onlyRecords.sameValidators
    obtain ⟨result', set', hresult', hstores, hcleared, heq⟩ :=
      hexec.changes (hs.congr hsame) (hsame.updates.trans hclear)
    obtain rfl := Option.some.inj (hresult.symm.trans hresult')
    refine ⟨set', ?_, hcleared, heq⟩
    exact hstores.congr ⟨rfl, rfl, rfl, rfl, rfl⟩
  | @proposed appHash t u result height version hexec hprices hresult =>
    obtain ⟨result', set', hresult', hstores, hcleared, heq⟩ := hexec.changes hs hclear
    have hrecords := hprices.onlyRecords
    rw [hrecords.result_eq] at hresult
    obtain rfl := Option.some.inj (hresult.symm.trans hresult')
    have hsame := hrecords.sameValidators
    refine ⟨set', ?_, hsame.updates.trans hcleared, heq⟩
    exact (hstores.congr hsame).congr ⟨rfl, rfl, rfl, rfl, rfl⟩

/-- The stored validators after every block of a run are those of the genesis with, block by block, the
misbehaving ones removed and then the returned updates applied; so they are those of the genesis with
all returned updates applied if every misbehaving validator is named by the updates of its block. -/
theorem BlockRun.storedValidators_follow {validators : List ValidatorUpdate} {changes : List ValidatorChange}
    {s : State} (h : BlockRun handler validators changes s) :
    let genesis := cometbftValidators (ValidatorSet.newFromUpdates validators).get
    cometbftValidators s.base.storedValidators = genesis.afterChanges changes ∧
      (genesis.Reported changes →
        cometbftValidators s.base.storedValidators = genesis.afterUpdates changes) := by
  intro genesis
  have hinv : ∃ set : ValidatorSet, s.base.Stores set ∧ s.base.blockValidatorUpdates = ⟨[]⟩ ∧
      cometbftValidators set.get = genesis.afterChanges changes := by
    induction h with
    | genesis hinit =>
      obtain ⟨hstores, hclear⟩ := initChain_stores hinit
      exact ⟨_, hstores.congr ⟨rfl, rfl, rfl, rfl, rfl⟩, hclear, rfl⟩
    | block _ hblock ih =>
      obtain ⟨set, hstores, hclear, heq⟩ := ih
      obtain ⟨set', hstores', hclear', heq'⟩ := hblock.validators hstores hclear
      refine ⟨set', hstores', hclear', ?_⟩
      rw [heq', heq, CometbftValidators.afterChanges_append]
      rfl
  obtain ⟨set, hstores, -, heq⟩ := hinv
  rw [hstores.storedValidators_agree.cometbftValidators_eq, heq]
  exact ⟨rfl, CometbftValidators.afterChanges_of_reported⟩

end

end

section

open TestUtils

/-- A validator of the test genesis, or an update of it. -/
def validator (key : Bytes32) (power : ℕ) : ValidatorUpdate :=
  { power := power, verificationKey := key, name := "" }

/-- The validators of the test genesis. -/
def testValidators : List ValidatorUpdate := [validator aliceKey 10, validator bobKey 10]

/-- The test genesis with two validators. -/
def validatorsGenesis : State :=
  State.commit
    { base := final (initChain testGenesisState testValidators "test" Base.empty)
      oracle := Oracle.empty }

set_option maxRecDepth 10000 in
theorem initChain_validatorsGenesis :
    initChain testGenesisState testValidators "test" Base.empty =
      .ok () (final (initChain testGenesisState testValidators "test" Base.empty)) :=
  eq_ok_of_isOk (by decide +kernel)

theorem validatorsGenesis_stores :
    validatorsGenesis.base.Stores (ValidatorSet.newFromUpdates testValidators) ∧
      validatorsGenesis.base.blockValidatorUpdates = ⟨[]⟩ := by
  obtain ⟨hstores, hclear⟩ := initChain_stores initChain_validatorsGenesis
  exact ⟨hstores.congr ⟨rfl, rfl, rfl, rfl, rfl⟩, hclear⟩

/-- A block in which judy removes validators, one in each transaction. -/
def removalBlock (keys : List Bytes32) : Block :=
  block 1 (keys.zipIdx.map fun k => signedTransaction judyKey k.2 (.validatorUpdate (validator k.1 0))) []

/-- The execution of that block. -/
def removalRun (keys : List Bytes32) : EStateM.Result Report State Unit :=
  executeBlock withoutUpgrades (List.Vector.replicate 32 0) (removalBlock keys) validatorsGenesis

set_option maxRecDepth 10000 in
/-- A block that removes one of two validators leaves the other. -/
theorem goesOn_iff_oneOfTwo :
    ∃ s' result, removalRun [aliceKey] = .ok () s' ∧
      s'.base.ephemeral.postTransactionExecutionResult = some result ∧
      CometbftValidators.GoesOn
        (cometbftValidators (ValidatorSet.newFromUpdates testValidators).get)
        result.validatorUpdates := by
  have hrun : removalRun [aliceKey] = .ok () (final (removalRun [aliceKey])) :=
    eq_ok_of_isOk (by decide +kernel)
  obtain ⟨result, hresult, hiff⟩ := goesOn_iff validatorsGenesis_stores.1 validatorsGenesis_stores.2
    (BlockExecution.of_executeBlock hrun)
  have hlayout : withoutUpgrades.upgrades.usesPreAspen (removalBlock [aliceKey]).data.height
      validatorsGenesis.base = true := by decide +kernel
  have hupdates : (removalBlock [aliceKey]).executedUpdates withoutUpgrades
      (List.Vector.replicate 32 0) validatorsGenesis = [validator aliceKey 0] := by decide +kernel
  refine ⟨_, result, hrun, hresult, hiff.mpr ?_⟩
  rw [hlayout, hupdates]
  have hfewer : ((standing [validator aliceKey 0]).filter fun u => u.power = 0).length <
      (ValidatorSet.newFromUpdates testValidators).inner.length := by decide +kernel
  exact Or.inl hfewer

set_option maxRecDepth 10000 in
/-- Two transactions of one block remove the only two validators: CometBFT is left without any. -/
theorem removals_leaveNone :
    ∃ s' result, BlockExecution withoutUpgrades (List.Vector.replicate 32 0)
        (removalBlock [aliceKey, bobKey]) validatorsGenesis s' ∧
      s'.base.ephemeral.postTransactionExecutionResult = some result ∧
      ¬∃ a, (CometbftValidators.applyUpdates
        (cometbftValidators (ValidatorSet.newFromUpdates testValidators).get)
        result.validatorUpdates a).isSome = true := by
  have hrun : removalRun [aliceKey, bobKey] = .ok () (final (removalRun [aliceKey, bobKey])) :=
    eq_ok_of_isOk (by decide +kernel)
  have hexec := BlockExecution.of_executeBlock hrun
  obtain ⟨result, set', hresult, hends⟩ :=
    hexec.validators validatorsGenesis_stores.1 validatorsGenesis_stores.2
  have hupdates : (removalBlock [aliceKey, bobKey]).executedUpdates withoutUpgrades
      (List.Vector.replicate 32 0) validatorsGenesis = [validator aliceKey 0, validator bobKey 0] := by
    decide +kernel
  refine ⟨_, result, hexec, hresult, ?_⟩
  rw [hends.returned, hupdates]
  rintro ⟨a, ha⟩
  have hkeys : (ValidatorSet.newFromUpdates testValidators).inner.map (·.1) =
      [addressBytes aliceKey, addressBytes bobKey] := by decide +kernel
  have hreturned : (ValidatorSet.newFromUpdates [validator aliceKey 0, validator bobKey 0]).toCometbft =
      [{ pubKey := aliceKey, power := 0 }, { pubKey := bobKey, power := 0 }] := by decide +kernel
  rw [hreturned] at ha
  have hboth : CometbftValidators.applyUpdates
      (cometbftValidators (ValidatorSet.newFromUpdates testValidators).get)
      [{ pubKey := aliceKey, power := 0 }, { pubKey := bobKey, power := 0 }] =
        Function.update (Function.update
          (cometbftValidators (ValidatorSet.newFromUpdates testValidators).get)
          (addressBytes aliceKey) none) (addressBytes bobKey) none := rfl
  rw [hboth] at ha
  by_cases hbob : a = addressBytes bobKey
  · rw [hbob, Function.update_self] at ha
    cases ha
  · rw [Function.update_of_ne hbob] at ha
    by_cases halice : a = addressBytes aliceKey
    · rw [halice, Function.update_self] at ha
      cases ha
    · rw [Function.update_of_ne halice, cometbftValidators, Option.isSome_map,
        ValidatorSet.get_isSome, hkeys] at ha
      simp [hbob, halice] at ha

/-- A block without transactions, in which alice misbehaved. -/
def misbehaviorBlock : Block :=
  { block 1 [] [] with
    data :=
      { misbehavior :=
          [{ kind := .duplicateVote
             validatorAddress := addressBytes aliceKey
             validatorPower := 10
             height := 1
             time := 0
             totalVotingPower := 20 }]
        height := 1
        time := 0
        nextValidatorsHash := none
        proposerAddress := judyAddress.bytes } }

/-- The execution of that block. -/
def misbehaviorRun : EStateM.Result Report State Unit :=
  executeBlock withoutUpgrades (List.Vector.replicate 32 0) misbehaviorBlock validatorsGenesis

set_option maxRecDepth 10000 in
theorem misbehaviorRun_eq_ok : misbehaviorRun = .ok () (final misbehaviorRun) :=
  eq_ok_of_isOk (by decide +kernel)

set_option maxRecDepth 10000 in
theorem misbehaviorRun_returns :
    ((final misbehaviorRun).base.ephemeral.postTransactionExecutionResult.map
      fun r => r.validatorUpdates) = some [] := by decide +kernel

/-- What that block tells about the validators. -/
def misbehaviorChange : ValidatorChange :=
  { misbehavior := misbehaviorBlock.data.misbehavior, returned := [] }

/-- The state after that block. -/
def afterMisbehavior : State := ((final misbehaviorRun).putStorageVersionByHeight 1 1).commit

theorem run_afterMisbehavior :
    BlockRun withoutUpgrades testValidators [misbehaviorChange] afterMisbehavior := by
  obtain ⟨result, hresult, hreturned⟩ := Option.map_eq_some_iff.mp misbehaviorRun_returns
  have hfinalizes : Finalizes withoutUpgrades misbehaviorBlock validatorsGenesis result
      afterMisbehavior :=
    Finalizes.executed rfl (BlockExecution.of_executeBlock misbehaviorRun_eq_ok) hresult
  have hgenesis : BlockRun withoutUpgrades testValidators [] validatorsGenesis :=
    BlockRun.genesis initChain_validatorsGenesis
  have hrun := hgenesis.block hfinalizes
  rw [hreturned] at hrun
  exact hrun

set_option maxRecDepth 10000 in
/-- A validator that misbehaved is gone from the store, although no update said so. -/
theorem misbehavior_notReturned :
    BlockRun withoutUpgrades testValidators [misbehaviorChange] afterMisbehavior ∧
      cometbftValidators afterMisbehavior.base.storedValidators ≠
        (cometbftValidators (ValidatorSet.newFromUpdates testValidators).get).afterUpdates
          [misbehaviorChange] := by
  refine ⟨run_afterMisbehavior, fun heq => ?_⟩
  have hstored : afterMisbehavior.base.storedValidators (addressBytes aliceKey) = none := by
    decide +kernel
  have hgenesis : ((ValidatorSet.newFromUpdates testValidators).get (addressBytes aliceKey)).isSome =
      true := by decide +kernel
  have hupdates : (cometbftValidators (ValidatorSet.newFromUpdates testValidators).get).afterUpdates
      [misbehaviorChange] = cometbftValidators (ValidatorSet.newFromUpdates testValidators).get := rfl
  rw [hupdates] at heq
  have hsome := congrFun heq (addressBytes aliceKey)
  unfold cometbftValidators at hsome
  rw [hstored] at hsome
  rw [Option.isSome_iff_ne_none] at hgenesis
  exact hgenesis (Option.map_eq_none_iff.mp hsome.symm)

/-- After a block with a validator that misbehaved, the store has the genesis without it. -/
theorem storedValidators_follow_misbehavior :
    cometbftValidators afterMisbehavior.base.storedValidators =
      (cometbftValidators (ValidatorSet.newFromUpdates testValidators).get).afterChanges
        [misbehaviorChange] :=
  (BlockRun.storedValidators_follow run_afterMisbehavior).1

end

end Astria.Sequencer
