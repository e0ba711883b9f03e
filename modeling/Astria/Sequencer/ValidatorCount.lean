import Astria.Sequencer.Consensus

/-!
# The validator count

Since the Aspen upgrade every validator has a key of its own, and their number is stored next to them, so
that the last one is not removed (`authority/component.rs`, `impls/validator_update.rs`).  The count is
changed in three places, by hand.

Results:
* `Base.Stores.executed`: the count after a validator update;
* `Finalizes.sequencerRun`: a block that is finalized is a run of steps;
* `SequencerStep.counted`, `CountableRun.counted`: what every step, and every run, keeps;
* `validatorCount_eq_entries`: after the upgrade the count is the number of validators, in every state
  of a run in which this number is a `u64`.
-/

namespace Astria.Sequencer

open Astria.Core Astria.Lib Exec

section

variable [ext : External]

/-! ## The entries -/

omit ext in
/-- The addresses under which a validator is stored. -/
def Base.validatorEntries (s : Base) : Set AddressBytes := {a | (s.authority.validators a).isSome = true}

/-- A `u64` can count the stored validators. -/
def Base.Countable (s : Base) : Prop := s.validatorEntries.encard ≤ u64Max

/-- The layout of the upgrade has as many validators as the set that it stores. -/
theorem Base.Stores.encard_entries {s : Base} {set : ValidatorSet} (h : s.Stores set)
    (hpost : s.usePreAspenValidatorUpdates = false) : s.validatorEntries.encard = set.inner.length := by
  unfold Base.validatorEntries
  simp only [h.isSome_eq hpost]
  exact h.wellFormed.sorted.encard_lookup

/-! ## Validator updates -/

/-- An update that is executed leaves a stored set, and a count of all its validators if a `u64` can count
them. -/
theorem Base.Stores.executed {s s' : Base} {set : ValidatorSet} {act : ValidatorUpdate}
    (h : s.Stores set) (hexec : ValidatorUpdate.Executed act s s') :
    ∃ set', s'.Stores set' ∧ (s.CountsAll set → s'.Countable → s'.CountsAll set') := by
  cases hexec with
  | preAspen hpre _ =>
    refine ⟨set, h.addUpdate act, fun _ _ hpost => ?_⟩
    have hpost : s.usePreAspenValidatorUpdates = false := hpost
    rw [hpre] at hpost
    cases hpost
  | @removed count hpost hpower hcount hlt hmember =>
    refine ⟨_, (h.remove hpost hcount hmember).addUpdate act, fun hall _ _ => ?_⟩
    rw [h.isSome_eq hpost] at hmember
    obtain rfl : count = set.inner.length := Option.some.inj (hcount.symm.trans (hall hpost))
    have hlength := h.wellFormed.length_remove act.address
    rw [if_pos hmember] at hlength
    exact congrArg some hlength.symm
  | @updated count hpost hpower hcount hmember =>
    obtain ⟨-, -, n, hn, hle⟩ := h.postAspen hpost
    obtain rfl : count = n := Option.some.inj (hcount.symm.trans hn)
    have hlength := h.wellFormed.length_insert act
    rw [h.isSome_eq hpost] at hmember
    rw [if_pos hmember] at hlength
    have hstores := (h.put hpost act (by omega : count ≤ _)).addUpdate act
    rw [Base.putValidatorCount_self hcount] at hstores
    refine ⟨_, hstores, fun hall _ _ => ?_⟩
    rw [hlength]
    exact hall hpost
  | @added count hpost hpower hcount hmember =>
    obtain ⟨-, -, n, hn, hle⟩ := h.postAspen hpost
    obtain rfl : count = n := Option.some.inj (hcount.symm.trans hn)
    have hlength := h.wellFormed.length_insert act
    rw [h.isSome_eq hpost] at hmember
    rw [hmember] at hlength
    have hlength : (set.insert act).inner.length = set.inner.length + 1 := hlength
    have hle' : saturatingAdd u64Max count 1 ≤ (set.insert act).inner.length := by
      unfold saturatingAdd
      omega
    have hstores := (h.put hpost act hle').addUpdate act
    refine ⟨_, hstores, fun hall hcountable _ => ?_⟩
    obtain rfl : count = set.inner.length := Option.some.inj (hcount.symm.trans (hall hpost))
    -- the count does not saturate, as it can count the validators with the new one
    unfold Base.Countable at hcountable
    rw [hstores.encard_entries hpost, hlength] at hcountable
    have hfits : set.inner.length + 1 ≤ u64Max := by exact_mod_cast hcountable
    show some (saturatingAdd u64Max set.inner.length 1) = some _
    rw [hlength]
    unfold saturatingAdd
    rw [Nat.min_eq_left hfits]

/-! ## Steps -/

/-- The store holds a set of validators and counts all of them, and so may the pending updates. -/
structure Base.Counted (s : Base) : Prop where
  stored : ∃ set, s.Stores set ∧ s.CountsAll set
  pending : ∃ updates : ValidatorSet, updates.WellFormed ∧ s.blockValidatorUpdates = updates.withoutNames

theorem Base.Counted.congr {s s' : Base} (h : s.Counted) (hsame : s.SameValidators s') : s'.Counted := by
  obtain ⟨set, hstores, hall⟩ := h.stored
  refine ⟨⟨set, hstores.congr hsame, hall.congr hsame⟩, ?_⟩
  rw [hsame.updates]
  exact h.pending

/-- A validator update keeps the count. -/
theorem Base.Counted.executed {s s' : Base} {act : ValidatorUpdate} (h : s.Counted)
    (hcountable : s'.Countable) (hexec : ValidatorUpdate.Executed act s s') : s'.Counted := by
  obtain ⟨set, hstores, hall⟩ := h.stored
  obtain ⟨set', hstores', hall'⟩ := hstores.executed hexec
  obtain ⟨updates, hupdates, heq⟩ := h.pending
  have hpending : s'.blockValidatorUpdates = (s.blockValidatorUpdates.insert act).withoutNames := by
    cases hexec <;> rfl
  refine ⟨⟨set', hstores', hall' hall hcountable⟩, _, hupdates.withoutNames.insert act, ?_⟩
  rw [hpending, heq]

/-- An action of a transaction keeps the count. -/
theorem Base.Counted.action {source : AddressBytes} {act : Action} {s s' : State} {u : Unit}
    (h : s.base.Counted) (hcountable : s'.base.Countable)
    (hexec : executeAction source act s = .ok u s') : s'.base.Counted := by
  by_cases hkind : act.kind = .validatorUpdate
  · cases act with
    | validatorUpdate act =>
      rw [executeAction_eq (by rw [hkind]; decide)] at hexec
      simp only [mapErr_eq_ok, bind_eq_ok] at hexec
      obtain ⟨_, t, hact, hfees⟩ := hexec
      obtain ⟨b, hb, rfl⟩ := onBase_eq_ok.mp hact
      obtain ⟨c, hc, rfl⟩ := onBase_eq_ok.mp hfees
      have hpaid : b.SameValidators c :=
        checkAndPayFees_keepsOk fundsWrites_sameValidators transactionWrites_sameValidators hc
      have hcountable' : b.Countable := by
        unfold Base.Countable Base.validatorEntries at hcountable ⊢
        rw [← hpaid.validators]
        exact hcountable
      exact (h.executed hcountable' (ValidatorUpdate.checkAndExecute_executed hb)).congr hpaid
    | _ => cases hkind
  · have hsame : s.base.SameValidators s'.base :=
      executeAction_keeps fundsWrites_sameValidators transactionWrites_sameValidators
        (fun t ht => Action.checkAndExecute_sameValidators hkind ht) hexec
    exact h.congr hsame

variable [UpgradeCodec] [TransactionCodec] [BlockCodec]

/-- One step of a sequencer: a step inside a transaction, the prices of a block, or another part of block
execution. -/
inductive SequencerStep (handler : UpgradesHandler) : State → State → Prop
  | prepare {tx : Transaction} {s : State} {b : Base} :
      prepareTransaction tx (s.withEvents []).base = .ok () b →
      SequencerStep handler s { base := b, oracle := s.oracle }
  | action {source : AddressBytes} {act : Action} {c : TransactionContext} {s s' : State} :
      executeAction source act (s.withContext c) = .ok () s' → SequencerStep handler s s'
  | finish {s : State} (events : List Event) :
      SequencerStep handler s
        { base := { s.base.deleteCurrentTransactionContext with ephemeral.events := events }
          oracle := s.oracle }
  | prices {block : Block} {s s' : State} : AppliesPrices block s s' → SequencerStep handler s s'
  | preExecute {s s' : State} {appHash : Bytes32} {block : BlockData} {hashes : List Bytes32} :
      preExecuteTransactions handler.upgrades appHash block s = .ok hashes s' →
      SequencerStep handler s s'
  | postExecute {s s' : State} {post : PostExecution} :
      postExecuteTransactions handler post s = .ok () s' → SequencerStep handler s s'
  | executionResults (results : List ExecTxResult) (s : State) :
      SequencerStep handler s (s.putExecutionResults results)
  | storageVersion (height version : ℕ) (s : State) :
      SequencerStep handler s (s.putStorageVersionByHeight height version)
  | commit (s : State) : SequencerStep handler s s.commit

variable {handler : UpgradesHandler}

/-- Every step keeps the count. -/
theorem SequencerStep.counted {s s' : State} (h : SequencerStep handler s s') (hs : s.base.Counted)
    (hcountable : s'.base.Countable) : s'.base.Counted := by
  cases h with
  | prepare hprep =>
    have hstart : s.base.SameValidators (s.withEvents []).base := ⟨rfl, rfl, rfl, rfl, rfl⟩
    have hprepared := (prepareTransaction_keepsAny transactionWrites_sameValidators _).of_ok hprep
    exact (hs.congr hstart).congr hprepared
  | @action source act c _ _ hexec =>
    have hcontext : s.base.SameValidators (s.withContext c).base := ⟨rfl, rfl, rfl, rfl, rfl⟩
    exact (hs.congr hcontext).action hcountable hexec
  | prices hprices => exact hs.congr hprices.onlyRecords.sameValidators
  | preExecute hpre =>
    obtain ⟨set, hstores, hall⟩ := hs.stored
    obtain ⟨hstores', -, hpending, hall'⟩ := preExecuteTransactions_stores hstores hpre
    exact ⟨⟨_, hstores', hall' hall⟩, hpending ▸ hs.pending⟩
  | postExecute hpost =>
    obtain ⟨chainId, recipient, returned, b, c, -, -, hend, hstore, rfl⟩ :=
      postExecuteTransactions_eq_ok.mp hpost
    have hevents : s.base.SameValidators (s.withEvents []).base := ⟨rfl, rfl, rfl, rfl, rfl⟩
    have hstart := hs.congr hevents
    obtain ⟨set, hstores, hall⟩ := hstart.stored
    obtain ⟨updates, hupdates, hpending⟩ := hstart.pending
    obtain ⟨-, -, hcleared, set', hstores', hall', -⟩ :=
      endBlock_stores hstores hupdates hpending hend
    have hended : b.Counted := by
      refine ⟨⟨set', hstores', hall' hall⟩, _, ValidatorSet.wellFormed_empty, ?_⟩
      rw [hcleared]
      rfl
    have hkept : b.SameValidators { b with ephemeral.events := [] } := ⟨rfl, rfl, rfl, rfl, rfl⟩
    exact ((hended.congr hkept).congr (storeBlock_result hstore).1).congr ⟨rfl, rfl, rfl, rfl, rfl⟩
  | _ => exact hs.congr ⟨rfl, rfl, rfl, rfl, rfl⟩

/-! ## Runs -/

/-- Any number of steps. -/
abbrev SequencerRun (handler : UpgradesHandler) : State → State → Prop :=
  Relation.ReflTransGen (SequencerStep handler)

theorem Executing.sequencerRun {tx : Transaction} {s t : State} {k : ℕ} (h : Executing tx s k t) :
    SequencerRun handler s t := by
  induction h with
  | start _ hprepare => exact .single (.prepare hprepare)
  | step _ _ hact ih => exact ih.tail (.action hact)

/-- A transaction is a run through its actions if it succeeds, and leaves the state if it fails. -/
theorem SequencerRun.transaction (tx : Transaction) (s : State) :
    SequencerRun handler s (executeTransaction tx s).2 := by
  cases h : executeTransaction tx s with
  | mk result s' =>
    cases result with
    | error e =>
      rw [executeTransaction_error h]
    | ok events =>
      obtain ⟨r, hexecuting, rfl⟩ := executeTransaction_executing h
      exact hexecuting.sequencerRun.tail (.finish s.events)

theorem SequencerRun.transactions (txs : List Transaction) (s : State) :
    SequencerRun handler s (finalizeTransactions txs s).2 := by
  induction txs generalizing s with
  | nil => exact .refl
  | cons tx rest ih =>
    show SequencerRun handler s (finalizeTransactions rest (finalizeTransaction tx s).2).2
    rw [finalizeTransaction_snd]
    exact (SequencerRun.transaction tx s).trans (ih _)

/-- The execution of a block is a run. -/
theorem BlockExecution.sequencerRun {appHash : Bytes32} {block : Block} {s s' : State}
    (h : BlockExecution handler appHash block s s') : SequencerRun handler s s' := by
  obtain ⟨hashes, t, u, hpre, hu, hpost⟩ := h.parts
  have hrun := (Relation.ReflTransGen.single (SequencerStep.preExecute hpre)).trans
    (SequencerRun.transactions block.expanded.userSubmittedTransactions t)
  obtain rfl | rfl := hu
  · exact hrun.tail (.postExecute hpost)
  · exact (hrun.tail (.executionResults _ _)).tail (.postExecute hpost)

/-- So is a block that is finalized and committed. -/
theorem Finalizes.sequencerRun {block : Block} {s s' : State} {result : PostTransactionExecutionResult}
    (h : Finalizes handler block s result s') : SequencerRun handler s s' := by
  cases h with
  | executed hprices hexec _ =>
    have hrun := (Relation.ReflTransGen.single (SequencerStep.prices hprices)).trans hexec.sequencerRun
    exact (hrun.tail (.storageVersion _ _ _)).tail (.commit _)
  | proposed hexec hprices _ =>
    exact ((hexec.sequencerRun.tail (.prices hprices)).tail (.storageVersion _ _ _)).tail (.commit _)

/-- Any number of steps, through states whose validators a `u64` can count. -/
abbrev CountableRun (handler : UpgradesHandler) : State → State → Prop :=
  Relation.ReflTransGen fun s s' => SequencerStep handler s s' ∧ s'.base.Countable

/-- Every run keeps the count. -/
theorem CountableRun.counted {s s' : State} (h : CountableRun handler s s') (hs : s.base.Counted) :
    s'.base.Counted := by
  induction h with
  | refl => exact hs
  | tail _ hstep ih => exact hstep.1.counted ih hstep.2

omit [UpgradeCodec] [TransactionCodec] [BlockCodec] in
theorem initChain_counted {genesis : GenesisAppState} {validators : List ValidatorUpdate}
    {chainId : String} {b : Base} {u : Unit}
    (h : initChain genesis validators chainId Base.empty = .ok u b) : b.Counted := by
  obtain ⟨hstores, hclear⟩ := initChain_stores h
  have hfresh := initChain_fresh h
  have hpre : b.usePreAspenValidatorUpdates = true := by
    unfold Base.usePreAspenValidatorUpdates
    rw [hfresh.2.1]
    rfl
  refine ⟨⟨_, hstores, fun hpost => ?_⟩, _, ValidatorSet.wellFormed_empty, hclear⟩
  rw [hpre] at hpost
  cases hpost

/-- After the upgrade the stored count is the number of stored validators, in every state of every run from
a genesis in which this number is a `u64`. -/
theorem validatorCount_eq_entries {genesis : GenesisAppState} {validators : List ValidatorUpdate}
    {chainId : String} {b : Base} (hgenesis : initChain genesis validators chainId Base.empty = .ok () b)
    {s : State} (hrun : CountableRun handler { base := b, oracle := Oracle.empty } s)
    (hpost : s.base.usePreAspenValidatorUpdates = false) :
    ∃ count, s.base.nonverifiable.validatorCount = some count ∧
      s.base.validatorEntries.encard = count := by
  obtain ⟨set, hstores, hall⟩ := (hrun.counted (initChain_counted hgenesis)).stored
  exact ⟨set.inner.length, hall hpost, hstores.encard_entries hpost⟩

end

section

open TestUtils

/-- A node with the upgrade at the height 1, without currency pairs and markets. -/
def withAspen : UpgradesHandler :=
  { upgrades :=
      { aspen := some
          { activationHeight := 1
            appVersion := 2
            marketMapGenesis :=
              { marketMap := { markets := [] }
                lastUpdated := 0
                marketAuthorities := []
                admin := judyAddress }
            oracleGenesis := { currencyPairGenesis := [], nextId := 0 } } }
    consensusParamsFromCometbft := fun _ => none }

/-- The genesis with alice and bob as validators. -/
def twoValidators : State :=
  { base := final (initChain testGenesisState testValidators "test" Base.empty), oracle := Oracle.empty }

/-- The first block, which brings two pieces of evidence against alice. -/
def doubleEvidence : BlockData :=
  { misbehaviorBlock.data with
    misbehavior := misbehaviorBlock.data.misbehavior ++ misbehaviorBlock.data.misbehavior }

/-- The start of that block. -/
def evidenceRun : EStateM.Result Report State (List Bytes32) :=
  preExecuteTransactions withAspen.upgrades (List.Vector.replicate 32 0) doubleEvidence twoValidators

set_option maxRecDepth 10000 in
/-- The upgrade counts two validators, and alice is counted off once. -/
theorem validatorCount_eq_entries_evidence :
    (final evidenceRun).base.nonverifiable.validatorCount = some 1 ∧
      (final evidenceRun).base.validatorEntries.encard = 1 := by
  have hok : isOk evidenceRun = true := by decide +kernel
  obtain ⟨hashes, hrun⟩ := exists_ok_of_isOk hok
  have hcount : (final evidenceRun).base.nonverifiable.validatorCount = some 1 := by decide +kernel
  have hpost : (final evidenceRun).base.usePreAspenValidatorUpdates = false := by decide +kernel
  have hcountable : (final evidenceRun).base.Countable := by
    obtain ⟨hstores, -⟩ := initChain_stores initChain_validatorsGenesis
    obtain ⟨hstores', -⟩ := preExecuteTransactions_stores hstores hrun
    unfold Base.Countable
    rw [hstores'.encard_entries hpost]
    have hlength : ((ValidatorSet.newFromUpdates testValidators).removeAll
        doubleEvidence.misbehavior).inner.length ≤ u64Max := by decide +kernel
    exact_mod_cast hlength
  have hsteps : CountableRun withAspen twoValidators (final evidenceRun) :=
    .single ⟨.preExecute hrun, hcountable⟩
  obtain ⟨count, hstored, hentries⟩ :=
    validatorCount_eq_entries initChain_validatorsGenesis hsteps hpost
  obtain rfl : 1 = count := Option.some.inj (hcount.symm.trans hstored)
  exact ⟨hcount, hentries⟩

end

end Astria.Sequencer
