import Astria.Lib.IdRegistry
import Astria.Sequencer.Run

/-!
# The price oracle's store

The currency pairs of the oracle (`oracles/price_feed/oracle/state_ext.rs`): the states, both
directions of the ids, the count and the next id are separate keys, which the currency pair
changes, the prices of a block and the genesis of the Aspen upgrade write one by one.

Results:
* `currencyPairsAddition_evolves`, `currencyPairsRemoval_evolves`,
  `putPriceForCurrencyPair_evolves`: what each operation does to a consistent store;
* `OracleGenesis.handleGenesis_consistent`: a valid genesis leaves a consistent store;
* `OracleStep.evolves`, `OracleRun.evolves`: every run keeps the store consistent and gives no id to
  another pair;
* `OracleRun.transaction`: a transaction is such a run, through each of its actions.
-/

namespace Astria.Sequencer

open Astria.Core Astria.Lib Exec

/-! ## Consistent stores -/

namespace Oracle

/-- The pairs that have a state. -/
def storedPairs (o : Oracle) : Set CurrencyPair := {pair | (o.pairState pair).isSome}

/-- The keys of the oracle fit together. -/
structure Consistent (o : Oracle) : Prop where
  count : o.storedPairs.encard = o.getNumCurrencyPairs
  id : ∀ pair, o.pairToId pair = (o.pairState pair).map CurrencyPairState.id
  inverse : ∀ pair id, o.pairToId pair = some id ↔ o.idToPair id = some pair
  below : ∀ pair id, o.pairToId pair = some id → id < o.getNextCurrencyPairId

/-- Both directions of the ids. -/
def registry (o : Oracle) : IdRegistry CurrencyPair :=
  { toId := o.pairToId, toKey := o.idToPair }

/-- The pairs are consistent with a count and a next id that are not stored yet: the loops carry
the two along. -/
structure Holds (o : Oracle) (num nextId : ℕ) : Prop where
  numbers : o.registry.Numbers num nextId
  id : ∀ pair, o.pairToId pair = (o.pairState pair).map CurrencyPairState.id

theorem keys_registry {o : Oracle}
    (h : ∀ pair, o.pairToId pair = (o.pairState pair).map CurrencyPairState.id) :
    o.registry.keys = o.storedPairs := by
  ext pair
  simp [registry, storedPairs, h pair]

theorem consistent_iff {o : Oracle} :
    o.Consistent ↔ o.Holds o.getNumCurrencyPairs o.getNextCurrencyPairId := by
  constructor
  · intro h
    exact ⟨⟨h.inverse, h.below, by rw [keys_registry h.id, h.count]⟩, h.id⟩
  · intro h
    exact ⟨by rw [← keys_registry h.id, h.numbers.count], h.id, h.numbers.inverse, h.numbers.below⟩

/-- A pair without a state has no id. -/
theorem Holds.pairToId_eq_none {o : Oracle} {num nextId : ℕ} {pair : CurrencyPair}
    (h : o.Holds num nextId) (hpair : o.pairState pair = none) : o.pairToId pair = none := by
  rw [h.id, hpair]
  rfl

/-! ### The single writes -/

/-- The state of a pair goes with its id. -/
theorem id_putCurrencyPairState {o : Oracle} {pair : CurrencyPair} {state : CurrencyPairState}
    (h : ∀ p, o.pairToId p = (o.pairState p).map CurrencyPairState.id) (p : CurrencyPair) :
    (o.putCurrencyPairState pair state).pairToId p =
      ((o.putCurrencyPairState pair state).pairState p).map CurrencyPairState.id := by
  by_cases hp : p = pair
  · simp [putCurrencyPairState, hp]
  · simpa [putCurrencyPairState, hp] using h p

/-- A new pair takes an id that is not in use. -/
theorem Holds.putNew {o : Oracle} {num nextId nextId' : ℕ} {pair : CurrencyPair}
    (state : CurrencyPairState) (h : o.Holds num nextId) (hpair : o.pairState pair = none)
    (hid : o.idToPair state.id = none) (hlt : state.id < nextId') (hle : nextId ≤ nextId') :
    (o.putCurrencyPairState pair state).Holds (num + 1) nextId' :=
  ⟨h.numbers.assign (h.pairToId_eq_none hpair) hid hlt hle, id_putCurrencyPairState h.id⟩

/-- A new state of a pair under its own id leaves the ids alone. -/
theorem Holds.registry_putAgain {o : Oracle} {num nextId : ℕ} {pair : CurrencyPair}
    {state : CurrencyPairState} (state' : CurrencyPairState) (h : o.Holds num nextId)
    (hpair : o.pairState pair = some state) (hid : state'.id = state.id) :
    (o.putCurrencyPairState pair state').registry = o.registry := by
  have hpairId : o.registry.toId pair = some state'.id := by
    change o.pairToId pair = _
    rw [h.id, hpair, hid]
    rfl
  exact h.numbers.assign_self hpairId

theorem Holds.putAgain {o : Oracle} {num nextId : ℕ} {pair : CurrencyPair}
    {state state' : CurrencyPairState} (h : o.Holds num nextId)
    (hpair : o.pairState pair = some state) (hid : state'.id = state.id) :
    (o.putCurrencyPairState pair state').Holds num nextId := by
  refine ⟨?_, id_putCurrencyPairState h.id⟩
  rw [h.registry_putAgain state' hpair hid]
  exact h.numbers

theorem Holds.delete {o : Oracle} {num nextId id : ℕ} {pair : CurrencyPair}
    (h : o.Holds num nextId) (hpair : o.pairToId pair = some id) :
    1 ≤ num ∧ (o.deleteCurrencyPair pair id).Holds (num - 1) nextId := by
  obtain ⟨hpos, hnumbers⟩ := h.numbers.release hpair
  refine ⟨hpos, hnumbers, fun p => ?_⟩
  by_cases hp : p = pair
  · simp [deleteCurrencyPair, hp]
  · simpa [deleteCurrencyPair, hp] using h.id p

/-! ### Histories of a store -/

/-- A consistent store stays consistent, and an id that was given to a pair is not given to another
one. -/
def Evolves (o o' : Oracle) : Prop :=
  o.Consistent → o'.Consistent ∧
    o.registry.Succeeds o.getNextCurrencyPairId o'.registry o'.getNextCurrencyPairId

instance : IsPreorder Oracle Evolves where
  refl o h := ⟨h, .refl _ _⟩
  trans o o' o'' h h' := by
    intro ho
    obtain ⟨ho', hsucceeds⟩ := h ho
    obtain ⟨ho'', hsucceeds'⟩ := h' ho'
    exact ⟨ho'', hsucceeds.trans hsucceeds'⟩

end Oracle

/-! ## The operations -/

/-- The loop of an addition: every new pair takes the next id, and the pairs that are there, also
those added by an earlier entry of the same list, are skipped. -/
theorem addCurrencyPairs_holds {pairs : List CurrencyPair} {nextId num : ℕ} {o o' : Oracle}
    {r : ℕ × ℕ} (h : o.Holds num nextId) (hrun : addCurrencyPairs pairs nextId num o = .ok r o') :
    o'.Holds r.2 r.1 ∧ o.registry.Succeeds nextId o'.registry r.1 := by
  induction pairs generalizing nextId num o with
  | nil =>
    rw [addCurrencyPairs, pure_eq_ok] at hrun
    obtain ⟨rfl, rfl⟩ := hrun
    exact ⟨h, .refl _ _⟩
  | cons pair rest ih =>
    simp only [addCurrencyPairs, bind_eq_ok, reads_eq_ok, and_assoc, exists_and_left,
      exists_eq_left] at hrun
    split_ifs at hrun with hpresent
    · exact ih h hrun
    · simp only [bind_eq_ok, writes_eq_ok, require_eq_ok, checkedAdd_eq_some] at hrun
      obtain ⟨_, _, rfl, num', _, ⟨⟨rfl, -⟩, rfl⟩, nextId', _, ⟨⟨rfl, -⟩, rfl⟩, hrun⟩ := hrun
      have hpair : o.pairState pair = none := by simpa using hpresent
      have hfree : o.idToPair nextId = none := h.numbers.toKey_eq_none (le_refl _)
      have hput := h.putNew { price := none, nonce := 0, id := nextId } hpair hfree
        (Nat.lt_succ_self nextId) (Nat.le_succ nextId)
      obtain ⟨hholds, hsucceeds⟩ := ih hput hrun
      exact ⟨hholds, (o.registry.succeeds_assign pair nextId).trans hsucceeds⟩

theorem currencyPairsAddition_evolves {pairs : List CurrencyPair} {o o' : Oracle} {u : Unit}
    (hrun : currencyPairsAddition pairs o = .ok u o') : o.Evolves o' := by
  intro ho
  simp only [currencyPairsAddition, bind_eq_ok, reads_eq_ok, writes_eq_ok, and_assoc,
    exists_and_left, exists_eq_left, exists_const] at hrun
  obtain ⟨r, t, hadd, rfl⟩ := hrun
  obtain ⟨hholds, hsucceeds⟩ := addCurrencyPairs_holds (Oracle.consistent_iff.mp ho) hadd
  exact ⟨Oracle.consistent_iff.mpr ⟨hholds.numbers, hholds.id⟩, hsucceeds⟩

/-- The loop of a removal: a pair that is not there, also one removed by an earlier entry of the same
list, is skipped. -/
theorem removeCurrencyPairs_holds {pairs : List CurrencyPair} {num num' nextId : ℕ} {o o' : Oracle}
    (h : o.Holds num nextId) (hrun : removeCurrencyPairs pairs num o = .ok num' o') :
    o'.Holds num' nextId ∧ o.registry.Succeeds nextId o'.registry nextId ∧
      o'.nextCurrencyPairId = o.nextCurrencyPairId := by
  induction pairs generalizing num o with
  | nil =>
    rw [removeCurrencyPairs, pure_eq_ok] at hrun
    obtain ⟨rfl, rfl⟩ := hrun
    exact ⟨h, .refl _ _, rfl⟩
  | cons pair rest ih =>
    simp only [removeCurrencyPairs, removeCurrencyPair, bind_eq_ok, reads_eq_ok, and_assoc,
      exists_and_left, exists_eq_left] at hrun
    obtain ⟨removed, t, hremove, hrun⟩ := hrun
    cases hid : o.pairToId pair with
    | none =>
      rw [hid] at hremove
      obtain ⟨rfl, rfl⟩ := pure_eq_ok.mp hremove
      exact ih h hrun
    | some id =>
      rw [hid] at hremove
      simp only [bind_eq_ok, writes_eq_ok, pure_eq_ok] at hremove
      obtain ⟨_, _, rfl, rfl, rfl⟩ := hremove
      simp only [if_true, bind_eq_ok, require_eq_ok, checkedSub_eq_some] at hrun
      obtain ⟨num'', _, ⟨⟨-, rfl⟩, rfl⟩, hrun⟩ := hrun
      obtain ⟨-, hdelete⟩ := h.delete hid
      rw [Nat.add_sub_cancel] at hdelete
      obtain ⟨hholds, hsucceeds, hnext⟩ := ih hdelete hrun
      exact ⟨hholds, (o.registry.succeeds_release pair id nextId).trans hsucceeds, hnext⟩

theorem currencyPairsRemoval_evolves {pairs : List CurrencyPair} {o o' : Oracle} {u : Unit}
    (hrun : currencyPairsRemoval pairs o = .ok u o') : o.Evolves o' := by
  intro ho
  simp only [currencyPairsRemoval, bind_eq_ok, reads_eq_ok, ensure_eq_ok, writes_eq_ok, and_assoc,
    exists_and_left, exists_eq_left] at hrun
  obtain ⟨-, _, num', t, hremove, rfl⟩ := hrun
  obtain ⟨hholds, hsucceeds, hnext⟩ :=
    removeCurrencyPairs_holds (Oracle.consistent_iff.mp ho) hremove
  have hnextId : (t.putNumCurrencyPairs num').getNextCurrencyPairId = o.getNextCurrencyPairId := by
    change t.nextCurrencyPairId.getD 0 = _
    rw [hnext]
    rfl
  refine ⟨Oracle.consistent_iff.mpr ?_, ?_⟩
  · rw [hnextId]
    exact ⟨hholds.numbers, hholds.id⟩
  · rw [hnextId]
    exact hsucceeds

theorem putPriceForCurrencyPair_evolves {pair : CurrencyPair} {price : QuotePrice} {o o' : Oracle}
    {u : Unit} (hrun : putPriceForCurrencyPair pair price o = .ok u o') : o.Evolves o' := by
  intro ho
  simp only [putPriceForCurrencyPair, bind_eq_ok, reads_eq_ok, require_eq_ok, writes_eq_ok,
    and_assoc, exists_and_left, exists_eq_left] at hrun
  obtain ⟨state, hstate, nonce, -, rfl⟩ := hrun
  have hholds := Oracle.consistent_iff.mp ho
  have hregistry := hholds.registry_putAgain { state with price := some price, nonce := nonce }
    hstate rfl
  refine ⟨Oracle.consistent_iff.mpr (hholds.putAgain hstate rfl), ?_⟩
  rw [hregistry]
  exact .refl _ _

/-! ## Genesis -/

/-- A genesis as the upgrade file means it: every pair and every id occurs once, and the next id is
not in use. -/
structure OracleGenesis.Valid (genesis : OracleGenesis) : Prop where
  pairs : (genesis.currencyPairGenesis.map CurrencyPairGenesis.currencyPair).Nodup
  ids : (genesis.currencyPairGenesis.map CurrencyPairGenesis.id).Nodup
  below : ∀ pair ∈ genesis.currencyPairGenesis, pair.id < genesis.nextId

/-- The loop of the genesis over pairs that are not stored yet. -/
theorem putGenesisPairs_holds {pairs : List CurrencyPairGenesis} {num nextId : ℕ} {o o' : Oracle}
    {u : Unit} (h : o.Holds num nextId)
    (hpairs : (pairs.map CurrencyPairGenesis.currencyPair).Nodup)
    (hids : (pairs.map CurrencyPairGenesis.id).Nodup) (hbelow : ∀ p ∈ pairs, p.id < nextId)
    (hnew : ∀ p ∈ pairs, o.pairState p.currencyPair = none ∧ o.idToPair p.id = none)
    (hrun : forEach pairs (fun pair =>
      (writes (Oracle.putCurrencyPairState pair.currencyPair pair.state) : OracleM Unit)) o =
        .ok u o') : o'.Holds (num + pairs.length) nextId := by
  induction pairs generalizing num o with
  | nil =>
    rw [forEach_nil_eq_ok] at hrun
    exact hrun ▸ h
  | cons pair rest ih =>
    simp only [forEach_cons_eq_ok, writes_eq_ok, exists_eq_left] at hrun
    simp only [List.map_cons, List.nodup_cons, List.mem_map, not_exists, not_and] at hpairs hids
    obtain ⟨hpair, hid⟩ := hnew pair List.mem_cons_self
    have hput := h.putNew pair.state hpair hid (hbelow pair List.mem_cons_self)
      (le_refl nextId)
    have hrest : ∀ p ∈ rest,
        (o.putCurrencyPairState pair.currencyPair pair.state).pairState p.currencyPair = none ∧
          (o.putCurrencyPairState pair.currencyPair pair.state).idToPair p.id = none := by
      intro p hp
      have hne : p.currencyPair ≠ pair.currencyPair := hpairs.1 p hp
      have hne' : p.id ≠ pair.state.id := hids.1 p hp
      have hp' := hnew p (List.mem_cons_of_mem _ hp)
      simpa [Oracle.putCurrencyPairState, hne, hne'] using hp'
    have := ih hput hpairs.2 hids.2 (fun p hp => hbelow p (List.mem_cons_of_mem _ hp)) hrest hrun
    rwa [List.length_cons, show num + (rest.length + 1) = num + 1 + rest.length by omega]

theorem OracleGenesis.handleGenesis_consistent {genesis : OracleGenesis} (hvalid : genesis.Valid)
    {o : Oracle} {u : Unit} (hrun : genesis.handleGenesis Oracle.empty = .ok u o) :
    o.Consistent := by
  simp only [OracleGenesis.handleGenesis, bind_eq_ok, writes_eq_ok] at hrun
  obtain ⟨_, t, hpairs, _, _, rfl, rfl⟩ := hrun
  have hempty : Oracle.empty.Holds 0 genesis.nextId :=
    ⟨IdRegistry.numbers_empty _, fun _ => rfl⟩
  have hholds := putGenesisPairs_holds hempty hvalid.pairs hvalid.ids hvalid.below
    (fun _ _ => ⟨rfl, rfl⟩) hpairs
  rw [Nat.zero_add] at hholds
  exact Oracle.consistent_iff.mpr ⟨hholds.numbers, hholds.id⟩

/-! ## Actions and prices -/

theorem onOracle_eq_ok {α : Type} {x : OracleM α} {s s' : State} {a : α} :
    onOracle x s = .ok a s' ↔ ∃ o, x s.oracle = .ok a o ∧ s' = { s with oracle := o } :=
  zoom_eq_ok

theorem onBase_oracle {α : Type} {x : BaseM α} {s s' : State} {a : α} (h : onBase x s = .ok a s') :
    s'.oracle = s.oracle := by
  obtain ⟨b, -, rfl⟩ := onBase_eq_ok.mp h
  rfl

section

variable [ext : External]

/-- Only a change of currency pairs touches the oracle. -/
theorem Action.checkAndExecute_evolves {act : Action} {s s' : State} {u : Unit}
    (h : Action.checkAndExecute act s = .ok u s') : s.oracle.Evolves s'.oracle := by
  cases act with
  | rollupDataSubmission act =>
    obtain ⟨-, rfl⟩ := pure_eq_ok.mp h
    exact refl_of Oracle.Evolves _
  | currencyPairsChange act =>
    simp only [Action.checkAndExecute, CurrencyPairsChange.checkAndExecute, bind_eq_ok] at h
    obtain ⟨_, t, hsudo, h⟩ := h
    rw [← onBase_oracle hsudo]
    cases act with
    | addition pairs =>
      obtain ⟨o, hrun, rfl⟩ := onOracle_eq_ok.mp h
      exact currencyPairsAddition_evolves hrun
    | removal pairs =>
      obtain ⟨o, hrun, rfl⟩ := onOracle_eq_ok.mp h
      exact currencyPairsRemoval_evolves hrun
  | _ =>
    rw [onBase_oracle h]
    exact refl_of Oracle.Evolves _

theorem executeAction_evolves {source : AddressBytes} {act : Action} {s s' : State} {u : Unit}
    {c : TransactionContext} (h : executeAction source act (s.withContext c) = .ok u s') :
    s.oracle.Evolves s'.oracle := by
  obtain ⟨t, hact, -, horacle⟩ := executeAction_ok (c := c) rfl h
  have hevolves := Action.checkAndExecute_evolves hact
  rw [horacle]
  exact hevolves

omit ext in
/-- The prices of a block. -/
theorem applyPrices_evolves [BlockCodec] {info : ExtendedCommitInfoWithMapping}
    {time : Time} {height : ℕ} {s s' : State} {u : Unit}
    (h : applyPrices info time height s = .ok u s') : s.oracle.Evolves s'.oracle := by
  simp only [applyPrices, bind_eq_ok, mapErr_eq_ok, lift_eq_ok] at h
  obtain ⟨prices, t₀, ⟨-, ht₀⟩, hprices⟩ := h
  rw [ht₀] at hprices
  refine forEach_invariant (I := fun t => s.oracle.Evolves t.oracle) (fun price _ t t' ht hput => ?_)
    (refl_of Oracle.Evolves _) hprices
  simp only [putPrice, bind_eq_ok, mapErr_eq_ok] at hput
  obtain ⟨_, r, hput, hrecord⟩ := hput
  obtain ⟨o, hrun, rfl⟩ := onOracle_eq_ok.mp hput
  rw [onBase_oracle hrecord]
  exact trans_of Oracle.Evolves ht (putPriceForCurrencyPair_evolves hrun)

end

/-! ## Runs -/

section

variable [ext : External] [UpgradeCodec] [TransactionCodec] [BlockCodec]

/-- One step of a sequencer on which the oracle's genesis has been executed: a step inside a
transaction, the prices of a block, or another part of block execution. -/
inductive OracleStep (handler : UpgradesHandler) : State → State → Prop
  | prepare {tx : Transaction} {s : State} {b : Base} :
      prepareTransaction tx (s.withEvents []).base = .ok () b →
      OracleStep handler s { base := b, oracle := s.oracle }
  | action {source : AddressBytes} {act : Action} {c : TransactionContext} {s s' : State} :
      executeAction source act (s.withContext c) = .ok () s' → OracleStep handler s s'
  | finish {s : State} (events : List Event) :
      OracleStep handler s
        { base := { s.base.deleteCurrentTransactionContext with ephemeral.events := events }
          oracle := s.oracle }
  | prices {s s' : State} {info : ExtendedCommitInfoWithMapping} {time : Time} {height : ℕ}
      {r : Unit × List Event} : applyDelta (applyPrices info time height) s = .ok r s' →
      OracleStep handler s s'
  | preExecute {s s' : State} {appHash : Bytes32} {block : BlockData} {hashes : List Bytes32} :
      handler.upgrades.upgradeActivatingAtHeight block.height = none →
      preExecuteTransactions handler.upgrades appHash block s = .ok hashes s' →
      OracleStep handler s s'
  | postExecute {s s' : State} {post : PostExecution} :
      postExecuteTransactions handler post s = .ok () s' → OracleStep handler s s'
  | executionResults (results : List ExecTxResult) (s : State) :
      OracleStep handler s (s.putExecutionResults results)
  | storageVersion (height version : ℕ) (s : State) :
      OracleStep handler s (s.putStorageVersionByHeight height version)
  | commit (s : State) : OracleStep handler s s.commit

/-- Any number of steps. -/
abbrev OracleRun (handler : UpgradesHandler) : State → State → Prop :=
  Relation.ReflTransGen (OracleStep handler)

variable {handler : UpgradesHandler}

theorem Executing.oracleRun {tx : Transaction} {s t : State} {k : ℕ} (h : Executing tx s k t) :
    OracleRun handler s t := by
  induction h with
  | start hless hprepare => exact .single (.prepare hprepare)
  | step _ _ hact ih => exact ih.tail (.action hact)

/-- A transaction is a run through its actions if it succeeds, and leaves the state if it fails. -/
theorem OracleRun.transaction (tx : Transaction) (s : State) :
    OracleRun handler s (executeTransaction tx s).2 := by
  cases h : executeTransaction tx s with
  | mk result s' =>
    cases result with
    | error e =>
      rw [executeTransaction_error h]
    | ok events =>
      obtain ⟨r, hexecuting, rfl⟩ := executeTransaction_executing h
      exact hexecuting.oracleRun.tail (.finish s.events)

omit [TransactionCodec] [BlockCodec] in
/-- Before and after the upgrade `pre_execute_transactions` leaves the oracle alone. -/
theorem preExecuteTransactions_oracle {s s' : State} {appHash : Bytes32} {block : BlockData}
    {hashes : List Bytes32}
    (hdue : handler.upgrades.upgradeActivatingAtHeight block.height = none)
    (h : preExecuteTransactions handler.upgrades appHash block s = .ok hashes s') :
    s'.oracle = s.oracle := by
  simp only [preExecuteTransactions, executeUpgradeIfDue, hdue, bind_eq_ok, mapErr_eq_ok,
    applyDelta_onBase_eq_ok, pure_eq_ok] at h
  obtain ⟨r, t, hupgrade, chainId, t', hchain, _, _, ⟨b, -, -, rfl⟩, -, rfl⟩ := h
  obtain ⟨_, p, hpure, -, rfl⟩ := applyDelta_eq_ok.mp hupgrade
  obtain ⟨-, rfl⟩ := pure_eq_ok.mp hpure
  have hsame := onBase_oracle hchain
  exact hsame

theorem OracleStep.evolves {s s' : State} (h : OracleStep handler s s') :
    s.oracle.Evolves s'.oracle := by
  cases h with
  | action hact => exact executeAction_evolves hact
  | prices hprices =>
    obtain ⟨_, t, happly, -, rfl⟩ := applyDelta_eq_ok.mp hprices
    have hevolves := applyPrices_evolves happly
    exact hevolves
  | preExecute hdue hpre =>
    rw [preExecuteTransactions_oracle hdue hpre]
    exact refl_of Oracle.Evolves _
  | postExecute hpost =>
    obtain ⟨_, _, _, _, _, -, -, -, -, rfl⟩ := postExecuteTransactions_eq_ok.mp hpost
    exact refl_of Oracle.Evolves _
  | _ => exact refl_of Oracle.Evolves _

theorem OracleRun.evolves {s s' : State} (h : OracleRun handler s s') :
    s.oracle.Evolves s'.oracle := by
  induction h with
  | refl => exact refl_of Oracle.Evolves _
  | tail _ hstep ih => exact trans_of Oracle.Evolves ih hstep.evolves

/-- After a valid genesis the store is consistent in every state of every run, and an id that
belongs to a pair in one state belongs to no other pair in a later one. -/
theorem oracle_consistent {genesis : OracleGenesis} (hvalid : genesis.Valid) {s₀ s₁ s₂ : State}
    (hgenesis : genesis.handleGenesis Oracle.empty = .ok () s₀.oracle)
    (hrun : OracleRun handler s₀ s₁) (hlater : OracleRun handler s₁ s₂) :
    s₂.oracle.Consistent ∧ ∀ id pair pair', s₁.oracle.idToPair id = some pair →
      s₂.oracle.idToPair id = some pair' → pair = pair' := by
  have h₀ := OracleGenesis.handleGenesis_consistent hvalid hgenesis
  obtain ⟨h₁, -⟩ := hrun.evolves h₀
  obtain ⟨h₂, hsucceeds⟩ := hlater.evolves h₁
  refine ⟨h₂, fun id pair pair' hid hid' => ?_⟩
  exact hsucceeds.key_eq (Oracle.consistent_iff.mp h₁).numbers hid hid'

end

/-! ## A run of the test genesis -/

section

open TestUtils

/-- A pair against the dollar. -/
def usdPair (base : String) (h : isCurrency base = true) : CurrencyPair :=
  { base := base, quote := "USD", base_valid := h, quote_valid := isCurrency_usd }

/-- `oracle_genesis`: two pairs, with the ids 0 and 1. -/
def testOracleGenesis : OracleGenesis :=
  { currencyPairGenesis :=
      [{ currencyPair := usdPair "BTC" isCurrency_btc
         currencyPairPrice :=
          some { price := 5834065777, blockTimestamp := 1720122395000000000, blockHeight := 0 }
         id := 0
         nonce := 0 },
       { currencyPair := usdPair "ETH" isCurrency_eth
         currencyPairPrice :=
          some { price := 3138872234, blockTimestamp := 1720122395000000000, blockHeight := 0 }
         id := 1
         nonce := 0 }]
    nextId := 2 }

theorem testOracleGenesis_valid : testOracleGenesis.Valid :=
  ⟨by decide, by decide, by decide⟩

/-- The test genesis with the genesis of the oracle. -/
def oracleGenesisState : State :=
  { genesis with oracle := Exec.final (testOracleGenesis.handleGenesis Oracle.empty) }

set_option maxRecDepth 10000 in
/-- A pair with the id 0 is removed, and another one is added, which gets the id 2. -/
theorem oracle_consistent_changes :
    let s₂ := after (signedTransaction judyKey 1
        (.currencyPairsChange (.addition [usdPair "SOL" (by decide), usdPair "ETH" (by decide)])))
      (after (signedTransaction judyKey 0
        (.currencyPairsChange (.removal [usdPair "BTC" (by decide), usdPair "BTC" (by decide)])))
        oracleGenesisState)
    s₂.oracle.idToPair 2 = some (usdPair "SOL" (by decide)) ∧ s₂.oracle.Consistent ∧
      ∀ id pair pair', oracleGenesisState.oracle.idToPair id = some pair →
        s₂.oracle.idToPair id = some pair' → pair = pair' := by
  intro s₂
  have hrun : OracleRun withoutUpgrades oracleGenesisState s₂ :=
    (OracleRun.transaction _ _).trans (OracleRun.transaction _ _)
  exact ⟨by decide +kernel, oracle_consistent testOracleGenesis_valid rfl .refl hrun⟩

end

end Astria.Sequencer
