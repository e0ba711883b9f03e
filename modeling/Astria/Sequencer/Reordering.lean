import Astria.Lib.Oblivious
import Astria.Sequencer.App

/-!
# The prices and the rest of a block

A node that executes a block as a proposal applies the prices of the block after everything else, and
any other node applies them first (`app/mod.rs`, lines 1228–1311).  The prices use the oracle and nothing
else; the rest of a block uses everything but the oracle, unless the block changes the currency pairs or
an upgrade is due.

Results:
* `usesOracle_applyPricesIfAny`, `usesBase_executeBlock`: what either of them uses;
* `executeBlock_comm_prices`: the two can run in either order;
* `postExecuteTransactions_oblivious`: the end of a block does not see the cached results of its
  transactions.
-/

namespace Astria.Sequencer

open Astria.Core Astria.Lib Exec

/-! ## The two parts of the state -/

/-- The oracle, and all that is not the oracle. -/
def State.parts : Parts State Base Oracle where
  left := State.base
  right := State.oracle
  join b o := { base := b, oracle := o }
  join_left_right _ := rfl
  left_join _ _ := rfl
  right_join _ _ := rfl

/-- `x` does not use the oracle. -/
abbrev UsesBase {α : Type} (x : AppM α) : Prop := State.parts.UsesLeft x

/-- `x` uses nothing but the oracle. -/
abbrev UsesOracle {α : Type} (x : AppM α) : Prop := State.parts.UsesRight x

/-- The transaction leaves the currency pairs as they are. -/
def LeavesCurrencyPairs (tx : Transaction) : Prop :=
  ∀ act ∈ tx.actions.inner, act.kind ≠ .currencyPairsChange

instance (tx : Transaction) : Decidable (LeavesCurrencyPairs tx) :=
  inferInstanceAs (Decidable (∀ act ∈ tx.actions.inner, act.kind ≠ .currencyPairsChange))

theorem usesBase_onBase {α : Type} (x : BaseM α) : UsesBase (onBase x) :=
  fun _ => Oblivious.zoom (Oblivious.id x) (fun _ => rfl) fun _ _ => rfl

theorem usesBase_applyDelta {α : Type} {x : AppM α} (hx : UsesBase x) : UsesBase (applyDelta x) := by
  intro o s
  have hs : x (({ base := s.base, oracle := o } : State).withEvents []) =
      mapState _ (x (s.withEvents [])) := hx o (s.withEvents [])
  change applyDelta x { base := s.base, oracle := o } = mapState _ (applyDelta x s)
  unfold applyDelta
  rw [hs]
  cases x (s.withEvents []) <;> rfl

section

variable [ext : External]

/-! ## What does not use the oracle -/

theorem usesBase_checkAndExecute {act : Action} (h : act.kind ≠ .currencyPairsChange) :
    UsesBase (Action.checkAndExecute act) := by
  cases act with
  | rollupDataSubmission act => exact fun _ => Oblivious.pure ()
  | currencyPairsChange act => exact absurd rfl h
  | _ => exact usesBase_onBase _

theorem usesBase_executeAction {act : Action} (h : act.kind ≠ .currencyPairsChange)
    (source : AddressBytes) : UsesBase (executeAction source act) := by
  intro o
  by_cases hkind : act.kind = .ibcRelay
  · cases act with
    | ibc msg =>
      exact (usesBase_onBase _ o).bind fun _ => (usesBase_checkAndExecute h o).mapErr _
    | _ => cases hkind
  · rw [executeAction_eq hkind]
    exact ((usesBase_checkAndExecute h o).bind fun _ => usesBase_onBase _ o).mapErr _

theorem usesBase_executeActions {acts : List Action} (source : AddressBytes) (id : TransactionId)
    (h : ∀ act ∈ acts, act.kind ≠ .currencyPairsChange) (position : ℕ) :
    UsesBase (executeActions source id acts position) := by
  intro o
  induction acts generalizing position with
  | nil => exact Oblivious.pure ()
  | cons act rest ih =>
    refine (usesBase_onBase _ o).bind fun _ => ?_
    refine (usesBase_executeAction (h act List.mem_cons_self) source o).bind fun _ => ?_
    exact ih (fun act' hmem => h act' (List.mem_cons_of_mem act hmem)) _

section

variable [TransactionCodec]

/-- A transaction that leaves the currency pairs does the same with another oracle, which it leaves. -/
theorem executeTransaction_withOracle {tx : Transaction} (h : LeavesCurrencyPairs tx) (s : State)
    (o : Oracle) :
    executeTransaction tx { base := s.base, oracle := o } =
      ((executeTransaction tx s).1,
        { base := (executeTransaction tx s).2.base, oracle := o }) := by
  have huses : UsesBase (Transaction.checkAndExecute tx) := fun o =>
    (usesBase_onBase _ o).bind fun _ =>
      (usesBase_executeActions (signer tx) (transactionId tx) h 0 o).bind fun _ => usesBase_onBase _ o
  have hrun : Transaction.checkAndExecute tx (({ base := s.base, oracle := o } : State).withEvents []) =
      mapState _ (Transaction.checkAndExecute tx (s.withEvents [])) := huses o (s.withEvents [])
  unfold executeTransaction
  rw [hrun]
  cases Transaction.checkStateless tx with
  | error e => rfl
  | ok u => cases Transaction.checkAndExecute tx (s.withEvents []) <;> rfl

theorem finalizeTransactions_withOracle {txs : List Transaction}
    (h : ∀ tx ∈ txs, LeavesCurrencyPairs tx) (s : State) (o : Oracle) :
    finalizeTransactions txs { base := s.base, oracle := o } =
      ((finalizeTransactions txs s).1,
        { base := (finalizeTransactions txs s).2.base, oracle := o }) := by
  induction txs generalizing s with
  | nil => rfl
  | cons tx rest ih =>
    have hrest := ih (fun tx' hmem => h tx' (List.mem_cons_of_mem tx hmem))
    have hstep : finalizeTransaction tx { base := s.base, oracle := o } =
        ((finalizeTransaction tx s).1, { base := (finalizeTransaction tx s).2.base, oracle := o }) := by
      unfold finalizeTransaction
      rw [executeTransaction_withOracle (h tx List.mem_cons_self)]
      rcases executeTransaction tx s with ⟨_ | _, t⟩ <;> rfl
    rw [finalizeTransactions, hstep]
    dsimp only
    rw [hrest]
    rfl

theorem usesBase_runTransactions {txs : List Transaction}
    (h : ∀ tx ∈ txs, LeavesCurrencyPairs tx) : UsesBase (runTransactions txs) := by
  intro o s
  change runTransactions txs { base := s.base, oracle := o } = _
  unfold runTransactions
  rw [finalizeTransactions_withOracle h]
  rfl

end

theorem usesBase_preExecuteTransactions [UpgradeCodec] {upgrades : Upgrades} {block : BlockData}
    (hdue : upgrades.upgradeActivatingAtHeight block.height = none) (appHash : Bytes32) :
    UsesBase (preExecuteTransactions upgrades appHash block) := by
  have hupgrade : UsesBase (executeUpgradeIfDue upgrades block.height) := by
    unfold executeUpgradeIfDue
    rw [hdue]
    exact fun _ => Oblivious.pure []
  intro o
  refine ((usesBase_applyDelta hupgrade o).mapErr _).bind fun _ => ?_
  refine ((usesBase_onBase _ o).mapErr _).bind fun _ => ?_
  exact ((usesBase_applyDelta (usesBase_onBase _) o).mapErr _).bind fun _ => Oblivious.pure _

theorem usesBase_postExecuteTransactions [BlockCodec] (handler : UpgradesHandler)
    (post : PostExecution) : UsesBase (postExecuteTransactions handler post) := by
  intro o
  refine ((usesBase_onBase _ o).mapErr _).bind fun _ => ?_
  refine ((usesBase_onBase _ o).mapErr _).bind fun _ => ?_
  refine (usesBase_applyDelta (usesBase_onBase _) o).bind fun _ => ?_
  exact (usesBase_applyDelta (usesBase_onBase _) o).bind fun _ => Oblivious.pure ()

/-- A block that carries prices leaves the oracle to them: no upgrade is due, and no transaction changes
the currency pairs. -/
structure LeavesOracle (upgrades : Upgrades) (height : ℕ) (expanded : ExpandedBlockData) : Prop where
  upgrade : upgrades.upgradeActivatingAtHeight height = none
  transactions : ∀ tx ∈ expanded.userSubmittedTransactions, LeavesCurrencyPairs tx

/-- The execution of a block does not use the oracle, if the block leaves it. -/
theorem usesBase_executeBlock [UpgradeCodec] [TransactionCodec] [BlockCodec]
    {handler : UpgradesHandler} {block : Block}
    (h : LeavesOracle handler.upgrades block.data.height block.expanded) (appHash : Bytes32) :
    UsesBase (executeBlock handler appHash block) := by
  intro o
  refine ((usesBase_preExecuteTransactions h.upgrade appHash o).mapErr _).bind fun _ => ?_
  refine (Oblivious.ensure _ _).bind fun _ => ?_
  refine (usesBase_runTransactions h.transactions o).bind fun _ => ?_
  exact (usesBase_postExecuteTransactions handler _ o).mapErr _

/-! ## What uses nothing but the oracle -/

section

variable [BlockCodec]

omit ext in
/-- The prices are recorded as events, and do not see what else the state holds. -/
theorem applyPrices_oblivious (info : ExtendedCommitInfoWithMapping) (time : Time) (height : ℕ)
    (b : Base) :
    Oblivious (fun s : State =>
      { base := { b with ephemeral.events := s.base.ephemeral.events }, oracle := s.oracle })
      (applyPrices info time height) := by
  refine ((Oblivious.lift _).mapErr _).bind fun prices => Oblivious.forEach _ fun price _ => ?_
  refine Oblivious.bind (Oblivious.mapErr ?_ _) fun _ => ?_
  · exact Oblivious.zoom (Oblivious.id _) (fun _ => rfl) fun _ _ => rfl
  · intro s
    rfl

omit ext in
theorem usesOracle_applyPricesIfAny (request : FinalizeBlock) (expanded : ExpandedBlockData) :
    UsesOracle (App.applyPricesIfAny request expanded) := by
  intro b
  unfold App.applyPricesIfAny
  cases expanded.extendedCommitInfo with
  | none => exact Oblivious.pure []
  | some info =>
    refine Oblivious.bind (Oblivious.mapErr ?_ _) fun _ => Oblivious.pure _
    intro s
    have hs := applyPrices_oblivious info.1 request.blockData.time request.blockData.height b
      (s.withEvents [])
    change applyDelta _ { base := b, oracle := s.oracle } = _
    unfold applyDelta
    have hstart : ({ base := b, oracle := s.oracle } : State).withEvents [] =
        { base := { b with ephemeral.events := (s.withEvents []).base.ephemeral.events }
          oracle := (s.withEvents []).oracle } := rfl
    rw [hstart, hs]
    cases applyPrices info.1 request.blockData.time request.blockData.height (s.withEvents []) <;> rfl

/-- The prices of a block can be applied before the block is executed or after it. -/
theorem executeBlock_comm_prices [UpgradeCodec] [TransactionCodec] {handler : UpgradesHandler}
    {block : Block} (h : LeavesOracle handler.upgrades block.data.height block.expanded)
    (appHash : Bytes32) (request : FinalizeBlock) {s s' : State} {events : List Event} :
    (∃ t, executeBlock handler appHash block s = .ok () t ∧
        App.applyPricesIfAny request block.expanded t = .ok events s') ↔
      ∃ t, App.applyPricesIfAny request block.expanded s = .ok events t ∧
        executeBlock handler appHash block t = .ok () s' :=
  (usesBase_executeBlock h appHash).comm (usesOracle_applyPricesIfAny request block.expanded)

end

/-! ## The cached results of the transactions -/

/-- `object_put(EXECUTION_RESULTS_KEY, ..)`. -/
def Base.putExecutionResults (results : List ExecTxResult) (s : Base) : Base :=
  { s with ephemeral.executionResults := some results }

omit ext in
theorem increaseBalance_oblivious (results : List ExecTxResult) (address : AddressBytes)
    (asset : IbcPrefixed) (amount : ℕ) :
    Oblivious (Base.putExecutionResults results) (increaseBalance address asset amount) :=
  Oblivious.bind (Oblivious.reads fun _ => rfl) fun _ =>
    Oblivious.bind (Oblivious.require _ _) fun _ => Oblivious.writes fun _ => rfl

theorem endBlock_oblivious (results : List ExecTxResult) (recipient : AddressBytes) :
    Oblivious (Base.putExecutionResults results) (endBlock recipient) := by
  have hauthority : Oblivious (Base.putExecutionResults results) authorityEndBlock := by
    refine Oblivious.bind (Oblivious.reads fun _ => rfl) fun _ => ?_
    refine Oblivious.ite ?_ (Oblivious.pure ())
    refine Oblivious.bind (Oblivious.reads fun _ => rfl) fun _ => ?_
    refine Oblivious.bind (Oblivious.mapErr (Oblivious.tryReads ?_) _) fun _ => ?_
    · exact fun _ => rfl
    · exact Oblivious.writes fun _ => rfl
  refine Oblivious.bind (hauthority.mapErr _) fun _ => ?_
  refine Oblivious.bind (Oblivious.reads fun _ => rfl) fun _ => ?_
  refine Oblivious.bind (Oblivious.writes fun _ => rfl) fun _ => ?_
  refine Oblivious.bind (Oblivious.reads fun _ => rfl) fun fees => ?_
  refine Oblivious.bind (Oblivious.forEach fees fun fee _ => ?_) fun _ => Oblivious.pure _
  exact (increaseBalance_oblivious results _ _ _).mapErr _

theorem storeBlock_oblivious [BlockCodec] (results : List ExecTxResult) (handler : UpgradesHandler)
    (chainId : String) (post : PostExecution) (updates : List CometbftValidatorUpdate)
    (events : List Event) :
    Oblivious (Base.putExecutionResults results)
      (storeBlock handler chainId post updates events) := by
  have hupgrades : Oblivious (Base.putExecutionResults results) (handler.endBlock post.height) := by
    unfold UpgradesHandler.endBlock
    cases handler.upgrades.upgradeActivatingAtHeight post.height with
    | none => exact Oblivious.pure none
    | some aspen =>
      refine Oblivious.bind (Oblivious.reads fun _ => rfl) fun _ => ?_
      exact Oblivious.bind (Oblivious.writes fun _ => rfl) fun _ => Oblivious.pure _
  refine Oblivious.bind (Oblivious.reads fun _ => rfl) fun _ => ?_
  refine Oblivious.bind (Oblivious.writes fun _ => rfl) fun _ => ?_
  refine Oblivious.bind ((Oblivious.lift _).mapErr _) fun _ => ?_
  refine Oblivious.bind (Oblivious.writes fun _ => rfl) fun _ => ?_
  exact Oblivious.bind hupgrades fun _ => Oblivious.writes fun _ => rfl

omit ext in
theorem onBase_oblivious {α : Type} {results : List ExecTxResult} {x : BaseM α}
    (hx : Oblivious (Base.putExecutionResults results) x) :
    Oblivious (State.putExecutionResults results) (onBase x) :=
  hx.zoom (fun _ => rfl) fun _ _ => rfl

omit ext in
theorem applyDelta_oblivious {α : Type} {results : List ExecTxResult} {x : AppM α}
    (hx : Oblivious (State.putExecutionResults results) x) :
    Oblivious (State.putExecutionResults results) (applyDelta x) := by
  intro s
  have hs := hx (s.withEvents [])
  have hstart : (s.putExecutionResults results).withEvents [] =
      (s.withEvents []).putExecutionResults results := rfl
  unfold applyDelta
  rw [hstart, hs]
  cases x (s.withEvents []) <;> rfl

/-- The end of a block does not see the cached results of its transactions. -/
theorem postExecuteTransactions_oblivious [BlockCodec] (results : List ExecTxResult)
    (handler : UpgradesHandler) (post : PostExecution) :
    Oblivious (State.putExecutionResults results) (postExecuteTransactions handler post) := by
  refine Oblivious.bind ((onBase_oblivious (Oblivious.tryReads fun _ => rfl)).mapErr _)
    fun chainId => ?_
  refine Oblivious.bind ((onBase_oblivious (Oblivious.tryReads fun _ => rfl)).mapErr _)
    fun recipient => ?_
  have hend := applyDelta_oblivious (onBase_oblivious (endBlock_oblivious results recipient))
  refine Oblivious.bind hend fun r => ?_
  have hstore := storeBlock_oblivious results handler chainId post r.1 r.2
  exact Oblivious.bind (applyDelta_oblivious (onBase_oblivious hstore)) fun _ => Oblivious.pure ()

end

end Astria.Sequencer
