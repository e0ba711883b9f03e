import Astria.Sequencer.BlockParts
import Astria.Sequencer.Effects
import Astria.Sequencer.Upgrades

/-!
# Blocks

What happens around the transactions of a block: upgrades and `begin_block` before them,
`end_block` and the storage of the block after them (`app/mod.rs`, `authority/component.rs`).

Every part runs on a delta of its own, so that a part that fails leaves the state as it was.

Results:
* `preExecuteTransactions_sameFunds`: nothing before the transactions touches the funds;
* `postExecuteTransactions_eq_ok`: the end of a block pays the fees and then stores the block;
* `executeBlock_ok`: a block that is executed has run its transactions between the two.
-/

namespace Astria.Sequencer

open Astria.Core Astria.Lib Exec

/-! ## Deltas -/

/-- `App::apply`: a delta that succeeds is applied and its events are taken; one that fails is
dropped. -/
def applyDelta {α : Type} (x : AppM α) : AppM (α × List Event) := fun s =>
  match x (s.withEvents []) with
  | .ok a t => .ok (a, t.events) (t.withEvents s.events)
  | .error e _ => .error e s

theorem applyDelta_eq_ok {α : Type} {x : AppM α} {s s' : State} {r : α × List Event} :
    applyDelta x s = .ok r s' ↔
      ∃ a t, x (s.withEvents []) = .ok a t ∧ r = (a, t.events) ∧ s' = t.withEvents s.events := by
  unfold applyDelta
  cases h : x (s.withEvents []) with
  | ok a t =>
    simp only [EStateM.Result.ok.injEq]
    constructor
    · rintro ⟨rfl, rfl⟩
      exact ⟨a, t, ⟨rfl, rfl⟩, rfl, rfl⟩
    · rintro ⟨a', t', ⟨rfl, rfl⟩, rfl, rfl⟩
      exact ⟨rfl, rfl⟩
  | error e t => simp

/-- A delta of a computation that has no access to the oracle. -/
theorem applyDelta_onBase_eq_ok {α : Type} {x : BaseM α} {s s' : State} {r : α × List Event} :
    applyDelta (onBase x) s = .ok r s' ↔
      ∃ b, x (s.withEvents []).base = .ok r.1 b ∧ r.2 = b.ephemeral.events ∧
        s' = { base := { b with ephemeral.events := s.events }, oracle := s.oracle } := by
  rw [applyDelta_eq_ok]
  constructor
  · rintro ⟨a, t, hx, rfl, rfl⟩
    obtain ⟨b, hb, rfl⟩ := onBase_eq_ok.mp hx
    exact ⟨b, hb, rfl, rfl⟩
  · rintro ⟨b, hb, hevents, rfl⟩
    refine ⟨r.1, _, onBase_eq_ok.mpr ⟨b, hb, rfl⟩, ?_, rfl⟩
    exact Prod.ext rfl hevents

section

variable [ext : External]

/-! ## Before the transactions -/

/-- The removal of misbehaving validators before the Aspen upgrade. -/
def preAspenRemoveMisbehaving (misbehavior : List Misbehavior) : BaseM Unit := do
  let set ← wrapErr "failed getting validator set" (tryReads Base.preAspenGetValidatorSet)
  writes (Base.preAspenPutValidatorSet
    (misbehavior.foldl (fun acc m => acc.remove m.validatorAddress) set))

/-- The removal of one misbehaving validator since the Aspen upgrade: it is counted off only if
there was one to remove. -/
def removeMisbehaving (m : Misbehavior) : BaseM Unit := do
  let removed ← wrapErr "failed to remove validator" (removeValidator m.validatorAddress)
  if removed then do
    let count ← wrapErr "failed to get validator count" (tryReads Base.getValidatorCount)
    writes (Base.putValidatorCount (count - 1))
  else
    pure ()

/-- `AuthorityComponent::begin_block`. -/
def authorityBeginBlock (misbehavior : List Misbehavior) : BaseM Unit := do
  let preAspen ← reads Base.usePreAspenValidatorUpdates
  if preAspen then
    preAspenRemoveMisbehaving misbehavior
  else
    forEach misbehavior removeMisbehaving

/-- `IbcComponent::begin_block`. -/
def ibcBeginBlock (request : BeginBlock) : BaseM Unit :=
  do
  let host ← reads Base.hostInfo
  writeIbc (ext.ibcBeginBlock request host)

/-- `App::begin_block`: the other components do nothing. -/
def beginBlock (request : BeginBlock) : BaseM Unit := do
  writes (Base.putBlockHeight request.block.height)
  writes (Base.putBlockTimestamp request.block.time)
  wrapErr "begin_block failed on AuthorityComponent" (authorityBeginBlock request.block.misbehavior)
  ibcBeginBlock request

/-- `App::pre_execute_transactions` (`app/mod.rs`, lines 974–1055): the hashes of the upgrade's
changes.  A delta in which no upgrade is due is empty, so that it makes no difference that the
source drops it. -/
def preExecuteTransactions [UpgradeCodec] (upgrades : Upgrades) (appHash : Bytes32)
    (block : BlockData) : AppM (List Bytes32) := do
  let (hashes, _) ← wrapErr "failed to execute upgrade"
    (applyDelta (executeUpgradeIfDue upgrades block.height))
  let chainId ← wrapErr "failed to get chain ID from state"
    (onBase (tryReads Base.getChainId))
  let _ ← wrapErr "begin_block failed" (applyDelta (onBase (beginBlock
    { block := block, appHash := appHash, chainId := chainId })))
  pure hashes

/-! ## The transactions -/

/-- `AbciErrorCode::INVALID_NONCE` and `INTERNAL_ERROR`, with their texts. -/
def invalidNonceCode : ℕ := 4

def internalErrorCode : ℕ := 3

section

variable [TransactionCodec]

/-- The result of a transaction that fails in a finalized block: an invalid nonce has a code of
its own. -/
def failedResult (tx : Transaction) (e : Report) : ExecTxResult :=
  if invalidNonce tx.params.nonce ∈ e then
    { code := invalidNonceCode, info := "the provided nonce was invalid", log := displayReport e }
  else
    { code := internalErrorCode, info := "an internal server error occurred", log := displayReport e }

/-- The result of one transaction of a finalized block. -/
def finalizeTransaction (tx : Transaction) (s : State) : ExecTxResult × State :=
  match executeTransaction tx s with
  | (.ok events, s') => ({ events := events }, s')
  | (.error e, s') => (failedResult tx e, s')

theorem finalizeTransaction_snd (tx : Transaction) (s : State) :
    (finalizeTransaction tx s).2 = (executeTransaction tx s).2 := by
  unfold finalizeTransaction
  split <;> rename_i heq <;> rw [heq]

/-- The transactions of a finalized block: one that fails is ignored. -/
def finalizeTransactions : List Transaction → State → List ExecTxResult × State
  | [], s => ([], s)
  | tx :: rest, s =>
    let (result, t) := finalizeTransaction tx s
    let (results, s') := finalizeTransactions rest t
    (result :: results, s')

/-- The transactions of a finalized block, as a computation that cannot fail. -/
def runTransactions (txs : List Transaction) : AppM (List ExecTxResult) := fun s =>
  .ok (finalizeTransactions txs s).1 (finalizeTransactions txs s).2

@[simp] theorem runTransactions_eq_ok {txs : List Transaction} {s s' : State}
    {results : List ExecTxResult} :
    runTransactions txs s = .ok results s' ↔ (results, s') = finalizeTransactions txs s := by
  simp [runTransactions, eq_comm, Prod.ext_iff]

end

/-! ## After the transactions -/

/-- `AuthorityComponent::end_block`: before the Aspen upgrade the updates of the block are applied
to the validator set. -/
def authorityEndBlock : BaseM Unit := do
  let preAspen ← reads Base.usePreAspenValidatorUpdates
  if preAspen then do
    let updates ← reads Base.blockValidatorUpdates
    let set ← wrapErr "failed getting validator set" (tryReads Base.preAspenGetValidatorSet)
    writes (Base.preAspenPutValidatorSet (set.applyUpdates updates))
  else
    pure ()

/-- The fees of the block go to the recipient. -/
def payBlockFees (recipient : AddressBytes) (fees : List Fee) : BaseM Unit :=
  forEach fees fun fee =>
    wrapErr "failed to increase fee recipient balance"
      (increaseBalance recipient fee.asset.toIbcPrefixed fee.amount)

/-- `App::end_block` (`app/mod.rs`, lines 1463–1522): the validator updates of the block. -/
def endBlock (recipient : AddressBytes) : BaseM (List CometbftValidatorUpdate) := do
  wrapErr "end_block failed on AuthorityComponent" authorityEndBlock
  let updates ← reads Base.blockValidatorUpdates
  writes Base.clearBlockValidatorUpdates
  let fees ← reads fun s => s.ephemeral.blockFees
  payBlockFees recipient fees
  pure updates.toCometbft

/-- `put_deposits`: the deposits of every rollup under the block hash. -/
def Base.putDeposits (hash : BlockHash) (s : Base) : Base :=
  { s with
    nonverifiable.deposits := Function.update s.nonverifiable.deposits hash fun id =>
      if s.cachedBlockDeposits id = [] then s.nonverifiable.deposits hash id
      else some (s.cachedBlockDeposits id) }

/-- `put_sequencer_block`. -/
def Base.putSequencerBlock (hash : BlockHash) (block : StoredBlock) (s : Base) : Base :=
  { s with
    nonverifiable.sequencerBlocks :=
      Function.update s.nonverifiable.sequencerBlocks hash (some block)
    nonverifiable.blockHashByHeight :=
      Function.update s.nonverifiable.blockHashByHeight block.height (some hash) }

/-- `object_put(POST_TRANSACTION_EXECUTION_RESULT_KEY, ..)`. -/
def Base.putPostTransactionExecutionResult (result : PostTransactionExecutionResult) (s : Base) :
    Base :=
  { s with ephemeral.postTransactionExecutionResult := some result }

/-- What `post_execute_transactions` is given, besides the hash that it checks first. -/
structure PostExecution where
  blockHash : BlockHash
  height : ℕ
  time : Time
  proposerAddress : AddressBytes
  expandedBlockData : ExpandedBlockData
  txResults : List ExecTxResult

/-- The results of a whole block: those of the injected items come first. -/
def PostExecution.allTxResults (post : PostExecution) : List ExecTxResult :=
  List.replicate post.expandedBlockData.injectedTransactionCount ({} : ExecTxResult) ++
    post.txResults

/-- The second delta of `post_execute_transactions`: the deposits, the block and the result are
stored. -/
def storeBlock [BlockCodec] (handler : UpgradesHandler) (chainId : String) (post : PostExecution)
    (updates : List CometbftValidatorUpdate) (events : List Event) : BaseM Unit := do
  let deposits ← reads fun s => s.ephemeral.deposits
  writes (Base.putDeposits post.blockHash)
  let block ← wrapErr "failed to convert block info and data to SequencerBlock"
    (lift (SequencerBlockBuilder.tryBuild
      { blockHash := post.blockHash
        chainId := chainId
        height := post.height
        time := post.time
        proposerAddress := post.proposerAddress
        expandedBlockData := post.expandedBlockData
        deposits := deposits }))
  writes (Base.putSequencerBlock post.blockHash block)
  let params ← handler.endBlock post.height
  writes (Base.putPostTransactionExecutionResult
    { events := events
      txResults := post.allTxResults
      validatorUpdates := updates
      consensusParamUpdates := params })

/-- `App::post_execute_transactions` (`app/mod.rs`, lines 1104–1199), after the block hash was
checked and the execution state was set. -/
def postExecuteTransactions [BlockCodec] (handler : UpgradesHandler) (post : PostExecution) :
    AppM Unit := do
  let chainId ← wrapErr "failed to get chain ID from state" (onBase (tryReads Base.getChainId))
  let sudoAddress ← wrapErr "failed to get sudo address from state"
    (onBase (tryReads Base.getSudoAddress))
  let (updates, events) ← applyDelta (onBase (endBlock sudoAddress))
  let _ ← applyDelta (onBase (storeBlock handler chainId post updates events))
  pure ()

/-- The end of a block runs `end_block` on a delta with no events, and stores the block on another
one. -/
theorem postExecuteTransactions_eq_ok [BlockCodec] {handler : UpgradesHandler}
    {post : PostExecution} {s s' : State} {u : Unit} :
    postExecuteTransactions handler post s = .ok u s' ↔
      ∃ chainId recipient updates b c, s.base.getChainId = .ok chainId ∧
        s.base.authority.sudoAddress = some recipient ∧
        endBlock recipient (s.withEvents []).base = .ok updates b ∧
        storeBlock handler chainId post updates b.ephemeral.events
          { b with ephemeral.events := [] } = .ok () c ∧
        s' = { base := { c with ephemeral.events := s.events }, oracle := s.oracle } := by
  simp only [postExecuteTransactions, bind_eq_ok, mapErr_eq_ok, pure_eq_ok, onBase_tryReads_eq_ok,
    applyDelta_onBase_eq_ok, Base.getSudoAddress_eq_ok]
  constructor
  · rintro ⟨chainId, _, ⟨hchain, rfl⟩, recipient, _, ⟨hsudo, rfl⟩, ⟨updates, events⟩, _,
      ⟨b, hend, rfl, rfl⟩, _, _, ⟨c, hstore, -, rfl⟩, -, rfl⟩
    exact ⟨chainId, recipient, updates, b, c, hchain, hsudo, hend, hstore, rfl⟩
  · rintro ⟨chainId, recipient, updates, b, c, hchain, hsudo, hend, hstore, rfl⟩
    exact ⟨chainId, s, ⟨hchain, rfl⟩, recipient, s, ⟨hsudo, rfl⟩, (updates, b.ephemeral.events), _,
      ⟨b, hend, rfl, rfl⟩, ((), c.ephemeral.events), _, ⟨c, hstore, rfl, rfl⟩, trivial, rfl⟩

/-! ## Whole blocks -/

/-- `[{..:?}]` of a list of change hashes. -/
def debugChangeHashes (hashes : List Bytes32) : String :=
  "[" ++ ", ".intercalate
    (hashes.map fun h => "ChangeHash(" ++ String.ofList (Base64.encode h.toList) ++ ")") ++ "]"

/-- `ensure_upgrade_change_hashes_as_expected`. -/
def ensureUpgradeChangeHashes (data : ExpandedBlockData) (hashes : List Bytes32) : AppM Unit :=
  ensure (data.upgradeChangeHashes = hashes)
    ["upgrade change hashes (" ++ debugChangeHashes data.upgradeChangeHashes ++
      ") do not match expected (" ++ debugChangeHashes hashes ++ ")"]

/-- A block to execute: its hash, what its execution starts from, and its parsed items. -/
structure Block where
  hash : BlockHash
  data : BlockData
  expanded : ExpandedBlockData

/-- The input of `post_execute_transactions` for a block. -/
def Block.postExecution (block : Block) (results : List ExecTxResult) : PostExecution :=
  { blockHash := block.hash
    height := block.data.height
    time := block.data.time
    proposerAddress := block.data.proposerAddress
    expandedBlockData := block.expanded
    txResults := results }

/-- The execution of a whole block in `finalize_block`, after the prices were applied: the
transactions run between `pre_execute_transactions` and `post_execute_transactions`. -/
def executeBlock [UpgradeCodec] [TransactionCodec] [BlockCodec] (handler : UpgradesHandler)
    (appHash : Bytes32) (block : Block) : AppM Unit := do
  let hashes ← wrapErr "failed to execute block"
    (preExecuteTransactions handler.upgrades appHash block.data)
  ensureUpgradeChangeHashes block.expanded hashes
  let results ← runTransactions block.expanded.userSubmittedTransactions
  wrapErr "failed to run post execute transactions handler"
    (postExecuteTransactions handler (block.postExecution results))

/-! ## The funds around the transactions -/

/-- The funds of the whole state are as they were. -/
def State.SameFunds (s s' : State) : Prop := s.base.SameFunds s'.base

instance : IsPreorder State State.SameFunds where
  refl s := refl_of Base.SameFunds s.base
  trans _ _ _ h h' := trans_of Base.SameFunds h h'

omit ext in
theorem sameFunds_onBase {α : Type} {x : BaseM α} (hx : Keeps Base.SameFunds x) :
    Keeps State.SameFunds (onBase x) := by
  intro s
  have hs := hx s.base
  unfold onBase zoom
  cases h : x s.base <;> rw [h] at hs <;> exact hs

omit ext in
theorem sameFunds_onOracle {α : Type} (x : OracleM α) : Keeps State.SameFunds (onOracle x) := by
  intro s
  unfold onOracle zoom
  cases x s.oracle <;> exact refl_of State.SameFunds s

omit ext in
theorem sameFunds_applyDelta {α : Type} {x : AppM α} (hx : Keeps State.SameFunds x) :
    Keeps State.SameFunds (applyDelta x) := by
  intro s
  have hs := hx (s.withEvents [])
  unfold applyDelta
  cases h : x (s.withEvents []) with
  | ok a t =>
    rw [h] at hs
    exact hs
  | error e t => exact refl_of State.SameFunds s

theorem executeUpgradeIfDue_sameFunds [UpgradeCodec] (upgrades : Upgrades) (height : ℕ) :
    Keeps State.SameFunds (executeUpgradeIfDue upgrades height) := by
  unfold executeUpgradeIfDue
  cases upgrades.upgradeActivatingAtHeight height with
  | none => exact keeps_pure _
  | some aspen =>
    have hchanges : Keeps Base.SameFunds (forEach AspenChange.all fun change =>
        (writes (Base.putUpgradeChangeInfo Aspen.name change.name (aspen.changeInfo change)) :
          BaseM Unit)) := by
      refine Keeps.forEach (fun _ => ?_) _
      exact keeps_writes fun _ => rfl
    have hvalidators : Keeps Base.SameFunds handleAspenUpgrade := by
      unfold handleAspenUpgrade
      refine Keeps.bind (by simp) fun set => Keeps.bind (keeps_writes fun _ => rfl) fun _ => ?_
      refine Keeps.bind (keeps_writes fun _ => rfl) fun _ => Keeps.forEach (fun _ => ?_) _
      exact keeps_writes fun _ => rfl
    change Keeps State.SameFunds aspen.execute
    unfold Aspen.execute
    refine Keeps.bind (sameFunds_onBase hchanges) fun _ => ?_
    refine Keeps.bind (sameFunds_onBase (keeps_writes fun _ => rfl)) fun _ => ?_
    refine Keeps.bind (sameFunds_onOracle _) fun _ => ?_
    exact Keeps.bind (sameFunds_onBase (hvalidators.mapErr _)) fun _ => keeps_pure _

theorem beginBlock_sameFunds (request : BeginBlock) : Keeps Base.SameFunds (beginBlock request) := by
  have hremove (a : AddressBytes) : Keeps Base.SameFunds (removeValidator a) := by
    refine Keeps.bind (by simp) fun _ => Keeps.ite ?_ (by simp)
    exact Keeps.bind (keeps_writes fun _ => rfl) fun _ => by simp
  have hmisbehaving (m : Misbehavior) : Keeps Base.SameFunds (removeMisbehaving m) := by
    refine Keeps.bind ((hremove _).mapErr _) fun _ => Keeps.ite ?_ (by simp)
    exact Keeps.bind (by simp) fun _ => keeps_writes fun _ => rfl
  have hauthority (l : List Misbehavior) : Keeps Base.SameFunds (authorityBeginBlock l) := by
    refine Keeps.bind (by simp) fun _ => Keeps.ite ?_ (Keeps.forEach hmisbehaving l)
    exact Keeps.bind (by simp) fun _ => keeps_writes fun _ => rfl
  refine Keeps.bind (keeps_writes fun _ => rfl) fun _ => Keeps.bind (keeps_writes fun _ => rfl) fun _ => ?_
  exact Keeps.bind ((hauthority _).mapErr _) fun _ => keeps_writes fun _ => rfl

/-- Nothing before the transactions touches the funds. -/
theorem preExecuteTransactions_sameFunds [UpgradeCodec] (upgrades : Upgrades) (appHash : Bytes32)
    (block : BlockData) :
    Keeps State.SameFunds (preExecuteTransactions upgrades appHash block) := by
  refine Keeps.bind
    ((sameFunds_applyDelta (executeUpgradeIfDue_sameFunds upgrades block.height)).mapErr _) fun _ => ?_
  refine Keeps.bind ((sameFunds_onBase (by simp)).mapErr _) fun _ => ?_
  exact Keeps.bind
    ((sameFunds_applyDelta (sameFunds_onBase (beginBlock_sameFunds _))).mapErr _) fun _ => keeps_pure _

omit ext in
theorem authorityEndBlock_sameFunds : Keeps Base.SameFunds authorityEndBlock := by
  refine Keeps.bind (by simp) fun _ => Keeps.ite ?_ (by simp)
  refine Keeps.bind (by simp) fun _ => Keeps.bind (by simp) fun _ => ?_
  exact keeps_writes fun _ => rfl

omit ext in
theorem upgradesEndBlock_sameFunds (handler : UpgradesHandler) (height : ℕ) :
    Keeps Base.SameFunds (handler.endBlock height) := by
  unfold UpgradesHandler.endBlock
  cases handler.upgrades.upgradeActivatingAtHeight height with
  | none => exact keeps_pure _
  | some aspen =>
    exact Keeps.bind (by simp) fun _ => Keeps.bind (keeps_writes fun _ => rfl) fun _ => keeps_pure _

/-- The storage of a block leaves the funds. -/
theorem storeBlock_sameFunds [BlockCodec] (handler : UpgradesHandler) (chainId : String)
    (post : PostExecution) (updates : List CometbftValidatorUpdate) (events : List Event) :
    Keeps Base.SameFunds (storeBlock handler chainId post updates events) := by
  refine Keeps.bind (by simp) fun _ => Keeps.bind (keeps_writes fun _ => rfl) fun _ => ?_
  refine Keeps.bind (by simp) fun _ => Keeps.bind (keeps_writes fun _ => rfl) fun _ => ?_
  exact Keeps.bind (upgradesEndBlock_sameFunds _ _) fun _ => keeps_writes fun _ => rfl

/-- A block that is executed has run its transactions between the two parts around them. -/
theorem executeBlock_ok [UpgradeCodec] [TransactionCodec] [BlockCodec] {handler : UpgradesHandler}
    {appHash : Bytes32} {block : Block} {s s' : State} {u : Unit}
    (h : executeBlock handler appHash block s = .ok u s') :
    ∃ hashes t, preExecuteTransactions handler.upgrades appHash block.data s = .ok hashes t ∧
      postExecuteTransactions handler
        (block.postExecution
          (finalizeTransactions block.expanded.userSubmittedTransactions t).1)
        (finalizeTransactions block.expanded.userSubmittedTransactions t).2 = .ok () s' := by
  simp only [executeBlock, ensureUpgradeChangeHashes, bind_eq_ok, mapErr_eq_ok, ensure_eq_ok,
    runTransactions_eq_ok] at h
  obtain ⟨hashes, t, hpre, _, _, ⟨-, rfl⟩, results, r, hrun, hpost⟩ := h
  refine ⟨hashes, _, hpre, ?_⟩
  rw [← hrun]
  exact hpost

end

end Astria.Sequencer
