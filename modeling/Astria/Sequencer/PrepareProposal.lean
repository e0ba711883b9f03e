import Astria.Sequencer.ExtendedCommit
import Astria.Sequencer.Proposal

/-!
# Prepared proposals

What `prepare_proposal` puts into a block (`app/mod.rs`, lines 363–490), and that the checks that
`process_proposal` makes of the transactions stop none of them.

The proposer's loop is described by `Fills`: the sizes are those of what was included so far, and executing
that alone leads to the state of the loop.

Results:
* `Proposal.checksAndTxExecution_prepare`: a transaction ends the loop, is passed over, fails, or is
  included;
* `Fills.executeAll`: the proposer's loop never fails, and fills the block;
* `processProposalTxExecution_eq`: a validator runs a block that keeps to the limits as if there were no
  checks;
* `prepareProposal_fits`: a proposal that is returned keeps to the limits, with its injected items.
-/

namespace Astria.Sequencer

open Astria.Core Astria.Lib Exec

section

variable {parkedMaxTxCount : ℕ} [ext : External] [codec : TransactionCodec]

/-! ## Filling a block -/

/-- The result of a transaction that has to succeed. -/
def executeOrFail (tx : Transaction) : AppM ExecTxResult := fun s =>
  match executeTransaction tx s with
  | (.ok events, s') => .ok { events := events } s'
  | (.error e, s') => .error ("transaction failed to execute" :: e) s'

/-- Transactions that have to succeed, without any check of the block. -/
def executeTransactions : List Transaction → AppM (List ExecTxResult)
  | [] => pure []
  | tx :: rest => do
    let result ← executeOrFail tx
    let results ← executeTransactions rest
    pure (result :: results)

theorem executeTransactions_append {txs txs' : List Transaction} {results results' : List ExecTxResult}
    {s t s' : State} (h : executeTransactions txs s = .ok results t)
    (h' : executeTransactions txs' t = .ok results' s') :
    executeTransactions (txs ++ txs') s = .ok (results ++ results') s' := by
  induction txs generalizing s results with
  | nil =>
    obtain ⟨rfl, rfl⟩ := pure_eq_ok.mp h
    exact h'
  | cons tx txs ih =>
    simp only [executeTransactions, bind_eq_ok, pure_eq_ok] at h
    obtain ⟨result, r, htx, rest, _, hrest, rfl, rfl⟩ := h
    simp only [List.cons_append, executeTransactions, bind_eq_ok, pure_eq_ok]
    exact ⟨result, r, htx, rest ++ results', s', ih hrest, rfl, rfl⟩

namespace Proposal

variable {tx : Transaction} {info : Proposal parkedMaxTxCount} {p : PrepareInfo parkedMaxTxCount}

/-- One more transaction is counted. -/
def counted (tx : Transaction) (result : ExecTxResult) (c : BlockSizeConstraints)
    (info : Proposal parkedMaxTxCount) : Proposal parkedMaxTxCount where
  blockSizeConstraints := c
  executionResults := info.executionResults ++ [result]
  currentTxGroup := tx.group
  prepare := info.prepare.map (PrepareInfo.push tx)

/-- Where there is space for it, a transaction that was executed is counted. -/
theorem record_ok
    (hbytes : info.blockSizeConstraints.currentSizeSequencer + sequenceDataBytes tx ≤
      info.blockSizeConstraints.maxSizeSequencer)
    (hsize : info.blockSizeConstraints.currentSizeCometbft + encodedLen tx ≤
      info.blockSizeConstraints.maxSizeCometbft) :
    ∃ c, BlockSizeConstraints.Grows (rollupDataBytes [tx]) (encodedLen tx)
        info.blockSizeConstraints c ∧ ∀ events s,
      info.record tx (.ok events) s =
        .ok
          { info with
            blockSizeConstraints := c
            executionResults := info.executionResults ++ [{ events := events }]
            prepare := info.prepare.map (PrepareInfo.push tx) } s := by
  obtain ⟨c₁, c₂, h₁, h₂, hgrows⟩ := BlockSizeConstraints.exists_checkedAdds hbytes hsize
  have hlt : sequenceDataBytes tx < u64Max := by
    have hmax := info.blockSizeConstraints.maxSizeSequencer_lt
    omega
  rw [sequenceDataBytes_of_lt hlt] at hgrows
  refine ⟨c₂, hgrows, fun events s => ?_⟩
  rw [record, bind_of_ok (mapErr_eq_ok.mpr (lift_eq_ok.mpr ⟨h₁, rfl⟩)),
    bind_of_ok (mapErr_eq_ok.mpr (lift_eq_ok.mpr ⟨h₂, rfl⟩))]
  rfl

/-- The proposer's step: the transaction ends the loop, is passed over, fails, or is included. -/
theorem checksAndTxExecution_prepare (tx : Transaction) (hp : info.prepare = some p) (s : State) :
    (info.blockSizeConstraints.cometbftHasSpace (encodedLen tx) = false ∧
      info.checksAndTxExecution tx s = .ok (.break, { info with prepare := some p.exclude }) s) ∨
    ((info.blockSizeConstraints.sequencerHasSpace (sequenceDataBytes tx) = false ∨
        info.currentTxGroup.rank < tx.group.rank) ∧
      info.checksAndTxExecution tx s = .ok (.continue, { info with prepare := some p.exclude }) s) ∨
    (tx.group.rank ≤ info.currentTxGroup.rank ∧ ∃ e, executeTransaction tx s = (.error e, s) ∧
      info.checksAndTxExecution tx s =
        .ok (.continue,
          { info with currentTxGroup := tx.group, prepare := some (p.executionFailed tx e) }) s) ∨
    (tx.group.rank ≤ info.currentTxGroup.rank ∧
      ∃ events s' c, executeTransaction tx s = (.ok events, s') ∧
        BlockSizeConstraints.Grows (rollupDataBytes [tx]) (encodedLen tx)
          info.blockSizeConstraints c ∧
        info.checksAndTxExecution tx s =
          .ok (.continue, info.counted tx { events := events } c) s') := by
  unfold checksAndTxExecution
  rw [hp]
  cases hcometbft : info.blockSizeConstraints.cometbftHasSpace (encodedLen tx) with
  | false => exact Or.inl ⟨rfl, rfl⟩
  | true =>
  dsimp only
  cases hsequencer : info.blockSizeConstraints.sequencerHasSpace (sequenceDataBytes tx) with
  | false =>
    refine Or.inr (Or.inl ⟨Or.inl rfl, ?_⟩)
    rw [if_pos rfl, refuse, hp]
    rfl
  | true =>
  rw [if_neg Bool.noConfusion]
  by_cases hgroup : info.currentTxGroup.rank < tx.group.rank
  · refine Or.inr (Or.inl ⟨Or.inr hgroup, ?_⟩)
    rw [if_pos hgroup, refuse, hp]
    rfl
  rw [if_neg hgroup]
  have hle : tx.group.rank ≤ info.currentTxGroup.rank := Nat.le_of_not_lt hgroup
  cases hexec : executeTransaction tx s with
  | mk result s' =>
  cases result with
  | error e =>
    obtain rfl := executeTransaction_error hexec
    refine Or.inr (Or.inr (Or.inl ⟨hle, e, rfl, ?_⟩))
    have hrun : runTransaction tx s' = .ok (.error e) s' := by
      unfold runTransaction
      rw [hexec]
    rw [bind_of_ok hrun, record, hp]
    rfl
  | ok events =>
    obtain ⟨c, hgrows, hrecord⟩ := record_ok
      (BlockSizeConstraints.sequencerHasSpace_iff.mp hsequencer)
      (BlockSizeConstraints.cometbftHasSpace_iff.mp hcometbft)
    refine Or.inr (Or.inr (Or.inr ⟨hle, events, s', c, rfl, hgrows, ?_⟩))
    have hrun : runTransaction tx s = .ok (.ok events) s' := by
      unfold runTransaction
      rw [hexec]
    rw [bind_of_ok hrun, bind_of_ok (hrecord events s')]
    rfl

end Proposal

@[simp] theorem PrepareInfo.executionFailed_included (tx : Transaction) (e : Report)
    (p : PrepareInfo parkedMaxTxCount) :
    (p.executionFailed tx e).validatedTxs = p.validatedTxs ∧
      (p.executionFailed tx e).includedSignedTxs = p.includedSignedTxs := by
  unfold PrepareInfo.executionFailed
  split_ifs <;> exact ⟨rfl, rfl⟩

omit ext in
theorem encodedBytes_append (txs txs' : List Transaction) :
    encodedBytes (txs ++ txs') = encodedBytes txs + encodedBytes txs' := by
  simp [encodedBytes]

/-- A block that is filled from `start` on a state: the sizes have grown by what is included, the groups
do not increase, none of them is below the current one, and executing what is included leads from the
first state to the current one. -/
structure Fills (start : BlockSizeConstraints) (s₀ : State) (info : Proposal parkedMaxTxCount)
    (p : PrepareInfo parkedMaxTxCount) (s : State) : Prop where
  prepare : info.prepare = some p
  validated : p.validatedTxs = p.includedSignedTxs.map codec.encodeTransaction
  grows : BlockSizeConstraints.Grows (rollupDataBytes p.includedSignedTxs)
    (encodedBytes p.includedSignedTxs) start info.blockSizeConstraints
  groups : GroupsDescend p.includedSignedTxs
  group_le : ∀ tx ∈ p.includedSignedTxs, info.currentTxGroup.rank ≤ tx.group.rank
  executes : executeTransactions p.includedSignedTxs s₀ = .ok info.executionResults s

namespace Fills

variable {start : BlockSizeConstraints} {s₀ s s' : State} {info : Proposal parkedMaxTxCount}
  {p : PrepareInfo parkedMaxTxCount} {tx : Transaction}

/-- Nothing is included, and the current group does not go up. -/
theorem skip (h : Fills start s₀ info p s) (p' : PrepareInfo parkedMaxTxCount)
    (hsame : p'.validatedTxs = p.validatedTxs ∧ p'.includedSignedTxs = p.includedSignedTxs)
    {group : Group} (hgroup : group.rank ≤ info.currentTxGroup.rank) :
    Fills start s₀ { info with currentTxGroup := group, prepare := some p' } p' s := by
  obtain ⟨hvalidated, hincluded⟩ := hsame
  refine ⟨rfl, ?_, ?_, ?_, ?_, ?_⟩
  · rw [hvalidated, hincluded, h.validated]
  · rw [hincluded]
    exact h.grows
  · rw [hincluded]
    exact h.groups
  · intro tx htx
    rw [hincluded] at htx
    exact hgroup.trans (h.group_le tx htx)
  · rw [hincluded]
    exact h.executes

/-- A transaction is included. -/
theorem push (h : Fills start s₀ info p s) (hgroup : tx.group.rank ≤ info.currentTxGroup.rank)
    {events : List Event} (hexec : executeTransaction tx s = (.ok events, s'))
    {c : BlockSizeConstraints}
    (hgrows : BlockSizeConstraints.Grows (rollupDataBytes [tx]) (encodedLen tx)
      info.blockSizeConstraints c) :
    Fills start s₀ (info.counted tx { events := events } c) (p.push tx) s' := by
  have hbelow : ∀ tx' ∈ p.includedSignedTxs, tx.group.rank ≤ tx'.group.rank := fun tx' htx' =>
    hgroup.trans (h.group_le tx' htx')
  refine ⟨?_, ?_, ?_, ?_, ?_, ?_⟩
  · rw [Proposal.counted, h.prepare, Option.map_some]
  · simp [PrepareInfo.push, h.validated]
  · have hsum := h.grows.trans hgrows
    have hencoded : encodedLen tx = encodedBytes [tx] := by simp [encodedBytes]
    rw [hencoded, ← encodedBytes_append, ← rollupDataBytes_append] at hsum
    exact hsum
  · refine List.pairwise_append.mpr ⟨h.groups, List.pairwise_singleton _ _, ?_⟩
    intro tx' htx' last hlast
    rw [List.mem_singleton.mp hlast]
    exact hbelow tx' htx'
  · intro tx' htx'
    rcases List.mem_append.mp htx' with htx' | hlast
    · exact hbelow tx' htx'
    · rw [List.mem_singleton.mp hlast]
      exact Nat.le_refl _
  · have hone : executeTransactions [tx] s = .ok [{ events := events }] s' := by
      have horFail : executeOrFail tx s = .ok { events := events } s' := by
        unfold executeOrFail
        rw [hexec]
      rw [executeTransactions, bind_of_ok horFail]
      rfl
    exact executeTransactions_append h.executes hone

/-- The proposer's step never fails, and goes on filling the block. -/
theorem step (h : Fills start s₀ info p s) (tx : Transaction) :
    ∃ flow info' p' s', info.checksAndTxExecution tx s = .ok (flow, info') s' ∧
      Fills start s₀ info' p' s' := by
  rcases Proposal.checksAndTxExecution_prepare tx h.prepare s with ⟨-, hrun⟩ | ⟨-, hrun⟩ |
    ⟨hgroup, e, -, hrun⟩ | ⟨hgroup, events, s', c, hexec, hgrows, hrun⟩
  · exact ⟨_, _, _, _, hrun, h.skip p.exclude ⟨rfl, rfl⟩ (Nat.le_refl _)⟩
  · exact ⟨_, _, _, _, hrun, h.skip p.exclude ⟨rfl, rfl⟩ (Nat.le_refl _)⟩
  · exact ⟨_, _, _, _, hrun, h.skip _ (p.executionFailed_included tx e) hgroup⟩
  · exact ⟨_, _, _, _, hrun, h.push hgroup hexec hgrows⟩

/-- The proposer's loop never fails, and fills the block. -/
theorem executeAll (h : Fills start s₀ info p s) (txs : List Transaction) :
    ∃ info' p' s', info.executeAll txs s = .ok info' s' ∧ Fills start s₀ info' p' s' := by
  induction txs generalizing info p s with
  | nil => exact ⟨info, p, s, rfl, h⟩
  | cons tx rest ih =>
    obtain ⟨flow, info₁, p₁, s₁, hrun, h₁⟩ := h.step tx
    rw [Proposal.executeAll, bind_of_ok hrun]
    cases flow with
    | «break» => exact ⟨info₁, p₁, s₁, rfl, h₁⟩
    | «continue» => exact ih h₁

end Fills

/-- What a proposer includes, when it fills a block with these limits. -/
theorem prepareProposalTxExecution_fills (sort : SortUnstable) (mempool : Mempool parkedMaxTxCount)
    (constraints : BlockSizeConstraints) (s : State) :
    ∃ info p t, prepareProposalTxExecution sort mempool constraints s =
        .ok p { t with base.ephemeral.executionResults := some info.executionResults } ∧
      Fills constraints s info p t := by
  have hstart : Fills constraints s (.startPrepare constraints mempool) _ s :=
    ⟨rfl, rfl, .refl constraints, .nil, fun _ htx => absurd htx List.not_mem_nil, rfl⟩
  obtain ⟨info, p, t, hrun, h⟩ :=
    hstart.executeAll ((PendingTransactions.builderQueue sort mempool.pending).map Prod.snd)
  refine ⟨info, p, t, ?_, h⟩
  unfold prepareProposalTxExecution
  dsimp only
  rw [bind_of_ok hrun, h.prepare]
  rfl

/-! ## Running a block -/

namespace Proposal

variable {tx : Transaction} {info : Proposal parkedMaxTxCount}

/-- The validator's step, if no check stops the transaction. -/
theorem checksAndTxExecution_process (hprocess : info.prepare = none)
    (hbytes : info.blockSizeConstraints.currentSizeSequencer + rollupDataBytes [tx] ≤
      info.blockSizeConstraints.maxSizeSequencer)
    (hsize : info.blockSizeConstraints.currentSizeCometbft + encodedLen tx ≤
      info.blockSizeConstraints.maxSizeCometbft)
    (hgroup : tx.group.rank ≤ info.currentTxGroup.rank) :
    ∃ c, BlockSizeConstraints.Grows (rollupDataBytes [tx]) (encodedLen tx)
        info.blockSizeConstraints c ∧
      info.checksAndTxExecution tx = (do
        let result ← executeOrFail tx
        pure (.continue, info.counted tx result c)) := by
  have hspace : info.blockSizeConstraints.currentSizeSequencer + sequenceDataBytes tx ≤
      info.blockSizeConstraints.maxSizeSequencer := by
    rw [sequenceDataBytes_eq]
    omega
  obtain ⟨c, hgrows, hrecord⟩ := record_ok hspace hsize
  refine ⟨c, hgrows, ?_⟩
  funext s
  unfold checksAndTxExecution
  rw [hprocess]
  dsimp only
  rw [if_neg (by rw [BlockSizeConstraints.sequencerHasSpace_iff.mpr hspace]; exact Bool.noConfusion),
    if_neg (Nat.not_lt.mpr hgroup)]
  cases hexec : executeTransaction tx s with
  | mk result s' =>
  have hrun : runTransaction tx s = .ok result s' := by
    unfold runTransaction
    rw [hexec]
  rw [bind_of_ok hrun]
  cases result with
  | error e =>
    have horFail : executeOrFail tx s = .error ("transaction failed to execute" :: e) s' := by
      unfold executeOrFail
      rw [hexec]
    have hfail : info.record tx (.error e) s' =
        .error ("transaction failed to execute" :: e) s' := by
      rw [record, hprocess]
      rfl
    exact (bind_eq_error.mpr (Or.inl hfail)).trans (bind_eq_error.mpr (Or.inl horFail)).symm
  | ok events =>
    have horFail : executeOrFail tx s = .ok { events := events } s' := by
      unfold executeOrFail
      rw [hexec]
    rw [bind_of_ok (hrecord events s'), bind_of_ok horFail]
    rfl

/-- A validator runs a block that keeps to the limits as if there were no checks. -/
theorem executeAll_process {txs : List Transaction} (info : Proposal parkedMaxTxCount) (s : State)
    (hprocess : info.prepare = none)
    (hbytes : info.blockSizeConstraints.currentSizeSequencer + rollupDataBytes txs ≤
      info.blockSizeConstraints.maxSizeSequencer)
    (hsize : info.blockSizeConstraints.currentSizeCometbft + encodedBytes txs ≤
      info.blockSizeConstraints.maxSizeCometbft)
    (hgroups : GroupsDescend txs)
    (hgroup : ∀ tx ∈ txs, tx.group.rank ≤ info.currentTxGroup.rank) :
    (∀ results s', executeTransactions txs s = .ok results s' →
      ∃ info', info.executeAll txs s = .ok info' s' ∧
        info'.executionResults = info.executionResults ++ results) ∧
    ∀ e s', executeTransactions txs s = .error e s' → info.executeAll txs s = .error e s' := by
  induction txs generalizing info s with
  | nil =>
    refine ⟨fun results s' h => ?_, fun e s' h => (pure_eq_error.mp h).elim⟩
    obtain ⟨rfl, rfl⟩ := pure_eq_ok.mp h
    exact ⟨info, rfl, (List.append_nil _).symm⟩
  | cons tx rest ih =>
    have hcons : encodedBytes (tx :: rest) = encodedLen tx + encodedBytes rest := by
      simp [encodedBytes]
    rw [rollupDataBytes_cons] at hbytes
    rw [hcons] at hsize
    obtain ⟨hbelow, hrest⟩ := List.pairwise_cons.mp hgroups
    obtain ⟨c, hgrows, hstep⟩ := checksAndTxExecution_process hprocess (by omega) (by omega)
      (hgroup tx List.mem_cons_self)
    have hfirst : ∀ {result t}, executeOrFail tx s = .ok result t →
        info.executeAll (tx :: rest) s = (info.counted tx result c).executeAll rest t := by
      intro result t hexec
      have hrun : info.checksAndTxExecution tx s = .ok (.continue, info.counted tx result c) t := by
        rw [hstep, bind_of_ok hexec]
        rfl
      rw [executeAll, bind_of_ok hrun]
    have hnone : ∀ result, (info.counted tx result c).prepare = none := by
      intro result
      rw [counted, hprocess, Option.map_none]
    have hbytes' : c.currentSizeSequencer + rollupDataBytes rest ≤ c.maxSizeSequencer := by
      rw [hgrows.currentSizeSequencer, hgrows.maxSizeSequencer]
      omega
    have hsize' : c.currentSizeCometbft + encodedBytes rest ≤ c.maxSizeCometbft := by
      rw [hgrows.currentSizeCometbft, hgrows.maxSizeCometbft]
      omega
    constructor
    · intro results s' h
      simp only [executeTransactions, bind_eq_ok, pure_eq_ok] at h
      obtain ⟨result, t, hexec, results, _, hresults, rfl, rfl⟩ := h
      obtain ⟨info', hrun, heq⟩ := (ih _ t (hnone result) hbytes' hsize' hrest hbelow).1 results s' hresults
      refine ⟨info', (hfirst hexec).trans hrun, ?_⟩
      rw [heq, counted, List.append_assoc, List.singleton_append]
    · intro e s' h
      simp only [executeTransactions, bind_eq_error, pure_eq_error, and_false, exists_false,
        or_false] at h
      rcases h with hexec | ⟨result, t, hexec, hresults⟩
      · rw [executeAll, hstep]
        exact bind_eq_error.mpr (Or.inl (bind_eq_error.mpr (Or.inl hexec)))
      · exact (hfirst hexec).trans ((ih _ t (hnone result) hbytes' hsize' hrest hbelow).2 e s' hresults)

end Proposal

/-- The checks of `process_proposal` stop no transaction of a block that keeps to the limits. -/
theorem processProposalTxExecution_eq {txs : List Transaction}
    (hbytes : rollupDataBytes txs ≤ maxSequenceDataBytesPerBlock)
    (hsize : GeneratedCommitments.totalSize true + encodedBytes txs ≤ u64Max)
    (hgroups : GroupsDescend txs) :
    processProposalTxExecution txs .newUnlimitedCometbft = executeTransactions txs := by
  funext s
  have hgroup : ∀ tx ∈ txs, tx.group.rank ≤ Group.bundleableGeneral.rank := by
    intro tx _
    cases tx.group <;> decide
  have hbytes' : 0 + rollupDataBytes txs ≤ maxSequenceDataBytesPerBlock := by omega
  obtain ⟨hok, herror⟩ := Proposal.executeAll_process (.startProcess .newUnlimitedCometbft) s rfl
    hbytes' hsize hgroups hgroup
  cases hexec : executeTransactions txs s with
  | ok results s' =>
    obtain ⟨info', hrun, heq⟩ := hok results s' hexec
    unfold processProposalTxExecution
    rw [bind_of_ok hrun, heq]
    rfl
  | error e s' => exact bind_eq_error.mpr (Or.inl (herror e s' hexec))

/-! ## Preparing a proposal -/

/-- `App::uses_data_item_enum`. -/
def Upgrades.usesDataItemEnum (upgrades : Upgrades) (blockHeight : ℕ) : Bool :=
  match upgrades.aspen with
  | none => false
  | some aspen => aspen.activationHeight ≤ blockHeight

/-- `vote_extensions_enable_height` of the stored parameters, zero if there are none. -/
def Base.voteExtensionsEnableHeight (s : Base) : ℕ :=
  match s.nonverifiable.consensusParams with
  | none => 0
  | some params => params.voteExtensionsEnableHeight.getD 0

/-- `App::vote_extensions_enabled`: a height of zero disables them. -/
def Base.voteExtensionsEnabled (blockHeight : ℕ) (s : Base) : Bool :=
  s.voteExtensionsEnableHeight ≠ 0 && s.voteExtensionsEnableHeight < blockHeight

/-- `abci::request::PrepareProposal`, without the transactions, which are ignored. -/
structure PrepareProposal where
  maxTxBytes : Int64
  localLastCommit : Option ExtendedCommitInfo
  blockData : BlockData

/-- The response of `prepare_proposal`, with the transactions that it includes and the mempool
afterwards. -/
structure PreparedProposal (parkedMaxTxCount : ℕ) where
  txs : List Bytes
  signedTxsIncluded : List Transaction
  mempool : Mempool parkedMaxTxCount

/-- An item is added to the size of the block, if there is one. -/
def addUpgradeChangeHashes (item : Option Bytes) (constraints : BlockSizeConstraints) :
    Except Report BlockSizeConstraints :=
  match item with
  | none => .ok constraints
  | some bytes => constraints.cometbftCheckedAdd bytes.length

/-- The length of a list of items, in bytes. -/
def itemBytes (items : List Bytes) : ℕ := (items.map List.length).sum

omit ext codec in
theorem grows_addUpgradeChangeHashes {item : Option Bytes} {c c' : BlockSizeConstraints}
    (h : addUpgradeChangeHashes item c = .ok c') :
    BlockSizeConstraints.Grows 0 (itemBytes item.toList) c c' := by
  cases item with
  | none =>
    obtain rfl := Except.ok.inj h
    exact .refl c
  | some bytes =>
    have hgrows := BlockSizeConstraints.grows_cometbftCheckedAdd h
    simpa [itemBytes] using hgrows

variable [BlockCodec] [UpgradeCodec] [VoteCrypto]

/-- The item of the upgrade's changes, if there are any. -/
def encodeUpgradeChangeHashes (hashes : List Bytes32) : Option Bytes :=
  if hashes = [] then none else some (DataItem.upgradeChangeHashes hashes).encode

/-- The item of the extended commit info, which is an empty one if the other is too large. -/
def addExtendedCommitInfo (info : ExtendedCommitInfoWithMapping) (constraints : BlockSizeConstraints) :
    Except Report (Bytes × BlockSizeConstraints) :=
  let encoded := (DataItem.extendedCommitInfo info.encode).encode
  match constraints.cometbftCheckedAdd encoded.length with
  | .ok constraints => .ok (encoded, constraints)
  | .error _ =>
    let encoded := (DataItem.extendedCommitInfo []).encode
    match constraints.cometbftCheckedAdd encoded.length with
    | .ok constraints => .ok (encoded, constraints)
    | .error e => .error ("exceeded size limit while adding empty extended commit info" :: e)

/-- The item of the extended commit info, where vote extensions are enabled. -/
def injectExtendedCommitInfo (completion : Completion) (request : PrepareProposal)
    (constraints : BlockSizeConstraints) : AppM (Option Bytes × BlockSizeConstraints) := do
  let enabled ← onBase (reads (Base.voteExtensionsEnabled request.blockData.height))
  if enabled then do
    let lastCommit ← require request.localLastCommit
      ["local last commit is empty; this should not occur"]
    let info ← reads (proposedExtendedCommitInfo completion request.blockData.height lastCommit)
    let (item, constraints) ← lift (addExtendedCommitInfo info constraints)
    pure (some item, constraints)
  else
    pure (none, constraints)

/-- `App::prepare_proposal` (lines 363–490), on the state and the execution state that
`update_state_for_new_round` has reset; the fingerprint of the response is not kept. -/
def prepareProposal (handler : UpgradesHandler) (appHash : Bytes32) (completion : Completion)
    (sort : SortUnstable) (mempool : Mempool parkedMaxTxCount) (request : PrepareProposal) :
    AppM (PreparedProposal parkedMaxTxCount) := do
  let upgradeChangeHashes ← wrapErr "failed to prepare for executing block"
    (preExecuteTransactions handler.upgrades appHash request.blockData)
  let encodedUpgradeChangeHashes := encodeUpgradeChangeHashes upgradeChangeHashes
  let usesDataItemEnum := handler.upgrades.usesDataItemEnum request.blockData.height
  let constraints ← wrapErr "failed to create block size constraints"
    (lift (BlockSizeConstraints.new request.maxTxBytes usesDataItemEnum))
  let constraints ← wrapErr "exceeded size limit while adding upgrade change hashes"
    (lift (addUpgradeChangeHashes encodedUpgradeChangeHashes constraints))
  let (encodedExtendedCommitInfo, constraints) ←
    injectExtendedCommitInfo completion request constraints
  -- ignore the txs passed by cometbft in favour of our app-side mempool
  let included ← wrapErr "failed to execute transactions"
    (prepareProposalTxExecution sort mempool constraints)
  let deposits ← reads fun s => s.base.ephemeral.deposits
  let commitments := generateRollupDatasCommitment included.includedSignedTxs deposits
  pure
    { txs := commitments.items usesDataItemEnum ++ encodedUpgradeChangeHashes.toList ++
        encodedExtendedCommitInfo.toList ++ included.validatedTxs
      signedTxsIncluded := included.includedSignedTxs
      mempool := included.mempool }

omit ext codec [UpgradeCodec] [VoteCrypto] in
theorem grows_addExtendedCommitInfo {info : ExtendedCommitInfoWithMapping} {item : Bytes}
    {c c' : BlockSizeConstraints} (h : addExtendedCommitInfo info c = .ok (item, c')) :
    BlockSizeConstraints.Grows 0 item.length c c' := by
  unfold addExtendedCommitInfo at h
  dsimp only at h
  split at h
  case h_1 c₁ hadd =>
    obtain ⟨rfl, rfl⟩ := Prod.mk.inj (Except.ok.inj h)
    exact BlockSizeConstraints.grows_cometbftCheckedAdd hadd
  case h_2 =>
    split at h
    case h_1 c₁ hadd =>
      obtain ⟨rfl, rfl⟩ := Prod.mk.inj (Except.ok.inj h)
      exact BlockSizeConstraints.grows_cometbftCheckedAdd hadd
    case h_2 => cases h

omit codec [UpgradeCodec] in
theorem grows_injectExtendedCommitInfo {completion : Completion} {request : PrepareProposal}
    {item : Option Bytes} {c c' : BlockSizeConstraints} {s s' : State}
    (h : injectExtendedCommitInfo completion request c s = .ok (item, c') s') :
    BlockSizeConstraints.Grows 0 (itemBytes item.toList) c c' ∧ s' = s := by
  simp only [injectExtendedCommitInfo, bind_eq_ok, onBase_eq_ok, reads_eq_ok] at h
  obtain ⟨enabled, _, ⟨_, ⟨-, rfl⟩, rfl⟩, h⟩ := h
  cases enabled with
  | false =>
    obtain ⟨hsame, rfl⟩ := pure_eq_ok.mp h
    obtain ⟨rfl, rfl⟩ := Prod.mk.inj hsame
    exact ⟨.refl _, rfl⟩
  | true =>
    simp only [if_true, bind_eq_ok, require_eq_ok, reads_eq_ok, lift_eq_ok, pure_eq_ok] at h
    obtain ⟨lastCommit, _, ⟨-, rfl⟩, info, _, ⟨-, rfl⟩, ⟨bytes, c₁⟩, _, ⟨hadd, rfl⟩, hsame, rfl⟩ := h
    obtain ⟨rfl, rfl⟩ := Prod.mk.inj hsame
    refine ⟨?_, rfl⟩
    have hgrows := grows_addExtendedCommitInfo hadd
    simpa [itemBytes] using hgrows

/-- The parts of a proposal that is returned. -/
theorem prepareProposal_eq_ok {handler : UpgradesHandler} {appHash : Bytes32}
    {completion : Completion} {sort : SortUnstable} {mempool : Mempool parkedMaxTxCount}
    {request : PrepareProposal} {proposal : PreparedProposal parkedMaxTxCount} {s s' : State}
    (h : prepareProposal handler appHash completion sort mempool request s = .ok proposal s') :
    ∃ hashes t c₀ c injected deposits t' p,
      preExecuteTransactions handler.upgrades appHash request.blockData s = .ok hashes t ∧
      BlockSizeConstraints.new request.maxTxBytes
        (handler.upgrades.usesDataItemEnum request.blockData.height) = .ok c₀ ∧
      BlockSizeConstraints.Grows 0 (itemBytes injected) c₀ c ∧
      (∃ info : Proposal parkedMaxTxCount, Fills c t info p t') ∧
      proposal.signedTxsIncluded = p.includedSignedTxs ∧
      proposal.txs = (generateRollupDatasCommitment p.includedSignedTxs deposits).items
        (handler.upgrades.usesDataItemEnum request.blockData.height) ++ injected ++
          p.includedSignedTxs.map codec.encodeTransaction := by
  simp only [prepareProposal, bind_eq_ok, mapErr_eq_ok, lift_eq_ok, reads_eq_ok, pure_eq_ok] at h
  obtain ⟨hashes, _, hpre, c₀, _, ⟨hnew, rfl⟩, c₁, t, ⟨hupgrade, rfl⟩, ⟨item, c₂⟩, _, hinject, p,
    _, hexec, deposits, _, ⟨-, rfl⟩, rfl, rfl⟩ := h
  obtain ⟨hgrows, hsame⟩ := grows_injectExtendedCommitInfo hinject
  obtain ⟨info, p', t', hrun, hfills⟩ := prepareProposalTxExecution_fills sort mempool c₂ t
  rw [hsame, hrun] at hexec
  obtain ⟨rfl, -⟩ := EStateM.Result.ok.inj hexec
  have hinjected := (grows_addUpgradeChangeHashes hupgrade).trans hgrows
  refine ⟨hashes, t, c₀, c₂, (encodeUpgradeChangeHashes hashes).toList ++ item.toList, deposits, t',
    p', hpre, hnew, ?_, ⟨info, hfills⟩, rfl, ?_⟩
  · simpa [itemBytes] using hinjected
  · rw [hfills.validated, ← List.append_assoc]

omit ext codec [BlockCodec] [UpgradeCodec] [VoteCrypto] in
theorem itemBytes_append (items items' : List Bytes) :
    itemBytes (items ++ items') = itemBytes items + itemBytes items' := by
  simp [itemBytes]

/-- The lengths of the encoded roots are those of the constants. -/
def DataItem.EncodesRoots : Prop := ∀ root,
  (DataItem.rollupTransactionsRoot root).encode.length =
      DataItem.encodedRollupTransactionsRootLength ∧
    (DataItem.rollupIdsRoot root).encode.length = DataItem.encodedRollupIdsRootLength

omit ext codec [UpgradeCodec] [VoteCrypto] in
/-- The commitments have the size that is reserved for them. -/
theorem itemBytes_items (hroots : DataItem.EncodesRoots) (commitments : GeneratedCommitments)
    (usesDataItemEnum : Bool) : itemBytes (commitments.items usesDataItemEnum) =
      GeneratedCommitments.totalSize usesDataItemEnum := by
  cases usesDataItemEnum with
  | false => simp [itemBytes, GeneratedCommitments.items, GeneratedCommitments.totalSize]
  | true =>
    simp [itemBytes, GeneratedCommitments.items, GeneratedCommitments.totalSize,
      (hroots commitments.rollupDatasRoot).1, (hroots commitments.rollupIdsRoot).2]

omit ext codec [BlockCodec] [UpgradeCodec] [VoteCrypto] in
theorem new_eq_ok {cometbftMaxSize : Int64} {usesDataItemEnum : Bool} {c : BlockSizeConstraints}
    (h : BlockSizeConstraints.new cometbftMaxSize usesDataItemEnum = .ok c) :
    (c.maxSizeCometbft : ℤ) = cometbftMaxSize.toInt ∧ c.currentSizeSequencer = 0 ∧
      c.currentSizeCometbft = GeneratedCommitments.totalSize usesDataItemEnum := by
  unfold BlockSizeConstraints.new at h
  split_ifs at h with hneg
  dsimp only at h
  split_ifs at h
  obtain rfl := Except.ok.inj h
  refine ⟨?_, rfl, rfl⟩
  exact Int.toNat_of_nonneg (Int.not_lt.mp hneg)

/-- A proposal that is returned keeps to the size that was asked for, with its injected items, and to the
limit of the sequenced data, and its groups do not increase; so no check of `process_proposal` stops one
of its transactions, and a validator runs all of them on the state on which the proposer did. -/
theorem prepareProposal_fits
    (hroots : DataItem.EncodesRoots)
    {handler : UpgradesHandler} {appHash : Bytes32} {completion : Completion} {sort : SortUnstable}
    {mempool : Mempool parkedMaxTxCount} {request : PrepareProposal}
    {proposal : PreparedProposal parkedMaxTxCount} {s s' : State}
    (h : prepareProposal handler appHash completion sort mempool request s = .ok proposal s') :
    (itemBytes proposal.txs : ℤ) ≤ request.maxTxBytes.toInt ∧
      (∃ items, proposal.txs = items ++ proposal.signedTxsIncluded.map codec.encodeTransaction) ∧
      rollupDataBytes proposal.signedTxsIncluded ≤ maxSequenceDataBytesPerBlock ∧
      GroupsDescend proposal.signedTxsIncluded ∧
      processProposalTxExecution proposal.signedTxsIncluded .newUnlimitedCometbft =
        executeTransactions proposal.signedTxsIncluded ∧
      ∃ hashes t results t',
        preExecuteTransactions handler.upgrades appHash request.blockData s = .ok hashes t ∧
        processProposalTxExecution proposal.signedTxsIncluded .newUnlimitedCometbft t =
          .ok results t' := by
  obtain ⟨hashes, t, c₀, c, injected, deposits, t', p, hpre, hnew, hinjected, ⟨info, hfills⟩,
    hincluded, htxs⟩ := prepareProposal_eq_ok h
  obtain ⟨hmax, hzero, hcommitments⟩ := new_eq_ok hnew
  have hgrows := hinjected.trans hfills.grows
  have hencoded : itemBytes (p.includedSignedTxs.map codec.encodeTransaction) =
      encodedBytes p.includedSignedTxs := by
    unfold itemBytes encodedBytes
    rw [List.map_map]
    rfl
  have hsum : itemBytes proposal.txs = info.blockSizeConstraints.currentSizeCometbft := by
    rw [htxs, itemBytes_append, itemBytes_append, itemBytes_items hroots, hencoded,
      hgrows.currentSizeCometbft, hcommitments, Nat.add_assoc]
  have hlimit : (info.blockSizeConstraints.maxSizeCometbft : ℤ) = request.maxTxBytes.toInt := by
    rw [hgrows.maxSizeCometbft, hmax]
  have hcometbft := info.blockSizeConstraints.cometbft_le
  have htotal : (itemBytes proposal.txs : ℤ) ≤ request.maxTxBytes.toInt := by omega
  have hbytes : rollupDataBytes p.includedSignedTxs ≤ maxSequenceDataBytesPerBlock := by
    have hsequencer := info.blockSizeConstraints.sequencer_le
    rw [hgrows.currentSizeSequencer, info.blockSizeConstraints.maxSizeSequencer_eq] at hsequencer
    omega
  have hsize : GeneratedCommitments.totalSize true + encodedBytes p.includedSignedTxs ≤ u64Max := by
    have hmaxTxBytes := request.maxTxBytes.toInt_lt
    have hcurrent := hgrows.currentSizeCometbft
    have hreserved : GeneratedCommitments.totalSize true = 68 := rfl
    unfold u64Max
    omega
  have hprocess := processProposalTxExecution_eq hbytes hsize hfills.groups
  rw [hincluded]
  refine ⟨htotal, ⟨_, htxs⟩, hbytes, hfills.groups, hprocess, hashes, t, info.executionResults, t',
    hpre, ?_⟩
  rw [hprocess]
  exact hfills.executes

end

/-! ## A block with room for one transaction -/

namespace TestProposal

open TestUtils Mempool

/-- No vote is signed here. -/
scoped instance : VoteCrypto where
  verify _ _ _ := false

/-- Alice has two transactions with rollup data in the mempool. -/
def twoPending : Mempool 10 :=
  ((new 10).insert (pooled [1, 2, 3] 0) 0 (nativeBalance 2)).2.insert (pooled [4, 5] 1) 0
    (nativeBalance 2) |>.2

/-- CometBFT asks for the commitments and 151 bytes, the length of each of them. -/
def request : PrepareProposal where
  maxTxBytes := 215
  localLastCommit := none
  blockData :=
    { misbehavior := []
      height := 1
      time := 0
      nextValidatorsHash := none
      proposerAddress := judyAddress.bytes }

/-- The order in which this node sorts. -/
def sortByInsertion : SortUnstable :=
  Sorting.insertion (fun e e' : QueueEntry => (e.priority.cmp e'.priority).isLE)
    QueueEntry.isLE_cmp_trans QueueEntry.isLE_cmp_total

def run : EStateM.Result Report State (PreparedProposal 10) :=
  prepareProposal withoutUpgrades (List.Vector.replicate 32 0) { order := id, perm := fun _ => .refl _ }
    sortByInsertion twoPending request genesis

/-- What the run includes. -/
def included : List Transaction :=
  match run with
  | .ok proposal _ => proposal.signedTxsIncluded
  | .error _ _ => []

theorem encodesRoots : DataItem.EncodesRoots := by
  have hlength : ∀ (number : ℕ) (root : Bytes32), number = 1 ∨ number = 2 →
      (messageField number root.toList).length = 34 := by
    rintro number root (rfl | rfl) <;> simp [messageField, root.toList_length, varint]
  intro root
  exact ⟨hlength 1 root (Or.inl rfl), hlength 2 root (Or.inr rfl)⟩

set_option maxRecDepth 10000 in
/-- The first transaction is included, the second one finds no space. -/
theorem prepareProposal_fits_oneOfTwo :
    ∃ proposal s', run = .ok proposal s' ∧
      proposal.signedTxsIncluded.map (fun tx => tx.params.nonce) = [0] ∧
      (itemBytes proposal.txs : ℤ) ≤ 215 ∧ rollupDataBytes proposal.signedTxsIncluded ≤ 256000 ∧
      GroupsDescend proposal.signedTxsIncluded := by
  have hok : Exec.isOk run = true := by decide +kernel
  have hnonces : included.map (fun tx => tx.params.nonce) = [0] := by decide +kernel
  unfold included at hnonces
  cases hrun : run with
  | error e s' =>
    rw [hrun] at hok
    cases hok
  | ok proposal s' =>
    rw [hrun] at hnonces
    obtain ⟨hsize, -, hbytes, hgroups, -⟩ := prepareProposal_fits encodesRoots hrun
    exact ⟨proposal, s', rfl, hnonces, hsize, hbytes, hgroups⟩

end TestProposal

end Astria.Sequencer
