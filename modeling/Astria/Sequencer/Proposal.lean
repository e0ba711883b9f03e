import Astria.Sequencer.Block
import Astria.Sequencer.Mempool.BuilderQueue

/-!
# Proposals

How the transactions of a proposal are run, by the proposer that fills a block from its mempool and by the
validators that are sent the block (`app/mod.rs`, lines 684–991, `proposal/block_size_constraints.rs`).  Both
go through `proposal_checks_and_tx_execution`, which skips a transaction in the first case where it fails
in the second.

Results:
* `BlockSizeConstraints.exists_checkedAdds`: where there is space, both sizes can grow;
* `sequenceDataBytes_of_lt`: what a transaction sequences is not cut off if it fits.
-/

namespace Astria.Sequencer

open Astria.Core Astria.Lib Exec

/-! ## Block sizes -/

/-- `MAX_SEQUENCE_DATA_BYTES_PER_BLOCK`. -/
def maxSequenceDataBytesPerBlock : ℕ := 256000

/-- `DataItem::ENCODED_ROLLUP_TRANSACTIONS_ROOT_LENGTH`. -/
def DataItem.encodedRollupTransactionsRootLength : ℕ := 32 + 2

/-- `DataItem::ENCODED_ROLLUP_IDS_ROOT_LENGTH`. -/
def DataItem.encodedRollupIdsRootLength : ℕ := 32 + 2

/-- `GeneratedCommitments::total_size`. -/
def GeneratedCommitments.totalSize (usesDataItemEnum : Bool) : ℕ :=
  if usesDataItemEnum then
    DataItem.encodedRollupTransactionsRootLength + DataItem.encodedRollupIdsRootLength
  else 64

/-- `BlockSizeConstraints`: the sizes are within their limits from the start. -/
structure BlockSizeConstraints where
  maxSizeSequencer : ℕ
  maxSizeCometbft : ℕ
  currentSizeSequencer : ℕ
  currentSizeCometbft : ℕ
  sequencer_le : currentSizeSequencer ≤ maxSizeSequencer
  cometbft_le : currentSizeCometbft ≤ maxSizeCometbft
  maxSizeSequencer_eq : maxSizeSequencer = maxSequenceDataBytesPerBlock
  maxSizeCometbft_le : maxSizeCometbft ≤ u64Max

/-- The sum that `checked_add` and the limit of a size allow. -/
def checkedGrow (name : String) (max current size : ℕ) : Except Report { n : ℕ // n ≤ max } :=
  match checkedAdd u64Max current size with
  | none => .error ["overflow adding to " ++ name ++ " size"]
  | some newSize =>
    if h : newSize ≤ max then .ok ⟨newSize, h⟩ else .error ["max " ++ name ++ " size reached"]

namespace BlockSizeConstraints

/-- `new`. -/
def new (cometbftMaxSize : Int64) (usesDataItemEnum : Bool) : Except Report BlockSizeConstraints :=
  if cometbftMaxSize.toInt < 0 then
    .error ["failed to convert cometbft_max_size to usize",
      "out of range integral type conversion attempted"]
  else
    let commitmentsSize := GeneratedCommitments.totalSize usesDataItemEnum
    if h : cometbftMaxSize.toInt.toNat < commitmentsSize then
      .error ["cometbft_max_size must be at least GeneratedCommitments::TOTAL_SIZE"]
    else
      .ok
        { maxSizeSequencer := maxSequenceDataBytesPerBlock
          maxSizeCometbft := cometbftMaxSize.toInt.toNat
          currentSizeSequencer := 0
          currentSizeCometbft := commitmentsSize
          sequencer_le := Nat.zero_le _
          cometbft_le := Nat.le_of_not_lt h
          maxSizeSequencer_eq := rfl
          maxSizeCometbft_le := by
            have hlt := cometbftMaxSize.toInt_lt
            unfold u64Max
            omega }

/-- `new_unlimited_cometbft`. -/
def newUnlimitedCometbft : BlockSizeConstraints where
  maxSizeSequencer := maxSequenceDataBytesPerBlock
  maxSizeCometbft := u64Max
  currentSizeSequencer := 0
  currentSizeCometbft := GeneratedCommitments.totalSize true
  sequencer_le := Nat.zero_le _
  cometbft_le := by decide
  maxSizeSequencer_eq := rfl
  maxSizeCometbft_le := Nat.le_refl _

def sequencerHasSpace (size : ℕ) (c : BlockSizeConstraints) : Bool :=
  size ≤ c.maxSizeSequencer - c.currentSizeSequencer

def cometbftHasSpace (size : ℕ) (c : BlockSizeConstraints) : Bool :=
  size ≤ c.maxSizeCometbft - c.currentSizeCometbft

def sequencerCheckedAdd (size : ℕ) (c : BlockSizeConstraints) : Except Report BlockSizeConstraints :=
  (checkedGrow "sequencer" c.maxSizeSequencer c.currentSizeSequencer size).map fun n =>
    { c with currentSizeSequencer := n.1, sequencer_le := n.2 }

def cometbftCheckedAdd (size : ℕ) (c : BlockSizeConstraints) : Except Report BlockSizeConstraints :=
  (checkedGrow "cometBFT" c.maxSizeCometbft c.currentSizeCometbft size).map fun n =>
    { c with currentSizeCometbft := n.1, cometbft_le := n.2 }

/-- The limits are the same, and the sizes have grown by these numbers of bytes. -/
structure Grows (sequencer cometbft : ℕ) (c c' : BlockSizeConstraints) : Prop where
  maxSizeSequencer : c'.maxSizeSequencer = c.maxSizeSequencer
  maxSizeCometbft : c'.maxSizeCometbft = c.maxSizeCometbft
  currentSizeSequencer : c'.currentSizeSequencer = c.currentSizeSequencer + sequencer
  currentSizeCometbft : c'.currentSizeCometbft = c.currentSizeCometbft + cometbft

theorem Grows.refl (c : BlockSizeConstraints) : Grows 0 0 c c := ⟨rfl, rfl, rfl, rfl⟩

theorem Grows.trans {a b a' b' : ℕ} {c c' c'' : BlockSizeConstraints} (h : Grows a b c c')
    (h' : Grows a' b' c' c'') : Grows (a + a') (b + b') c c'' := by
  refine ⟨h'.maxSizeSequencer.trans h.maxSizeSequencer, h'.maxSizeCometbft.trans h.maxSizeCometbft,
    ?_, ?_⟩
  · rw [h'.currentSizeSequencer, h.currentSizeSequencer, Nat.add_assoc]
  · rw [h'.currentSizeCometbft, h.currentSizeCometbft, Nat.add_assoc]

end BlockSizeConstraints

theorem checkedGrow_eq_ok {name : String} {max current size : ℕ} {n : { n : ℕ // n ≤ max }}
    (h : checkedGrow name max current size = .ok n) : n.1 = current + size := by
  unfold checkedGrow at h
  cases hsum : checkedAdd u64Max current size with
  | none =>
    rw [hsum] at h
    cases h
  | some newSize =>
    rw [hsum] at h
    dsimp only at h
    split_ifs at h
    obtain rfl := Except.ok.inj h
    exact (checkedAdd_eq_some.mp hsum).1

theorem checkedGrow_of_le (name : String) {max current size : ℕ} (hmax : max ≤ u64Max)
    (h : current + size ≤ max) : ∃ n, checkedGrow name max current size = .ok n := by
  have hsum : checkedAdd u64Max current size = some (current + size) :=
    checkedAdd_eq_some.mpr ⟨rfl, h.trans hmax⟩
  refine ⟨⟨current + size, h⟩, ?_⟩
  unfold checkedGrow
  rw [hsum]
  exact dif_pos h

namespace BlockSizeConstraints

theorem maxSizeSequencer_lt (c : BlockSizeConstraints) : c.maxSizeSequencer < u64Max := by
  rw [c.maxSizeSequencer_eq]
  decide

theorem grows_sequencerCheckedAdd {size : ℕ} {c c' : BlockSizeConstraints}
    (h : c.sequencerCheckedAdd size = .ok c') : Grows size 0 c c' := by
  unfold sequencerCheckedAdd at h
  cases hgrow : checkedGrow "sequencer" c.maxSizeSequencer c.currentSizeSequencer size with
  | error e =>
    rw [hgrow] at h
    cases h
  | ok n =>
    rw [hgrow] at h
    obtain rfl := Except.ok.inj h
    exact ⟨rfl, rfl, checkedGrow_eq_ok hgrow, rfl⟩

theorem grows_cometbftCheckedAdd {size : ℕ} {c c' : BlockSizeConstraints}
    (h : c.cometbftCheckedAdd size = .ok c') : Grows 0 size c c' := by
  unfold cometbftCheckedAdd at h
  cases hgrow : checkedGrow "cometBFT" c.maxSizeCometbft c.currentSizeCometbft size with
  | error e =>
    rw [hgrow] at h
    cases h
  | ok n =>
    rw [hgrow] at h
    obtain rfl := Except.ok.inj h
    exact ⟨rfl, rfl, rfl, checkedGrow_eq_ok hgrow⟩

theorem sequencerHasSpace_iff {size : ℕ} {c : BlockSizeConstraints} :
    c.sequencerHasSpace size = true ↔ c.currentSizeSequencer + size ≤ c.maxSizeSequencer := by
  have hle := c.sequencer_le
  unfold sequencerHasSpace
  rw [decide_eq_true_eq]
  omega

theorem cometbftHasSpace_iff {size : ℕ} {c : BlockSizeConstraints} :
    c.cometbftHasSpace size = true ↔ c.currentSizeCometbft + size ≤ c.maxSizeCometbft := by
  have hle := c.cometbft_le
  unfold cometbftHasSpace
  rw [decide_eq_true_eq]
  omega

theorem exists_sequencerCheckedAdd {size : ℕ} {c : BlockSizeConstraints}
    (h : c.currentSizeSequencer + size ≤ c.maxSizeSequencer) :
    ∃ c', c.sequencerCheckedAdd size = .ok c' := by
  obtain ⟨n, hn⟩ := checkedGrow_of_le "sequencer" c.maxSizeSequencer_lt.le h
  unfold sequencerCheckedAdd
  rw [hn]
  exact ⟨_, rfl⟩

theorem exists_cometbftCheckedAdd {size : ℕ} {c : BlockSizeConstraints}
    (h : c.currentSizeCometbft + size ≤ c.maxSizeCometbft) :
    ∃ c', c.cometbftCheckedAdd size = .ok c' := by
  obtain ⟨n, hn⟩ := checkedGrow_of_le "cometBFT" c.maxSizeCometbft_le h
  unfold cometbftCheckedAdd
  rw [hn]
  exact ⟨_, rfl⟩

/-- Where there is space, a transaction can be added to both sizes. -/
theorem exists_checkedAdds {bytes size : ℕ} {c : BlockSizeConstraints}
    (hbytes : c.currentSizeSequencer + bytes ≤ c.maxSizeSequencer)
    (hsize : c.currentSizeCometbft + size ≤ c.maxSizeCometbft) :
    ∃ c₁ c₂, c.sequencerCheckedAdd bytes = .ok c₁ ∧ c₁.cometbftCheckedAdd size = .ok c₂ ∧
      Grows bytes size c c₂ := by
  obtain ⟨c₁, h₁⟩ := exists_sequencerCheckedAdd hbytes
  have hgrow₁ := grows_sequencerCheckedAdd h₁
  have hsize₁ : c₁.currentSizeCometbft + size ≤ c₁.maxSizeCometbft := by
    rw [hgrow₁.currentSizeCometbft, hgrow₁.maxSizeCometbft]
    exact hsize
  obtain ⟨c₂, h₂⟩ := exists_cometbftCheckedAdd hsize₁
  have hgrows := hgrow₁.trans (grows_cometbftCheckedAdd h₂)
  rw [Nat.add_zero, Nat.zero_add] at hgrows
  exact ⟨c₁, c₂, h₁, h₂, hgrows⟩

end BlockSizeConstraints

/-! ## What a block holds -/

/-- `Action::as_rollup_data_submission`. -/
def Action.asRollupDataSubmission : Action → Option RollupDataSubmission
  | .rollupDataSubmission act => some act
  | _ => none

/-- The bytes that a transaction sequences, up to the largest number of its type. -/
def sequenceDataBytes (tx : Transaction) : ℕ :=
  (tx.actions.inner.filterMap Action.asRollupDataSubmission).foldl
    (fun acc seq => saturatingAdd u64Max acc seq.data.length) 0

/-- The rollup data of a list of transactions, in bytes. -/
def rollupDataBytes (txs : List Transaction) : ℕ :=
  ((rollupDataSubmissions txs).map fun act => act.data.length).sum

/-- Every group is at most the one before it. -/
def GroupsDescend (txs : List Transaction) : Prop :=
  txs.Pairwise fun tx tx' => tx'.group.rank ≤ tx.group.rank

theorem foldl_saturatingAdd {α : Type} (f : α → ℕ) (l : List α) (acc : ℕ) :
    l.foldl (fun acc a => saturatingAdd u64Max acc (f a)) (min acc u64Max) =
      min (acc + (l.map f).sum) u64Max := by
  induction l generalizing acc with
  | nil => rfl
  | cons a l ih =>
    have hstep : saturatingAdd u64Max (min acc u64Max) (f a) = min (acc + f a) u64Max := by
      unfold saturatingAdd
      omega
    rw [List.foldl_cons, hstep, ih, List.map_cons, List.sum_cons, Nat.add_assoc]

theorem rollupDataBytes_cons (tx : Transaction) (txs : List Transaction) :
    rollupDataBytes (tx :: txs) = rollupDataBytes [tx] + rollupDataBytes txs := by
  simp [rollupDataBytes, rollupDataSubmissions]

theorem rollupDataBytes_append (txs txs' : List Transaction) :
    rollupDataBytes (txs ++ txs') = rollupDataBytes txs + rollupDataBytes txs' := by
  simp [rollupDataBytes, rollupDataSubmissions]

theorem sequenceDataBytes_eq (tx : Transaction) :
    sequenceDataBytes tx = min (rollupDataBytes [tx]) u64Max := by
  have hsubmissions : rollupDataSubmissions [tx] =
      tx.actions.inner.filterMap Action.asRollupDataSubmission := by
    simp only [rollupDataSubmissions, List.flatMap_cons, List.flatMap_nil, List.append_nil]
    rfl
  have hfold := foldl_saturatingAdd (fun act : RollupDataSubmission => act.data.length)
    (tx.actions.inner.filterMap Action.asRollupDataSubmission) 0
  rw [Nat.zero_min, Nat.zero_add] at hfold
  unfold rollupDataBytes
  rw [hsubmissions]
  exact hfold

/-- A size that fits does not come from a sum that is cut off. -/
theorem sequenceDataBytes_of_lt {tx : Transaction} (h : sequenceDataBytes tx < u64Max) :
    sequenceDataBytes tx = rollupDataBytes [tx] := by
  rw [sequenceDataBytes_eq] at h ⊢
  omega

/-! ## The transactions of a proposal -/

/-- `BreakOrContinue`. -/
inductive BreakOrContinue where
  | break
  | continue
  deriving DecidableEq

/-- The fields that `Proposal::Prepare` has in addition. -/
structure PrepareInfo (parkedMaxTxCount : ℕ) where
  validatedTxs : List Bytes
  includedSignedTxs : List Transaction
  failedTxCount : ℕ
  excludedTxs : ℕ
  mempool : Mempool parkedMaxTxCount

/-- `Proposal`: the fields of both variants, and those of `Proposal::Prepare` if it is this one. -/
structure Proposal (parkedMaxTxCount : ℕ) where
  blockSizeConstraints : BlockSizeConstraints
  executionResults : List ExecTxResult
  currentTxGroup : Group
  prepare : Option (PrepareInfo parkedMaxTxCount)

section

variable {parkedMaxTxCount : ℕ} [ext : External] [codec : TransactionCodec]

def encodedLen (tx : Transaction) : ℕ := (codec.encodeTransaction tx).length

/-- The encodings of a list of transactions, in bytes. -/
def encodedBytes (txs : List Transaction) : ℕ := (txs.map encodedLen).sum

namespace PrepareInfo

/-- A transaction is not included. -/
def exclude (info : PrepareInfo parkedMaxTxCount) : PrepareInfo parkedMaxTxCount :=
  { info with excludedTxs := saturatingAdd u64Max info.excludedTxs 1 }

/-- A transaction fails: it is removed from the mempool, unless its nonce was invalid. -/
def executionFailed (tx : Transaction) (e : Report) (info : PrepareInfo parkedMaxTxCount) :
    PrepareInfo parkedMaxTxCount :=
  if invalidNonce tx.params.nonce ∈ e then info
  else
    { info with
      failedTxCount := saturatingAdd u64Max info.failedTxCount 1
      mempool := info.mempool.removeTxInvalid tx (.failedPrepareProposal (displayReport e)) }

/-- A transaction is included. -/
def push (tx : Transaction) (info : PrepareInfo parkedMaxTxCount) : PrepareInfo parkedMaxTxCount :=
  { info with
    validatedTxs := info.validatedTxs ++ [codec.encodeTransaction tx]
    includedSignedTxs := info.includedSignedTxs ++ [tx] }

end PrepareInfo

/-- `App::execute_transaction` as a part of a larger computation: its error is a value. -/
def runTransaction (tx : Transaction) : AppM (Except Report (List Event)) := fun s =>
  .ok (executeTransaction tx s).1 (executeTransaction tx s).2

namespace Proposal

/-- A transaction that a check stops: the proposer goes on without it. -/
def refuse (message : String) (info : Proposal parkedMaxTxCount) :
    AppM (BreakOrContinue × Proposal parkedMaxTxCount) :=
  match info.prepare with
  | some prepare => pure (.continue, { info with prepare := some prepare.exclude })
  | none => fail [message]

/-- What is done after a transaction was executed. -/
def record (tx : Transaction) (info : Proposal parkedMaxTxCount) :
    Except Report (List Event) → AppM (Proposal parkedMaxTxCount)
  | .ok events => do
    let constraints ← wrapErr "error growing sequencer block size"
      (lift (info.blockSizeConstraints.sequencerCheckedAdd (sequenceDataBytes tx)))
    let constraints ← wrapErr "error growing cometBFT block size"
      (lift (constraints.cometbftCheckedAdd (encodedLen tx)))
    pure
      { info with
        blockSizeConstraints := constraints
        executionResults := info.executionResults ++ [{ events := events }]
        prepare := info.prepare.map (PrepareInfo.push tx) }
  | .error e =>
    match info.prepare with
    | some prepare => pure { info with prepare := some (prepare.executionFailed tx e) }
    | none => fail ("transaction failed to execute" :: e)

/-- `App::proposal_checks_and_tx_execution` (lines 814–991). -/
def checksAndTxExecution (tx : Transaction) (info : Proposal parkedMaxTxCount) :
    AppM (BreakOrContinue × Proposal parkedMaxTxCount) :=
  -- check CometBFT size constraints for `prepare_proposal`
  match info.prepare, info.blockSizeConstraints.cometbftHasSpace (encodedLen tx) with
  | some prepare, false => pure (.break, { info with prepare := some prepare.exclude })
  | _, _ =>
    -- check sequencer size constraints
    if info.blockSizeConstraints.sequencerHasSpace (sequenceDataBytes tx) = false then
      info.refuse "max block sequenced data limit passed"
    -- ensure transaction's group is less than or equal to current action group
    else if info.currentTxGroup.rank < tx.group.rank then
      info.refuse "transactions have incorrect transaction group ordering"
    else do
      let result ← runTransaction tx
      let info ← info.record tx result
      pure (.continue, { info with currentTxGroup := tx.group })

/-- The loops over the transactions, which end at the first break. -/
def executeAll : List Transaction → Proposal parkedMaxTxCount → AppM (Proposal parkedMaxTxCount)
  | [], info => pure info
  | tx :: rest, info => do
    let (flow, info) ← info.checksAndTxExecution tx
    match flow with
    | .break => pure info
    | .continue => executeAll rest info

/-- What a proposer starts the loop with. -/
def startPrepare (constraints : BlockSizeConstraints) (mempool : Mempool parkedMaxTxCount) :
    Proposal parkedMaxTxCount where
  blockSizeConstraints := constraints
  executionResults := []
  currentTxGroup := .bundleableGeneral
  prepare := some
    { validatedTxs := []
      includedSignedTxs := []
      failedTxCount := 0
      excludedTxs := 0
      mempool := mempool }

/-- What a validator starts the loop with; it has no mempool here. -/
def startProcess (constraints : BlockSizeConstraints) : Proposal 0 where
  blockSizeConstraints := constraints
  executionResults := []
  currentTxGroup := .bundleableGeneral
  prepare := none

end Proposal

/-- `App::prepare_proposal_tx_execution` (lines 684–773): the transactions are those of the mempool when
the loop starts. -/
def prepareProposalTxExecution (sort : SortUnstable) (mempool : Mempool parkedMaxTxCount)
    (constraints : BlockSizeConstraints) : AppM (PrepareInfo parkedMaxTxCount) := do
  let pendingTxs := PendingTransactions.builderQueue sort mempool.pending
  let info ← (Proposal.startPrepare constraints mempool).executeAll (pendingTxs.map Prod.snd)
  let prepare ← require info.prepare
    ["expected `Proposal::Prepare`, received `Proposal::Process`"]
  writes fun s => { s with base.ephemeral.executionResults := some info.executionResults }
  pure prepare

/-- `App::process_proposal_tx_execution` (lines 787–812). -/
def processProposalTxExecution (txs : List Transaction) (constraints : BlockSizeConstraints) :
    AppM (List ExecTxResult) := do
  let info ← (Proposal.startProcess constraints).executeAll txs
  pure info.executionResults

end

end Astria.Sequencer
