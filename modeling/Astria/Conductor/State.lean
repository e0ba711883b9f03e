import Astria.Core.Primitive

/-!
# The tracked state of the rollup

The execution session of a rollup and the heights that its block numbers stand for
(`crates/astria-conductor/src/state.rs`, `crates/astria-core/src/execution/v2/mod.rs`).

A rollup number `n` stands for the sequencer height `start height + n - start number`.  The heights
are CometBFT's, at most `i64::MAX`.

Results:
* `mapRollupNumberToSequencerHeight_eq_ok`: when a number has a height, and which;
* `nextExpectedHeight_eq_some`: the height that follows that of a number;
* `tryMapSequencerHeightToRollupHeight_next`: that height stands for the next number.
-/

namespace Astria.Conductor

open Astria.Core

/-! ## The execution API's types -/

/-- `pbjson_types::Timestamp`. -/
structure Timestamp where
  seconds : ℕ
  nanos : ℕ
  deriving DecidableEq

/-- `ExecutedBlockMetadata` (`execution/v2/mod.rs`). -/
structure ExecutedBlockMetadata where
  number : ℕ
  hash : String
  parentHash : String
  timestamp : Timestamp
  sequencerBlockHash : String
  deriving DecidableEq

/-- `CommitmentState` (`execution/v2/mod.rs`): its builder refuses a firm block above the soft one. -/
structure CommitmentState where
  soft : ExecutedBlockMetadata
  firm : ExecutedBlockMetadata
  lowestCelestiaSearchHeight : ℕ
  firm_le_soft : firm.number ≤ soft.number
  deriving DecidableEq

/-- `CommitmentStateBuilder::build`. -/
def CommitmentState.build (firm soft : ExecutedBlockMetadata) (lowestCelestiaSearchHeight : ℕ) :
    Except Report CommitmentState :=
  if h : firm.number ≤ soft.number then
    .ok
      { soft := soft
        firm := firm
        lowestCelestiaSearchHeight := lowestCelestiaSearchHeight
        firm_le_soft := h }
  else
    .error [s!"firm commitment at `{firm.number}` exceeds soft commitment at `{soft.number}`"]

@[simp] theorem CommitmentState.build_eq_ok {firm soft : ExecutedBlockMetadata} {height : ℕ}
    {c : CommitmentState} :
    CommitmentState.build firm soft height = .ok c ↔
      c.firm = firm ∧ c.soft = soft ∧ c.lowestCelestiaSearchHeight = height := by
  unfold CommitmentState.build
  split_ifs with h
  · rw [Except.ok.injEq]
    constructor
    · rintro rfl
      exact ⟨rfl, rfl, rfl⟩
    · rintro ⟨rfl, rfl, rfl⟩
      rfl
  · refine iff_of_false (by simp) ?_
    rintro ⟨rfl, rfl, rfl⟩
    exact h c.firm_le_soft

/-- `ExecutionSessionParameters`, without the chain ids; the end block number is none for zero. -/
structure ExecutionSessionParameters where
  rollupId : RollupId
  rollupStartBlockNumber : ℕ
  rollupEndBlockNumber : Option ℕ
  sequencerStartBlockHeight : ℕ
  celestiaSearchHeightMaxLookAhead : ℕ
  deriving DecidableEq

/-- `ExecutionSession`. -/
structure ExecutionSession where
  sessionId : String
  executionSessionParameters : ExecutionSessionParameters
  commitmentState : CommitmentState
  deriving DecidableEq

/-- `CommitLevel` (`config.rs`). -/
inductive CommitLevel where
  | firmOnly
  | softOnly
  | softAndFirm
  deriving DecidableEq

namespace CommitLevel

def isWithFirm : CommitLevel → Bool
  | firmOnly | softAndFirm => true
  | softOnly => false

def isWithSoft : CommitLevel → Bool
  | softOnly | softAndFirm => true
  | firmOnly => false

/-- The `Display` form. -/
def display : CommitLevel → String
  | softOnly => "soft"
  | firmOnly => "firm"
  | softAndFirm => "soft-and-firm"

end CommitLevel

/-! ## Numbers and heights -/

/-- `Height::increment`; it panics at the largest height. -/
def increment (height : ℕ) : Option ℕ := if height + 1 ≤ maxHeight then some (height + 1) else none

/-- `map_rollup_number_to_sequencer_height`. -/
def mapRollupNumberToSequencerHeight (sequencerStartHeight rollupStartBlockNumber rollupNumber : ℕ) :
    Except String ℕ :=
  match checkedAdd u64Max rollupNumber 1 with
  | none => .error "overflows u64::MAX"
  | some next =>
    if next < rollupStartBlockNumber then .error "rollup start height exceeds rollup number + 1"
    else
      match checkedAdd u64Max sequencerStartHeight rollupNumber with
      | none => .error "overflows u64::MAX"
      | some sum =>
        match checkedSub sum rollupStartBlockNumber with
        | none => .error "(sequencer height + rollup number - rollup start height) is negative"
        | some height => if height ≤ maxHeight then .ok height else .error "overflows u64::MAX"

/-- `try_map_sequencer_height_to_rollup_height`. -/
def tryMapSequencerHeightToRollupHeight
    (sequencerStartHeight rollupStartBlockNumber sequencerHeight : ℕ) : Except Report ℕ :=
  match checkedSub sequencerHeight sequencerStartHeight with
  | none =>
    .error ["operation `sequencer_height \x7b" ++ toString sequencerHeight ++
      "\x7d - sequencer_start_height \x7b" ++ toString sequencerStartHeight ++ "\x7d` underflowed"]
  | some difference =>
    match checkedAdd u64Max difference rollupStartBlockNumber with
    | none =>
      .error ["operation `(sequencer_height \x7b" ++ toString sequencerHeight ++
        "\x7d - sequencer_start_height \x7b" ++ toString sequencerStartHeight ++
        "\x7d) + rollup_start_block_number \x7b" ++ toString rollupStartBlockNumber ++ "\x7d` overflowed"]
    | some number => .ok number

/-- The conditions under which a number has a height. -/
structure Maps (start first number height : ℕ) : Prop where
  number_lt : number < u64Max
  first_le : first ≤ number + 1
  sum_le : start + number ≤ u64Max
  height_eq : height + first = start + number
  height_le : height ≤ maxHeight

theorem mapRollupNumberToSequencerHeight_eq_ok {start first number height : ℕ} :
    mapRollupNumberToSequencerHeight start first number = .ok height ↔
      Maps start first number height := by
  unfold mapRollupNumberToSequencerHeight
  constructor
  · intro h
    split at h
    · cases h
    next next hnext =>
      rw [checkedAdd_eq_some] at hnext
      split_ifs at h with hfirst
      split at h
      · cases h
      next sum hsum =>
        rw [checkedAdd_eq_some] at hsum
        split at h
        · cases h
        next diff hdiff =>
          rw [checkedSub_eq_some] at hdiff
          split_ifs at h with hmax
          rw [Except.ok.injEq] at h
          constructor <;> omega
  · rintro ⟨hnumber, hfirst, hsum, hheight, hmax⟩
    have h1 : checkedAdd u64Max number 1 = some (number + 1) := checkedAdd_eq_some.mpr ⟨rfl, hnumber⟩
    have h2 : checkedAdd u64Max start number = some (start + number) :=
      checkedAdd_eq_some.mpr ⟨rfl, hsum⟩
    have h3 : checkedSub (start + number) first = some height :=
      checkedSub_eq_some.mpr ⟨by omega, by omega⟩
    rw [h1]
    show (if number + 1 < first then _ else _) = _
    rw [if_neg (by omega), h2]
    show (match checkedSub (start + number) first with | none => _ | some h => _) = _
    rw [h3]
    exact if_pos hmax

theorem tryMapSequencerHeightToRollupHeight_eq_ok {start first height number : ℕ} :
    tryMapSequencerHeightToRollupHeight start first height = .ok number ↔
      start ≤ height ∧ number + start = height + first ∧ number ≤ u64Max := by
  unfold tryMapSequencerHeightToRollupHeight
  constructor
  · intro h
    split at h
    · cases h
    next diff hdiff =>
      rw [checkedSub_eq_some] at hdiff
      split at h
      · cases h
      next n hn =>
        rw [checkedAdd_eq_some] at hn
        rw [Except.ok.injEq] at h
        omega
  · rintro ⟨hstart, heq, hmax⟩
    have h1 : checkedSub height start = some (height - start) :=
      checkedSub_eq_some.mpr ⟨hstart, by omega⟩
    have h2 : checkedAdd u64Max (height - start) first = some number :=
      checkedAdd_eq_some.mpr ⟨by omega, by omega⟩
    rw [h1]
    show (match checkedAdd u64Max (height - start) first with | none => _ | some n => _) = _
    rw [h2]

/-! ## The state -/

/-- `State`. -/
structure State where
  executionSessionId : String
  executionSessionParameters : ExecutionSessionParameters
  commitmentState : CommitmentState
  deriving DecidableEq

/-- `InvalidState`. -/
structure InvalidState where
  mapPurpose : String
  issue : String
  sequencerStartHeight : ℕ
  rollupStartBlockNumber : ℕ
  rollupNumber : ℕ
  deriving DecidableEq

/-- The `Display` form. -/
def InvalidState.display (e : InvalidState) : String :=
  s!"could not map rollup number to sequencer height for {e.mapPurpose}: the operation `{
    e.sequencerStartHeight} + ({e.rollupNumber} - {e.rollupStartBlockNumber})` failed because `{
    e.issue}`"

/-- The height of a rollup number under the parameters of a session. -/
def ExecutionSessionParameters.mapToSequencerHeight (p : ExecutionSessionParameters)
    (mapPurpose : String) (number : ℕ) : Except InvalidState ℕ :=
  match mapRollupNumberToSequencerHeight p.sequencerStartBlockHeight p.rollupStartBlockNumber
    number with
  | .ok height => .ok height
  | .error issue =>
    .error
      { mapPurpose := mapPurpose
        issue := issue
        sequencerStartHeight := p.sequencerStartBlockHeight
        rollupStartBlockNumber := p.rollupStartBlockNumber
        rollupNumber := number }

/-- `map_firm_to_sequencer_height`. -/
def mapFirmToSequencerHeight (p : ExecutionSessionParameters) (c : CommitmentState) :
    Except InvalidState ℕ :=
  p.mapToSequencerHeight "firm commitment" c.firm.number

/-- `map_soft_to_sequencer_height`. -/
def mapSoftToSequencerHeight (p : ExecutionSessionParameters) (c : CommitmentState) :
    Except InvalidState ℕ :=
  p.mapToSequencerHeight "soft commitment" c.soft.number

/-- The numbers of a commitment state that a commit level tracks have heights. -/
def checkHeights (p : ExecutionSessionParameters) (c : CommitmentState) (commitLevel : CommitLevel) :
    Except InvalidState Unit := do
  if commitLevel.isWithFirm then
    let _ ← mapFirmToSequencerHeight p c
  if commitLevel.isWithSoft then
    let _ ← mapSoftToSequencerHeight p c

namespace State

/-- `State::try_from_execution_session`. -/
def tryFromExecutionSession (session : ExecutionSession) (commitLevel : CommitLevel) :
    Except InvalidState State := do
  let p := session.executionSessionParameters
  checkHeights p session.commitmentState commitLevel
  match p.rollupEndBlockNumber with
  | none => pure ()
  | some number =>
    let _ ← p.mapToSequencerHeight "rollup end block number" number
  pure
    { executionSessionId := session.sessionId
      executionSessionParameters := p
      commitmentState := session.commitmentState }

/-- `StateSender::try_update_commitment_state`. -/
def tryUpdateCommitmentState (commitmentState : CommitmentState) (commitLevel : CommitLevel)
    (s : State) : Except InvalidState State := do
  checkHeights s.executionSessionParameters commitmentState commitLevel
  pure { s with commitmentState := commitmentState }

def firm (s : State) : ExecutedBlockMetadata := s.commitmentState.firm

def soft (s : State) : ExecutedBlockMetadata := s.commitmentState.soft

def firmNumber (s : State) : ℕ := s.firm.number

def softNumber (s : State) : ℕ := s.soft.number

/-- `has_firm_number_reached_stop_height`. -/
def hasFirmNumberReachedStopHeight (s : State) : Bool :=
  match s.executionSessionParameters.rollupEndBlockNumber with
  | none => false
  | some number => number ≤ s.firmNumber

/-- `has_soft_number_reached_stop_height`. -/
def hasSoftNumberReachedStopHeight (s : State) : Bool :=
  match s.executionSessionParameters.rollupEndBlockNumber with
  | none => false
  | some number => number ≤ s.softNumber

/-- The height after that of a rollup number; `none` where the source panics. -/
def nextExpectedHeight (s : State) (number : ℕ) : Option ℕ :=
  match mapRollupNumberToSequencerHeight s.executionSessionParameters.sequencerStartBlockHeight
    s.executionSessionParameters.rollupStartBlockNumber number with
  | .ok height => increment height
  | .error _ => none

/-- `next_expected_firm_sequencer_height`. -/
def nextExpectedFirmSequencerHeight (s : State) : Option ℕ := s.nextExpectedHeight s.firmNumber

/-- `next_expected_soft_sequencer_height`. -/
def nextExpectedSoftSequencerHeight (s : State) : Option ℕ := s.nextExpectedHeight s.softNumber

/-- `StateReceiver::sequencer_stop_height`: none without an end block number, and for height zero. -/
def sequencerStopHeight (s : State) : Option ℕ :=
  match s.executionSessionParameters.rollupEndBlockNumber with
  | none => none
  | some number =>
    match mapRollupNumberToSequencerHeight s.executionSessionParameters.sequencerStartBlockHeight
      s.executionSessionParameters.rollupStartBlockNumber number with
    | .ok height => if height = 0 then none else some height
    | .error _ => none

end State

/-! ## What the heights are -/

section

variable {s : State}

theorem State.tryUpdateCommitmentState_eq_ok {c : CommitmentState} {commitLevel : CommitLevel}
    {s' : State} :
    s.tryUpdateCommitmentState c commitLevel = .ok s' ↔
      checkHeights s.executionSessionParameters c commitLevel = .ok () ∧
        s' = { s with commitmentState := c } := by
  unfold State.tryUpdateCommitmentState
  cases checkHeights s.executionSessionParameters c commitLevel with
  | ok u => simp [bind, Except.bind, pure, Except.pure, eq_comm]
  | error e => simp [bind, Except.bind]

/-- The sequencer height that a rollup number of the session stands for. -/
def State.MapsTo (s : State) (number height : ℕ) : Prop :=
  Maps s.executionSessionParameters.sequencerStartBlockHeight
    s.executionSessionParameters.rollupStartBlockNumber number height

/-- A commit level tracks the heights of the numbers of its readers. -/
theorem checkHeights_eq_ok {c : CommitmentState} {commitLevel : CommitLevel} :
    checkHeights s.executionSessionParameters c commitLevel = .ok () ↔
      (commitLevel.isWithFirm = true → ∃ height, s.MapsTo c.firm.number height) ∧
        (commitLevel.isWithSoft = true → ∃ height, s.MapsTo c.soft.number height) := by
  have hmaps (purpose : String) (number : ℕ) :
      (∃ height, s.executionSessionParameters.mapToSequencerHeight purpose number = .ok height) ↔
        ∃ height, s.MapsTo number height := by
    unfold ExecutionSessionParameters.mapToSequencerHeight State.MapsTo
    constructor
    · rintro ⟨height, h⟩
      split at h
      next height' h' => exact ⟨height', mapRollupNumberToSequencerHeight_eq_ok.mp h'⟩
      · cases h
    · rintro ⟨height, h⟩
      rw [mapRollupNumberToSequencerHeight_eq_ok.mpr h]
      exact ⟨height, rfl⟩
  rw [← hmaps "firm commitment" c.firm.number, ← hmaps "soft commitment" c.soft.number]
  show _ ↔ (_ → ∃ height, mapFirmToSequencerHeight _ c = .ok height) ∧
    (_ → ∃ height, mapSoftToSequencerHeight _ c = .ok height)
  unfold checkHeights
  cases hfirm : mapFirmToSequencerHeight s.executionSessionParameters c <;>
    cases hsoft : mapSoftToSequencerHeight s.executionSessionParameters c <;>
      cases commitLevel <;>
        simp [CommitLevel.isWithFirm, CommitLevel.isWithSoft, bind, Except.bind, pure, Except.pure]

/-- What the initial state of a session is, and that its numbers have heights. -/
theorem State.tryFromExecutionSession_ok {session : ExecutionSession} {commitLevel : CommitLevel}
    (h : State.tryFromExecutionSession session commitLevel = .ok s) :
    s.executionSessionParameters = session.executionSessionParameters ∧
      s.commitmentState = session.commitmentState ∧
      checkHeights s.executionSessionParameters s.commitmentState commitLevel = .ok () ∧
      ∀ number, s.executionSessionParameters.rollupEndBlockNumber = some number →
        ∃ height, s.MapsTo number height := by
  unfold State.tryFromExecutionSession at h
  cases hcheck : checkHeights session.executionSessionParameters session.commitmentState commitLevel with
  | error e => simp [hcheck, bind, Except.bind] at h
  | ok u =>
    cases hend : session.executionSessionParameters.rollupEndBlockNumber with
    | none =>
      simp only [hcheck, hend, bind, Except.bind, pure, Except.pure, Except.ok.injEq] at h
      subst h
      refine ⟨rfl, rfl, hcheck, ?_⟩
      intro number hnumber
      rw [hend] at hnumber
      cases hnumber
    | some number =>
      simp only [hcheck, hend, bind, Except.bind, pure, Except.pure] at h
      split at h
      · cases h
      next height hheight =>
        rw [Except.ok.injEq] at h
        subst h
        refine ⟨rfl, rfl, hcheck, ?_⟩
        intro number' hnumber
        rw [hend, Option.some.injEq] at hnumber
        subst hnumber
        unfold ExecutionSessionParameters.mapToSequencerHeight at hheight
        split at hheight
        next height' h' => exact ⟨height', mapRollupNumberToSequencerHeight_eq_ok.mp h'⟩
        · cases hheight

theorem State.nextExpectedHeight_eq_some {number next : ℕ} :
    s.nextExpectedHeight number = some next ↔
      ∃ height, s.MapsTo number height ∧ next = height + 1 ∧ next ≤ maxHeight := by
  unfold State.nextExpectedHeight increment
  constructor
  · intro h
    split at h
    next height hheight =>
      split_ifs at h with hmax
      rw [Option.some.injEq] at h
      exact ⟨height, mapRollupNumberToSequencerHeight_eq_ok.mp hheight, h.symm, h ▸ hmax⟩
    · cases h
  · rintro ⟨height, hmaps, rfl, hmax⟩
    rw [mapRollupNumberToSequencerHeight_eq_ok.mpr hmaps]
    exact if_pos hmax

/-- The height after that of a number stands for the number after it. -/
theorem State.tryMapSequencerHeightToRollupHeight_next {number next : ℕ}
    (h : s.nextExpectedHeight number = some next) :
    tryMapSequencerHeightToRollupHeight s.executionSessionParameters.sequencerStartBlockHeight
      s.executionSessionParameters.rollupStartBlockNumber next = .ok (number + 1) := by
  obtain ⟨height, hmaps, rfl, hmax⟩ := State.nextExpectedHeight_eq_some.mp h
  obtain ⟨hnumber, hfirst, hsum, hheight, -⟩ := hmaps
  rw [tryMapSequencerHeightToRollupHeight_eq_ok]
  omega

/-- A later number is expected at a later height. -/
theorem State.nextExpectedHeight_lt {m n h k : ℕ} (hm : s.nextExpectedHeight m = some h)
    (hn : s.nextExpectedHeight n = some k) : m < n ↔ h < k := by
  obtain ⟨height, hmaps, rfl, -⟩ := State.nextExpectedHeight_eq_some.mp hm
  obtain ⟨height', hmaps', rfl, -⟩ := State.nextExpectedHeight_eq_some.mp hn
  have := hmaps.height_eq
  have := hmaps'.height_eq
  omega

theorem State.nextExpectedHeight_le {m n h k : ℕ} (hm : s.nextExpectedHeight m = some h)
    (hn : s.nextExpectedHeight n = some k) (hle : m ≤ n) : h ≤ k := by
  by_contra hlt
  have := (State.nextExpectedHeight_lt hn hm).mpr (by omega)
  omega

/-- A number between two that have a height has one. -/
theorem State.nextExpectedHeight_between {l m n h k : ℕ} (hl : s.nextExpectedHeight l = some h)
    (hn : s.nextExpectedHeight n = some k) (hlm : l ≤ m) (hmn : m ≤ n) :
    s.nextExpectedHeight m = some (h + (m - l)) := by
  obtain ⟨height, hmaps, rfl, hmax⟩ := State.nextExpectedHeight_eq_some.mp hl
  obtain ⟨height', hmaps', rfl, hmax'⟩ := State.nextExpectedHeight_eq_some.mp hn
  obtain ⟨hnumber, hfirst, hsum, hheight, -⟩ := hmaps
  obtain ⟨hnumber', hfirst', hsum', hheight', -⟩ := hmaps'
  refine State.nextExpectedHeight_eq_some.mpr ⟨height + (m - l), ?_, by omega, by omega⟩
  constructor <;> omega

end

end Astria.Conductor
