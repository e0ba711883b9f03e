import Astria.Conductor.Commitments

/-!
# The panics of the tracked state

Which commitment states make the getters of the tracked state panic (`state.rs`), over the runs of an
executor whose rollup may return any commitment state.

A session and a response are checked for the heights that their commit level names, and a height is
incremented only when it is read: the largest height passes the check, and so do a soft number of a
firm-only session and, in an update of one block, the other number.

Results:
* `tracked_checked`: what the checks leave of the tracked commitment states;
* `neverPanics_iff`: the getters never panic exactly if the numbers of the session and of all responses
  are in range.
-/

namespace Astria.Conductor

open Astria.Core Astria.Lib Exec
open Astria.Sequencer (BlockCodec wrapErr)

/-! ## The getters -/

/-- `StateReceiver::sequencer_stop_height`; `none` where the source panics. -/
def State.trySequencerStopHeight (s : State) : Option (Option ℕ) :=
  match s.executionSessionParameters.rollupEndBlockNumber with
  | none => some none
  | some number =>
    match mapRollupNumberToSequencerHeight s.executionSessionParameters.sequencerStartBlockHeight
      s.executionSessionParameters.rollupStartBlockNumber number with
    | .ok height => some (if height = 0 then none else some height)
    | .error _ => none

/-- No getter that conductor evaluates at a commit level panics: those of the firm reader and, with
firm blocks, of `is_spread_too_large`; those of the soft reader; and the stop height of both. -/
structure State.NeverPanics (level : CommitLevel) (s : State) : Prop where
  firm : level.isWithFirm = true → s.nextExpectedFirmSequencerHeight ≠ none
  soft : s.nextExpectedSoftSequencerHeight ≠ none
  stop : s.trySequencerStopHeight ≠ none

/-- The numbers of a commitment state are in range: the height after that of the soft block fits, and
with firm blocks the firm block has a height. -/
structure CommitmentState.InRange (level : CommitLevel) (p : ExecutionSessionParameters)
    (c : CommitmentState) : Prop where
  soft_lt : c.soft.number < u64Max
  sum_le : p.sequencerStartBlockHeight + c.soft.number ≤ u64Max
  height_lt : p.sequencerStartBlockHeight + c.soft.number < p.rollupStartBlockNumber + maxHeight
  first_le : level.isWithFirm = true → p.rollupStartBlockNumber ≤ c.firm.number + 1 ∧
    p.rollupStartBlockNumber ≤ p.sequencerStartBlockHeight + c.firm.number

/-! ## What is checked -/

section

variable {ρ : Type} {w w' : World ρ}

/-- The commit level and the parameters of the session are as they were. -/
def World.SameSession (w w' : World ρ) : Prop :=
  w'.commitLevel = w.commitLevel ∧
    w'.state.executionSessionParameters = w.state.executionSessionParameters

instance : IsPreorder (World ρ) World.SameSession where
  refl _ := ⟨rfl, rfl⟩
  trans _ _ _ h h' := ⟨h'.1.trans h.1, h'.2.trans h.2⟩

theorem sameSession_callRollup {α : Type} (x : Exec Report ρ α) :
    Keeps World.SameSession (callRollup x) :=
  Keeps.zoom (Q := fun _ _ => True) (fun _ => trivial) fun _ _ _ => ⟨rfl, rfl⟩

variable [rollup : Rollup ρ]

theorem sameSession_updateCommitmentState (update : Update) :
    Keeps World.SameSession (updateCommitmentState update : ExecutorM ρ Unit) := by
  have hcall (sessionId : String) (c : CommitmentState) : Keeps World.SameSession
      (updateCommitmentStateWithRetry sessionId c : ExecutorM ρ CommitmentState) :=
    Keeps.bind ((sameSession_callRollup _).mapErr _) fun _ => (keeps_lift _).mapErr _
  have htrack (c : CommitmentState) (level : CommitLevel) :
      Keeps World.SameSession (trackCommitmentState c level : ExecutorM ρ Unit) :=
    Keeps.bind (keeps_tryReads _) fun _ => keeps_writes fun _ => ⟨rfl, rfl⟩
  refine Keeps.bind (keeps_reads _) fun _ => Keeps.bind ((keeps_lift _).mapErr _) fun _ => ?_
  exact Keeps.bind ((hcall _ _).mapErr _) fun _ => (htrack _ _).mapErr _

/-- A response is checked for the heights that its update names. -/
theorem updateCommitmentState_checks {update : Update}
    (h : updateCommitmentState update w = .ok () w') :
    ∃ c, checkHeights w.state.executionSessionParameters c update.commitLevel = .ok () ∧
      w'.state.commitmentState = c := by
  simp only [updateCommitmentState, updateCommitmentStateWithRetry, bind_eq_ok, mapErr_eq_ok,
    reads_eq_ok, lift_eq_ok, callRollup_eq_ok] at h
  obtain ⟨_, _, ⟨rfl, rfl⟩, _, _, ⟨-, rfl⟩, new, _, ⟨raw, _, ⟨r, -, rfl⟩, -, rfl⟩, htrack⟩ := h
  obtain ⟨hcheck, rfl⟩ := trackCommitmentState_eq_ok.mp htrack
  exact ⟨new, hcheck, rfl⟩

variable [codec : BlockCodec] [dataCodec : RollupDataCodec]

omit codec in
theorem sameSession_executeChecked (kind : ExecutionKind) (block : ExecutableBlock) :
    Keeps World.SameSession (executeChecked kind block : ExecutorM ρ ExecutedBlockMetadata) := by
  have hexecute (sessionId parentHash : String) : Keeps World.SameSession
      (executeBlock sessionId parentHash block : ExecutorM ρ ExecutedBlockMetadata) := by
    refine Keeps.bind (Keeps.mapErr ?_ _) fun _ => ?_
    · exact Keeps.bind (keeps_require _ _) fun _ => (sameSession_callRollup _).mapErr _
    · exact Keeps.bind (keeps_writes fun _ => ⟨rfl, rfl⟩) fun _ => keeps_pure _
  refine Keeps.bind (keeps_reads _) fun _ => Keeps.bind ((hexecute _ _).mapErr _) fun _ => ?_
  exact Keeps.bind ((keeps_tryReads _).mapErr _) fun _ => keeps_pure _

/-- A block changes neither the commit level nor the parameters of the session. -/
theorem sameSession_deliver (d : Delivery) :
    Keeps World.SameSession (deliver d : ExecutorM ρ Unit) := by
  have hfirm : Keeps World.SameSession (expectFirmHeight : ExecutorM ρ ℕ) :=
    Keeps.bind (keeps_reads _) fun _ => keeps_require _ _
  have hsoft : Keeps World.SameSession (expectSoftHeight : ExecutorM ρ ℕ) :=
    Keeps.bind (keeps_reads _) fun _ => keeps_require _ _
  have hnumber (height : ℕ) : Keeps World.SameSession (rollupNumber height : ExecutorM ρ ℕ) :=
    (keeps_tryReads _).mapErr _
  cases d with
  | soft block =>
    refine Keeps.mapErr ?_ _
    refine Keeps.bind (keeps_reads _) fun _ => Keeps.bind hsoft fun _ => ?_
    refine Keeps.ite (keeps_pure _) (Keeps.ite (keeps_fail _) ?_)
    refine Keeps.bind (hnumber _) fun _ => Keeps.bind (sameSession_executeChecked _ _) fun _ => ?_
    refine Keeps.bind ((sameSession_updateCommitmentState _).mapErr _) fun _ => ?_
    exact keeps_writes fun _ => ⟨rfl, rfl⟩
  | firm block =>
    have hconfirm (number height : ℕ) :
        Keeps World.SameSession (confirmPending number height : ExecutorM ρ Update) := by
      refine Keeps.bind (keeps_reads _) fun pending => ?_
      cases pending with
      | some m => exact Keeps.bind (keeps_writes fun _ => ⟨rfl, rfl⟩) fun _ => keeps_pure _
      | none =>
        refine Keeps.bind (Keeps.mapErr ?_ _) fun _ => keeps_pure _
        refine Keeps.bind ((sameSession_callRollup _).mapErr _) fun _ => ?_
        exact Keeps.bind (keeps_ensure _ _) fun _ => keeps_pure _
    refine Keeps.mapErr ?_ _
    refine Keeps.bind hfirm fun _ => Keeps.bind (keeps_ensure _ _) fun _ => ?_
    refine Keeps.bind (hnumber _) fun _ => Keeps.bind ?_ fun _ => ?_
    · refine Keeps.bind hfirm fun _ => Keeps.bind hsoft fun _ => Keeps.bind (keeps_reads _) fun _ => ?_
      exact Keeps.ite (Keeps.bind (sameSession_executeChecked _ _) fun _ => keeps_pure _) (hconfirm _ _)
    · exact (sameSession_updateCommitmentState _).mapErr _

/-- A soft block leaves the commitment state, or sets one whose soft number has a height. -/
theorem executeSoft_checks {block : FilteredSequencerBlock} (h : executeSoft block w = .ok () w') :
    w'.state = w.state ∨ ∃ c,
      checkHeights w.state.executionSessionParameters c .softOnly = .ok () ∧
        w'.state.commitmentState = c := by
  simp only [executeSoft, bind_eq_ok, reads_eq_ok] at h
  obtain ⟨_, _, ⟨rfl, rfl⟩, expected, _, hexpected, h⟩ := h
  obtain ⟨-, rfl⟩ := expectSoftHeight_eq_ok.mp hexpected
  split_ifs at h with hlt hgt
  · obtain ⟨-, rfl⟩ := pure_eq_ok.mp h
    exact Or.inl rfl
  · exact absurd h (by simp)
  · simp only [bind_eq_ok, mapErr_eq_ok, writes_eq_ok, rollupNumber, tryReads_eq_ok] at h
    obtain ⟨n, _, ⟨-, rfl⟩, m, t, hexecute, _, v, hupdate, rfl⟩ := h
    obtain ⟨c, hcheck, hc⟩ := updateCommitmentState_checks hupdate
    have hsame := (sameSession_executeChecked _ _).of_ok hexecute
    exact Or.inr ⟨c, hsame.2 ▸ hcheck, hc⟩

/-! ## Runs -/

/-- A commit level without firm blocks tracks only soft numbers that have a height. -/
def CommitmentState.Checked (level : CommitLevel) (p : ExecutionSessionParameters)
    (c : CommitmentState) : Prop :=
  level.isWithFirm = true ∨ checkHeights p c .softOnly = .ok ()

/-- What the checks leave of the tracked commitment states. -/
theorem tracked_checked {level : CommitLevel} {p : ExecutionSessionParameters} {ds : List Delivery}
    (hlevel : w.commitLevel = level) (hp : w.state.executionSessionParameters = p)
    (hchecked : w.state.commitmentState.Checked level p) (hadmitted : Admitted level ds) :
    ∀ c ∈ w.tracked ds, c.Checked level p := by
  induction ds generalizing w with
  | nil =>
    intro c hc
    obtain rfl := List.mem_singleton.mp hc
    exact hchecked
  | cons d ds ih =>
    have hd := hadmitted d (List.mem_cons_self ..)
    have hrest : Admitted level ds := fun d' hd' => hadmitted d' (List.mem_cons_of_mem _ hd')
    intro c hc
    rw [World.tracked] at hc
    cases hdeliver : deliver d w with
    | ok u w' =>
      rw [hdeliver] at hc
      rcases List.mem_cons.mp hc with rfl | hc
      · exact hchecked
      have hsame := (sameSession_deliver d).of_ok hdeliver
      refine ih (hsame.1.trans hlevel) (hsame.2.trans hp) ?_ hrest c hc
      cases d with
      | firm block => exact Or.inl hd
      | soft block =>
        rcases executeSoft_checks (mapErr_eq_ok.mp hdeliver) with hstate | ⟨c, hcheck, hc⟩
        · rw [hstate]
          exact hchecked
        · rw [hc]
          exact Or.inr (hp ▸ hcheck)
    | error e w' =>
      rw [hdeliver] at hc
      have hstate : w'.state = w.state := by
        cases d with
        | soft block =>
          obtain ⟨_, h, -⟩ := mapErr_eq_error.mp hdeliver
          exact (executeSoft_error h).1.state_eq
        | firm block =>
          obtain ⟨_, h, -⟩ := mapErr_eq_error.mp hdeliver
          exact (executeFirm_error h).1.state_eq
      rcases List.mem_cons.mp hc with rfl | hc
      · exact hchecked
      · obtain rfl := List.mem_singleton.mp hc
        rw [hstate]
        exact hchecked

omit codec dataCodec rollup in
theorem State.nextExpectedHeight_ne_none {s : State} {number : ℕ} :
    s.nextExpectedHeight number ≠ none ↔ ∃ height, s.MapsTo number height ∧ height < maxHeight := by
  rw [Option.ne_none_iff_exists']
  constructor
  · rintro ⟨next, hnext⟩
    obtain ⟨height, hmaps, rfl, hmax⟩ := State.nextExpectedHeight_eq_some.mp hnext
    exact ⟨height, hmaps, hmax⟩
  · rintro ⟨height, hmaps, hmax⟩
    exact ⟨height + 1, State.nextExpectedHeight_eq_some.mpr ⟨height, hmaps, rfl, hmax⟩⟩

omit codec dataCodec rollup in
/-- The parameters of a session never make the stop height panic. -/
theorem trySequencerStopHeight_ne_none {session : ExecutionSession} {level : CommitLevel} {s : State}
    (hs : State.tryFromExecutionSession session level = .ok s) : s.trySequencerStopHeight ≠ none := by
  obtain ⟨-, -, -, hend⟩ := State.tryFromExecutionSession_ok hs
  unfold State.trySequencerStopHeight
  cases hnumber : s.executionSessionParameters.rollupEndBlockNumber with
  | none => simp
  | some number =>
    obtain ⟨height, hmaps⟩ := hend number hnumber
    simp [mapRollupNumberToSequencerHeight_eq_ok.mpr hmaps]

omit codec dataCodec rollup in
/-- A checked commitment state makes no getter panic exactly if its numbers are in range. -/
theorem CommitmentState.Checked.neverPanics_iff_inRange {s : State} {level : CommitLevel} {c : CommitmentState}
    (hstop : s.trySequencerStopHeight ≠ none) (h : c.Checked level s.executionSessionParameters) :
    State.NeverPanics level { s with commitmentState := c } ↔
      c.InRange level s.executionSessionParameters := by
  have hle := c.firm_le_soft
  constructor
  · rintro ⟨hfirm, hsoft, -⟩
    obtain ⟨height, ⟨hnumber, -, hsum, hheight, -⟩, hmax⟩ := State.nextExpectedHeight_ne_none.mp hsoft
    have hheight : height + s.executionSessionParameters.rollupStartBlockNumber =
        s.executionSessionParameters.sequencerStartBlockHeight + c.soft.number := hheight
    refine ⟨hnumber, hsum, by omega, ?_⟩
    intro hlevel
    obtain ⟨firm, ⟨-, hfirst, -, heq, -⟩, -⟩ := State.nextExpectedHeight_ne_none.mp (hfirm hlevel)
    have heq : firm + s.executionSessionParameters.rollupStartBlockNumber =
        s.executionSessionParameters.sequencerStartBlockHeight + c.firm.number := heq
    exact ⟨hfirst, by omega⟩
  · rintro ⟨hnumber, hsum, hmax, hfirst⟩
    -- the soft number is not below the first one: it was checked, or is not below the firm number
    have hlower : s.executionSessionParameters.rollupStartBlockNumber ≤ c.soft.number + 1 ∧
        s.executionSessionParameters.rollupStartBlockNumber ≤
          s.executionSessionParameters.sequencerStartBlockHeight + c.soft.number := by
      rcases h with hlevel | hcheck
      · have := hfirst hlevel
        omega
      · obtain ⟨height, hmaps⟩ := (checkHeights_eq_ok.mp hcheck).2 rfl
        have := hmaps.height_eq
        exact ⟨hmaps.first_le, by omega⟩
    have hnext (number : ℕ) (hle : number ≤ c.soft.number)
        (hfirst : s.executionSessionParameters.rollupStartBlockNumber ≤ number + 1)
        (hstart : s.executionSessionParameters.rollupStartBlockNumber ≤
          s.executionSessionParameters.sequencerStartBlockHeight + number) :
        State.nextExpectedHeight { s with commitmentState := c } number ≠ none := by
      refine State.nextExpectedHeight_ne_none.mpr
        ⟨s.executionSessionParameters.sequencerStartBlockHeight + number -
          s.executionSessionParameters.rollupStartBlockNumber, ?_, by omega⟩
      unfold State.MapsTo
      dsimp only
      constructor <;> omega
    exact ⟨fun hlevel => hnext _ hle (hfirst hlevel).1 (hfirst hlevel).2,
      hnext _ (Nat.le_refl _) hlower.1 hlower.2, hstop⟩

/-- The getters of the tracked state never panic exactly if the numbers of the session and of all
responses are in range. -/
theorem neverPanics_iff {session : ExecutionSession} {level : CommitLevel} {s : State}
    (hs : State.tryFromExecutionSession session level = .ok s) (r : ρ) {ds : List Delivery}
    (hadmitted : Admitted level ds) :
    (∀ c ∈ (World.start level s r).tracked ds,
      State.NeverPanics level { s with commitmentState := c }) ↔
        ∀ c ∈ (World.start level s r).tracked ds, c.InRange level s.executionSessionParameters := by
  obtain ⟨-, -, hcheck, -⟩ := State.tryFromExecutionSession_ok hs
  have hstart : s.commitmentState.Checked level s.executionSessionParameters := by
    cases level with
    | softOnly => exact Or.inr hcheck
    | firmOnly | softAndFirm => exact Or.inl rfl
  have hchecked := tracked_checked (w := World.start level s r) rfl rfl hstart hadmitted
  exact forall₂_congr fun c hc =>
    (hchecked c hc).neverPanics_iff_inRange (trySequencerStopHeight_ne_none hs)

end

/-! ### A soft number of a firm-only session -/

section

open TestUtils
open scoped Astria.Sequencer.TestUtils

/-- Nothing checks the soft number of a firm-only session, which the spread reads. -/
theorem firmOnly_panics :
    State.tryFromExecutionSession (session 0 (2 ^ 63) (by decide) none 10) .firmOnly =
        .ok (state (session 0 (2 ^ 63) (by decide) none 10)) ∧
      ¬∀ c ∈ (World.start .firmOnly (state (session 0 (2 ^ 63) (by decide) none 10))
          ({ blocks := [] } : Node)).tracked [],
        State.NeverPanics .firmOnly
          { state (session 0 (2 ^ 63) (by decide) none 10) with commitmentState := c } := by
  refine ⟨rfl, fun h => ?_⟩
  have hsoft := (h _ (List.mem_singleton_self _)).soft
  revert hsoft
  decide

/-- A rollup executes a soft block and returns numbers in range. -/
theorem neverPanics_iff_inRange_session :
    let s := state (session 0 0 (by decide) none 10)
    let w := World.start .softAndFirm s ({ blocks := [rollupBlock 0] } : Node)
    let ds : List Delivery := [.soft (softBlock 2 7 [sequencedData 1])]
    (w.tracked ds).map (fun c => (c.firm.number, c.soft.number)) = [(0, 0), (0, 1)] ∧
      ∀ c ∈ w.tracked ds, State.NeverPanics .softAndFirm { s with commitmentState := c } := by
  intro s w ds
  have hnumbers : (w.tracked ds).map (fun c => (c.firm.number, c.soft.number)) = [(0, 0), (0, 1)] := by
    decide +kernel
  have hrange : ∀ c ∈ w.tracked ds, c.InRange .softAndFirm (parameters none 10) := by
    intro c hc
    have hmem := List.mem_map_of_mem (f := fun c => (c.firm.number, c.soft.number)) hc
    rw [hnumbers] at hmem
    simp only [List.mem_cons, List.not_mem_nil, or_false, Prod.mk.injEq] at hmem
    have hfirm : c.firm.number = 0 := by omega
    have hsoft : c.soft.number ≤ 1 := by omega
    have hmax : maxHeight = 2 ^ 63 - 1 := rfl
    have hu64 : u64Max = 2 ^ 64 - 1 := rfl
    constructor
    · omega
    · simp only [parameters]
      omega
    · simp only [parameters]
      omega
    · simp only [parameters]
      omega
  have hs : State.tryFromExecutionSession (session 0 0 (by decide) none 10) .softAndFirm = .ok s := rfl
  have hadmitted : Admitted .softAndFirm ds := by
    intro d hd
    obtain rfl := List.mem_singleton.mp hd
    rfl
  exact ⟨hnumbers, (neverPanics_iff hs ({ blocks := [rollupBlock 0] } : Node) hadmitted).mpr hrange⟩

end

end Astria.Conductor
