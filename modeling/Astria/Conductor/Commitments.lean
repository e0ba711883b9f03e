import Astria.Conductor.TestUtils
import Mathlib.Data.List.Chain

/-!
# The commitments of a run

What a run of soft and firm blocks does to the numbers of the tracked commitment state and to the
blocks that the rollup executed (`crates/astria-conductor/src/executor/mod.rs`).

In every commit level the blocks are executed one number after another, on the soft block where there
are soft blocks and on the firm block where there are none.  A firm-only executor sets the soft block
to the firm block that it executes, also where the soft block was further than that.

Results:
* `deliver_cases`: the five things that a successful block does;
* `Executing.delivered`: the executed blocks have consecutive numbers, in every commit level;
* `commitments_valid_iff`: the numbers of a session never decrease, except where a firm-only session
  starts with its soft number more than one above its firm number.
-/

namespace Astria.Conductor

open Astria.Core Astria.Lib Exec
open Astria.Sequencer (BlockCodec wrapErr)

/-! ## Runs -/

/-- A block that the executor receives. -/
inductive Delivery where
  | soft (block : FilteredSequencerBlock)
  | firm (block : ReconstructedBlock)

/-- A commit level has a reader for the block. -/
def Delivery.Admitted (level : CommitLevel) : Delivery → Prop
  | soft _ => level.isWithSoft = true
  | firm _ => level.isWithFirm = true

/-- The blocks that the two readers of a commit level may deliver. -/
def Admitted (level : CommitLevel) (ds : List Delivery) : Prop := ∀ d ∈ ds, d.Admitted level

section

variable {ρ : Type}

/-- An executor that has entered its event loop with an initial state. -/
def World.start (level : CommitLevel) (s : State) (r : ρ) : World ρ :=
  { executor :=
      { executionCommitLevel := level
        state := s
        blocksPendingFinalization := fun _ => none }
    rollup := r
    executions := [] }

variable [codec : BlockCodec] [dataCodec : RollupDataCodec] [rollup : Rollup ρ]

/-- The branches of `run_event_loop` that receive a block. -/
def deliver : Delivery → ExecutorM ρ Unit
  | .firm block => wrapErr "failed executing firm block" (executeFirm block)
  | .soft block => wrapErr "failed executing soft block" (executeSoft block)

/-- The world after a list of blocks, up to the first that fails. -/
def World.after : List Delivery → World ρ → World ρ
  | [], w => w
  | d :: ds, w =>
    match deliver d w with
    | .ok _ w' => World.after ds w'
    | .error _ w' => w'

/-- The commitment states that an executor tracks on the way. -/
def World.tracked : List Delivery → World ρ → List CommitmentState
  | [], w => [w.state.commitmentState]
  | d :: ds, w =>
    w.state.commitmentState ::
      match deliver d w with
      | .ok _ w' => World.tracked ds w'
      | .error _ w' => [w'.state.commitmentState]

/-! ## One block -/

/-- Everything that a successful block does. -/
inductive Delivered (w : World ρ) : Delivery → World ρ → Prop
  | stale {block : FilteredSequencerBlock} {expected : ℕ}
      (height : w.state.nextExpectedSoftSequencerHeight = some expected)
      (lt : block.height < expected) : Delivered w (.soft block) w
  | softExecuted {block : FilteredSequencerBlock} {m : ExecutedBlockMetadata} {c : CommitmentState}
      {r : ρ} (height : w.state.nextExpectedSoftSequencerHeight = some block.height)
      (number : m.number = w.state.softNumber + 1) (tracks : Tracks (.onlySoft m) w.state c) :
      Delivered w (.soft block) ((((w.addExecution
          { parentHash := w.state.soft.hash, block := softExecutable w block, result := m }
        ).setCommitmentState c).insertPending (w.state.softNumber + 1) m).setRollup r)
  | firmExecuted {block : ReconstructedBlock} {soft : ℕ} {m : ExecutedBlockMetadata}
      {c : CommitmentState} {r : ρ}
      (firmHeight : w.state.nextExpectedFirmSequencerHeight = some block.sequencerHeight)
      (softHeight : w.state.nextExpectedSoftSequencerHeight = some soft)
      (should : shouldExecuteFirmBlock block.sequencerHeight soft w.commitLevel = true)
      (number : m.number = w.state.firmNumber + 1)
      (tracks : Tracks (.toSame m block.celestiaHeight) w.state c) :
      Delivered w (.firm block) (((w.addExecution
          { parentHash := w.state.firm.hash
            block := ExecutableBlock.fromReconstructed block
            result := m }).setCommitmentState c).setRollup r)
  | firmConfirmed {block : ReconstructedBlock} {soft : ℕ} {m : ExecutedBlockMetadata}
      {c : CommitmentState} {r : ρ}
      (firmHeight : w.state.nextExpectedFirmSequencerHeight = some block.sequencerHeight)
      (softHeight : w.state.nextExpectedSoftSequencerHeight = some soft)
      (should : shouldExecuteFirmBlock block.sequencerHeight soft w.commitLevel = false)
      (pending : w.pending (w.state.firmNumber + 1) = some m)
      (tracks : Tracks (.onlyFirm m block.celestiaHeight) w.state c) :
      Delivered w (.firm block)
        (((w.removePending (w.state.firmNumber + 1)).setCommitmentState c).setRollup r)
  | firmFetched {block : ReconstructedBlock} {soft : ℕ} {m : ExecutedBlockMetadata}
      {c : CommitmentState} {r : ρ}
      (firmHeight : w.state.nextExpectedFirmSequencerHeight = some block.sequencerHeight)
      (softHeight : w.state.nextExpectedSoftSequencerHeight = some soft)
      (should : shouldExecuteFirmBlock block.sequencerHeight soft w.commitLevel = false)
      (pending : w.pending (w.state.firmNumber + 1) = none)
      (number : m.number = w.state.firmNumber + 1)
      (tracks : Tracks (.onlyFirm m block.celestiaHeight) w.state c) :
      Delivered w (.firm block) ((w.setCommitmentState c).setRollup r)

theorem deliver_cases (he : Echoes ρ) {d : Delivery} {w w' : World ρ} (h : deliver d w = .ok () w') :
    Delivered w d w' := by
  cases d with
  | soft block =>
    obtain ⟨expected, hexpected, ⟨hlt, rfl⟩ | ⟨hheight, m, c, r, hnumber, htracks, rfl⟩⟩ :=
      executeSoft_cases he (mapErr_eq_ok.mp h)
    · exact .stale hexpected hlt
    · exact .softExecuted (hheight ▸ hexpected) hnumber htracks
  | firm block =>
    obtain ⟨soft, hfirm, hsoft, ⟨hshould, m, c, r, hnumber, htracks, rfl⟩ |
      ⟨hshould, ⟨m, c, r, hm, htracks, rfl⟩ | ⟨m, c, r, hm, hnumber, htracks, rfl⟩⟩⟩ :=
      executeFirm_cases he (mapErr_eq_ok.mp h)
    · exact .firmExecuted hfirm hsoft hshould hnumber htracks
    · exact .firmConfirmed hfirm hsoft hshould hm htracks
    · exact .firmFetched hfirm hsoft hshould hm hnumber htracks

end

/-! ## The executed blocks -/

namespace World

variable {ρ : Type}

/-- The number of the block that the next one is executed on. -/
def frontier (w : World ρ) : ℕ :=
  if w.commitLevel = .firmOnly then w.state.firmNumber else w.state.softNumber

end World

section

variable {ρ : Type} {w w' : World ρ} {level : CommitLevel} {s : State}

/-- What holds of every world that an executor with a given commit level reaches from a state. -/
structure Executing (level : CommitLevel) (s : State) (w : World ρ) : Prop where
  level_eq : w.commitLevel = level
  session_eq : w.state = { s with commitmentState := w.state.commitmentState }
  pending_number : ∀ n m, w.pending n = some m → m.number = n
  executed : ∀ x ∈ w.executions, ∃ n, x.result.number = n + 1 ∧ n < w.frontier ∧
    s.nextExpectedHeight n = some x.block.height
  ascending : w.executions.Pairwise fun x y => x.result.number < y.result.number

theorem Executing.nextExpectedHeight_eq (h : Executing level s w) (n : ℕ) :
    w.state.nextExpectedHeight n = s.nextExpectedHeight n := by
  rw [h.session_eq]
  rfl

theorem Executing.start (level : CommitLevel) (s : State) (r : ρ) :
    Executing level s (World.start level s r) where
  level_eq := rfl
  session_eq := rfl
  pending_number _ _ h := by cases h
  executed _ h := by cases h
  ascending := .nil

/-- The heights of the executed blocks ascend. -/
theorem Executing.heights (h : Executing level s w) :
    w.executions.Pairwise fun x y => x.block.height < y.block.height := by
  refine h.ascending.imp_of_mem fun {x y} hx hy hlt => ?_
  obtain ⟨m, hm, -, hmx⟩ := h.executed x hx
  obtain ⟨n, hn, -, hny⟩ := h.executed y hy
  exact (State.nextExpectedHeight_lt hmx hny).mp (by omega)

/-- A firm block is executed by a soft-and-firm executor exactly if the soft number is the firm one. -/
theorem shouldExecute_softAndFirm {firm soft : ℕ}
    (hfirm : w.state.nextExpectedFirmSequencerHeight = some firm)
    (hsoft : w.state.nextExpectedSoftSequencerHeight = some soft) :
    shouldExecuteFirmBlock firm soft .softAndFirm = true ↔ w.state.firmNumber = w.state.softNumber := by
  have hlt := State.nextExpectedHeight_lt hfirm hsoft
  have hle := w.state.commitmentState.firm_le_soft
  have hle : w.state.firmNumber ≤ w.state.softNumber := hle
  show decide (firm = soft) = true ↔ _
  rw [decide_eq_true_iff]
  constructor
  · intro h
    by_contra hne
    have := hlt.mp (by omega)
    omega
  · intro h
    have hsame : w.state.nextExpectedHeight w.state.firmNumber = some soft := h ▸ hsoft
    exact Option.some.inj (hfirm.symm.trans hsame)

/-- Where a firm block is executed, it is executed on the last executed block. -/
theorem firmNumber_eq_frontier {firm soft : ℕ}
    (hfirm : w.state.nextExpectedFirmSequencerHeight = some firm)
    (hsoft : w.state.nextExpectedSoftSequencerHeight = some soft)
    (hshould : shouldExecuteFirmBlock firm soft w.commitLevel = true) :
    w.state.firmNumber = w.frontier := by
  unfold World.frontier
  cases hlevel : w.commitLevel with
  | firmOnly => rfl
  | softOnly =>
    rw [hlevel] at hshould
    cases hshould
  | softAndFirm =>
    rw [hlevel] at hshould
    exact (shouldExecute_softAndFirm hfirm hsoft).mp hshould

/-- Where a firm block confirms another, the next block is executed on the soft block. -/
theorem frontier_confirm {firm soft : ℕ} {c : CommitmentState}
    (hshould : shouldExecuteFirmBlock firm soft w.commitLevel = false) (hsoft : c.soft = w.state.soft)
    (hlevel : w'.commitLevel = w.commitLevel := by rfl)
    (hstate : w'.state.commitmentState = c := by rfl) : w'.frontier = w.frontier := by
  unfold World.frontier
  have hne : w.commitLevel ≠ .firmOnly := by
    intro heq
    rw [heq] at hshould
    cases hshould
  rw [hlevel, if_neg hne, if_neg hne]
  show w'.state.commitmentState.soft.number = w.state.soft.number
  rw [hstate, hsoft]

/-- Executing the next block keeps the executed blocks consecutive. -/
theorem Executing.add (h : Executing level s w) {x : Execution}
    (hnumber : x.result.number = w.frontier + 1)
    (hheight : w.state.nextExpectedHeight w.frontier = some x.block.height)
    (hlevel : w'.commitLevel = w.commitLevel)
    (hsession : w'.state = { w.state with commitmentState := w'.state.commitmentState })
    (hpending : ∀ n m, w'.pending n = some m → m.number = n)
    (hexecutions : w'.executions = w.executions ++ [x]) (hfrontier : w'.frontier = w.frontier + 1) :
    Executing level s w' where
  level_eq := hlevel.trans h.level_eq
  session_eq := by
    rw [hsession, h.session_eq]
  pending_number := hpending
  executed y hy := by
    rw [hexecutions, List.mem_append, List.mem_singleton] at hy
    obtain hy | rfl := hy
    · obtain ⟨n, hn, hlt, hy⟩ := h.executed y hy
      exact ⟨n, hn, by omega, hy⟩
    · exact ⟨w.frontier, hnumber, by omega, h.nextExpectedHeight_eq _ ▸ hheight⟩
  ascending := by
    rw [hexecutions, List.pairwise_append]
    refine ⟨h.ascending, List.pairwise_singleton _ _, ?_⟩
    intro y hy z hz
    rw [List.mem_singleton] at hz
    obtain ⟨n, hn, hlt, -⟩ := h.executed y hy
    subst hz
    omega

/-- Moving the firm block keeps the executed blocks. -/
theorem Executing.confirm (h : Executing level s w) (hlevel : w'.commitLevel = w.commitLevel)
    (hsession : w'.state = { w.state with commitmentState := w'.state.commitmentState })
    (hpending : ∀ n m, w'.pending n = some m → m.number = n)
    (hexecutions : w'.executions = w.executions) (hfrontier : w'.frontier = w.frontier) :
    Executing level s w' where
  level_eq := hlevel.trans h.level_eq
  session_eq := by
    rw [hsession, h.session_eq]
  pending_number := hpending
  executed := by
    rw [hexecutions, hfrontier]
    exact h.executed
  ascending := by
    rw [hexecutions]
    exact h.ascending

variable {d : Delivery}

/-- A soft block is executed where soft blocks are, a firm block where it is the next to execute. -/
theorem frontier_soft (h : Executing level s w) {block : FilteredSequencerBlock}
    (hadmitted : (Delivery.soft block).Admitted level) : w.frontier = w.state.softNumber := by
  have hlevel : w.commitLevel ≠ .firmOnly := by
    rw [h.level_eq]
    rintro rfl
    cases hadmitted
  exact if_neg hlevel

variable [codec : BlockCodec] [dataCodec : RollupDataCodec]

/-- A successful block keeps the executed blocks consecutive. -/
theorem Executing.delivered (h : Executing level s w) (hadmitted : d.Admitted level)
    (hd : Delivered w d w') : Executing level s w' := by
  cases hd with
  | stale => exact h
  | @softExecuted block m c r hheight hnumber htracks =>
    have hfrontier := frontier_soft h hadmitted
    have hsoft : c.soft = m := htracks.soft_eq
    refine h.add (x := ⟨w.state.soft.hash, softExecutable w block, m⟩) (hfrontier ▸ hnumber)
      (hfrontier ▸ hheight) rfl rfl ?_ rfl ?_
    · intro n m' hm'
      show m'.number = n
      have hm' : Function.update w.pending (w.state.softNumber + 1) (some m) n = some m' := hm'
      by_cases hn : n = w.state.softNumber + 1
      · subst hn
        rw [Function.update_self, Option.some.injEq] at hm'
        rw [← hm', hnumber]
      · rw [Function.update_of_ne hn] at hm'
        exact h.pending_number n m' hm'
    · rw [hfrontier]
      have hlevel : w.commitLevel ≠ .firmOnly := by
        rw [h.level_eq]
        rintro rfl
        cases hadmitted
      show (if w.commitLevel = .firmOnly then c.firm.number else c.soft.number) = _
      rw [if_neg hlevel, hsoft, hnumber]
  | @firmExecuted block soft m c r hfirm hsoft hshould hnumber htracks =>
    have hfrontier := firmNumber_eq_frontier hfirm hsoft hshould
    have hcfirm : c.firm = m := htracks.firm_eq
    have hcsoft : c.soft = m := htracks.soft_eq
    refine h.add (x := ⟨w.state.firm.hash, ExecutableBlock.fromReconstructed block, m⟩)
      (hfrontier ▸ hnumber) (hfrontier ▸ hfirm) rfl rfl h.pending_number rfl ?_
    show (if w.commitLevel = .firmOnly then c.firm.number else c.soft.number) = _
    rw [hcfirm, hcsoft, ite_self, hnumber, hfrontier]
  | @firmConfirmed block soft m c r hfirm hsoft hshould hpending htracks =>
    have hcsoft : c.soft = w.state.soft := htracks.soft_eq
    refine h.confirm rfl rfl ?_ rfl ?_
    · intro n m' hm'
      have hm' : Function.update w.pending (w.state.firmNumber + 1) none n = some m' := hm'
      by_cases hn : n = w.state.firmNumber + 1
      · rw [hn, Function.update_self] at hm'
        cases hm'
      · rw [Function.update_of_ne hn] at hm'
        exact h.pending_number n m' hm'
    · exact frontier_confirm hshould hcsoft
  | @firmFetched block soft m c r hfirm hsoft hshould hpending hnumber htracks =>
    have hcsoft : c.soft = w.state.soft := htracks.soft_eq
    exact h.confirm rfl rfl h.pending_number rfl (frontier_confirm hshould hcsoft)

/-- The firm number never decreases. -/
theorem Delivered.firmNumber_le (hd : Delivered w d w') (h : Executing level s w) :
    w.state.firmNumber ≤ w'.state.firmNumber := by
  cases hd with
  | stale => exact le_rfl
  | @softExecuted block m c r hheight hnumber htracks =>
    have hfirm : c.firm = w.state.firm := htracks.firm_eq
    show w.state.firmNumber ≤ c.firm.number
    rw [hfirm]
    exact le_rfl
  | @firmExecuted block soft m c r hfirm hsoft hshould hnumber htracks =>
    have hfirm : c.firm = m := htracks.firm_eq
    show w.state.firmNumber ≤ c.firm.number
    rw [hfirm]
    omega
  | @firmConfirmed block soft m c r hfirm hsoft hshould hpending htracks =>
    have hfirm : c.firm = m := htracks.firm_eq
    have hnumber := h.pending_number _ _ hpending
    show w.state.firmNumber ≤ c.firm.number
    rw [hfirm]
    omega
  | @firmFetched block soft m c r hfirm hsoft hshould hpending hnumber htracks =>
    have hfirm : c.firm = m := htracks.firm_eq
    show w.state.firmNumber ≤ c.firm.number
    rw [hfirm]
    omega

/-- The soft number never decreases where there are soft blocks. -/
theorem Delivered.softNumber_le (hd : Delivered w d w') (h : Executing level s w)
    (hlevel : level ≠ .firmOnly) : w.state.softNumber ≤ w'.state.softNumber := by
  cases hd with
  | stale => exact le_rfl
  | @softExecuted block m c r hheight hnumber htracks =>
    have hsoft : c.soft = m := htracks.soft_eq
    show w.state.softNumber ≤ c.soft.number
    rw [hsoft]
    omega
  | @firmExecuted block soft m c r hfirm hsoft hshould hnumber htracks =>
    have hcsoft : c.soft = m := htracks.soft_eq
    have hfrontier := firmNumber_eq_frontier hfirm hsoft hshould
    have heq : w.frontier = w.state.softNumber := if_neg (h.level_eq ▸ hlevel)
    show w.state.softNumber ≤ c.soft.number
    rw [hcsoft]
    omega
  | @firmConfirmed block soft m c r hfirm hsoft hshould hpending htracks =>
    have hcsoft : c.soft = w.state.soft := htracks.soft_eq
    show w.state.softNumber ≤ c.soft.number
    rw [hcsoft]
    exact le_rfl
  | @firmFetched block soft m c r hfirm hsoft hshould hpending hnumber htracks =>
    have hcsoft : c.soft = w.state.soft := htracks.soft_eq
    show w.state.softNumber ≤ c.soft.number
    rw [hcsoft]
    exact le_rfl

/-- A firm-only executor sets both numbers to the next firm number. -/
theorem Delivered.firmOnly {block : ReconstructedBlock} (hd : Delivered w (.firm block) w')
    (hlevel : w.commitLevel = .firmOnly) :
    w.state.nextExpectedSoftSequencerHeight ≠ none ∧
      w'.state.firmNumber = w.state.firmNumber + 1 ∧
      w'.state.softNumber = w.state.firmNumber + 1 := by
  cases hd with
  | @firmExecuted _ soft m c r hfirm hsoft hshould hnumber htracks =>
    have hcfirm : c.firm = m := htracks.firm_eq
    have hcsoft : c.soft = m := htracks.soft_eq
    refine ⟨by simp [hsoft], ?_, ?_⟩
    · show c.firm.number = _
      rw [hcfirm, hnumber]
    · show c.soft.number = _
      rw [hcsoft, hnumber]
  | firmConfirmed hfirm hsoft hshould =>
    rw [hlevel] at hshould
    cases hshould
  | firmFetched hfirm hsoft hshould =>
    rw [hlevel] at hshould
    cases hshould

end

/-! ## Validity -/

section

/-- A rollup whose calls behave: it numbers a block one above its parent, and returns the commitment
states that it accepts. -/
structure Faithful {ρ : Type} [rollup : Rollup ρ] (numberOf : ρ → String → Option ℕ) : Prop where
  numbers : ∀ (request : ExecuteBlockRequest) (r r' : ρ) (m : ExecutedBlockMetadata),
    rollup.executeBlock request r = .ok m r' →
      ∃ parent, numberOf r request.parentHash = some parent ∧ m.number = parent + 1 ∧
        numberOf r' m.hash = some m.number
  echoes : Echoes ρ

/-- A rollup that keeps its blocks, the latest first, and executes a block on any of them. -/
structure Node where
  blocks : List ExecutedBlockMetadata

namespace Node

/-- The first block of a hash. -/
def find (node : Node) (hash : String) : Option ExecutedBlockMetadata :=
  node.blocks.find? fun block => block.hash = hash

/-- The number of the block of a hash. -/
def numberOf (node : Node) (hash : String) : Option ℕ := (node.find hash).map (·.number)

/-- The block that a request makes on its parent. -/
def next (node : Node) (request : ExecuteBlockRequest) (parent : ExecutedBlockMetadata) :
    ExecutedBlockMetadata :=
  { number := parent.number + 1
    hash := toString node.blocks.length
    parentHash := request.parentHash
    timestamp := request.timestamp
    sequencerBlockHash := request.sequencerBlockHash }

instance : Rollup Node where
  executeBlock request := do
    let node ← reads id
    let parent ← require (node.find request.parentHash) ["unknown parent"]
    writes fun node => { blocks := node.next request parent :: node.blocks }
    pure (node.next request parent)
  getExecutedBlockMetadata number := do
    let node ← reads id
    require (node.blocks.find? fun block => block.number = number) ["unknown block"]
  updateCommitmentState _ c := pure c.intoRaw

theorem executeBlock_eq_ok {request : ExecuteBlockRequest} {node node' : Node}
    {m : ExecutedBlockMetadata} :
    Rollup.executeBlock request node = .ok m node' ↔
      ∃ parent, node.find request.parentHash = some parent ∧ m = node.next request parent ∧
        node' = { blocks := m :: node.blocks } := by
  show (do
    let node ← reads id
    let parent ← require (node.find request.parentHash) ["unknown parent"]
    writes fun node => { blocks := node.next request parent :: node.blocks }
    pure (node.next request parent) : Exec Report Node ExecutedBlockMetadata) node = .ok m node' ↔ _
  simp only [bind_eq_ok, reads_eq_ok, require_eq_ok, writes_eq_ok, pure_eq_ok]
  constructor
  · rintro ⟨_, _, ⟨rfl, rfl⟩, parent, _, ⟨hparent, rfl⟩, _, _, rfl, rfl, rfl⟩
    exact ⟨parent, hparent, rfl, rfl⟩
  · rintro ⟨parent, hparent, rfl, rfl⟩
    exact ⟨_, _, ⟨rfl, rfl⟩, parent, _, ⟨hparent, rfl⟩, (), _, rfl, rfl, rfl⟩

theorem faithful : Faithful numberOf where
  numbers request node node' m h := by
    obtain ⟨parent, hparent, rfl, rfl⟩ := executeBlock_eq_ok.mp h
    refine ⟨parent.number, ?_, rfl, ?_⟩
    · unfold numberOf
      rw [hparent]
      rfl
    · unfold numberOf find
      rw [List.find?_cons_of_pos (by simp)]
      rfl
  echoes sessionId c node node' raw h := (pure_eq_ok.mp h).1

end Node

variable {ρ : Type} {w w' : World ρ} {level : CommitLevel} {s : State}
  [codec : BlockCodec] [dataCodec : RollupDataCodec] [rollup : Rollup ρ] {d : Delivery}

/-- A failed block leaves the tracked state, and executes at most the next block. -/
theorem deliver_error (h : Executing level s w) (hadmitted : d.Admitted level) {e : Report}
    (hd : deliver d w = .error e w') :
    w'.state = w.state ∧
      (w'.executions = w.executions ∨ ∃ x, w'.executions = w.executions ++ [x] ∧
        w.state.nextExpectedHeight w.frontier = some x.block.height) := by
  cases d with
  | soft block =>
    obtain ⟨_, hd, -⟩ := mapErr_eq_error.mp hd
    obtain ⟨hfailed, hheight⟩ := executeSoft_error hd
    refine ⟨hfailed.state_eq, ?_⟩
    obtain hsame | hnext := hheight
    · exact Or.inl hsame
    · obtain hsame | ⟨parentHash, m, hexecutions⟩ := hfailed.executions_eq
      · exact Or.inl hsame
      · exact Or.inr ⟨_, hexecutions, frontier_soft h hadmitted ▸ hnext⟩
  | firm block =>
    obtain ⟨_, hd, -⟩ := mapErr_eq_error.mp hd
    obtain ⟨hfailed, hheight⟩ := executeFirm_error hd
    refine ⟨hfailed.state_eq, ?_⟩
    obtain hsame | ⟨soft, hfirm, hsoft, hshould⟩ := hheight
    · exact Or.inl hsame
    · obtain hsame | ⟨parentHash, m, hexecutions⟩ := hfailed.executions_eq
      · exact Or.inl hsame
      · exact Or.inr ⟨_, hexecutions, firmNumber_eq_frontier hfirm hsoft hshould ▸ hfirm⟩

/-- Neither number decreases from one commitment state to the next. -/
def NoDecrease (a b : CommitmentState) : Prop :=
  a.firm.number ≤ b.firm.number ∧ a.soft.number ≤ b.soft.number

/-- What the documentation of `CommitmentState` asks of the tracked states of a run, and that no
height is executed twice. -/
structure ValidRun (ds : List Delivery) (w : World ρ) : Prop where
  ordered : ∀ c ∈ w.tracked ds, c.firm.number ≤ c.soft.number
  noDecrease : (w.tracked ds).IsChain NoDecrease
  once : ((w.after ds).executions.map (·.block.height)).Nodup

theorem tracked_head (ds : List Delivery) (w : World ρ) :
    (w.tracked ds).head? = some w.state.commitmentState := by
  cases ds <;> rfl

/-- The heights of the executed blocks differ, also where the last one failed. -/
theorem Executing.nodup_after (he : Echoes ρ) {ds : List Delivery} (h : Executing level s w)
    (hadmitted : Admitted level ds) : ((w.after ds).executions.map (·.block.height)).Nodup := by
  induction ds generalizing w with
  | nil => exact (List.pairwise_map.mpr h.heights).imp fun hlt => Nat.ne_of_lt hlt
  | cons d ds ih =>
    have hd := hadmitted d (List.mem_cons_self ..)
    rw [World.after]
    cases hdeliver : deliver d w with
    | ok u w' =>
      refine ih (h.delivered hd (deliver_cases he hdeliver)) ?_
      exact fun d' hd' => hadmitted d' (List.mem_cons_of_mem _ hd')
    | error e w' =>
      show (w'.executions.map (·.block.height)).Nodup
      have hheights : (w.executions.map (·.block.height)).Nodup :=
        (List.pairwise_map.mpr h.heights).imp fun hlt => Nat.ne_of_lt hlt
      obtain ⟨-, hsame | ⟨x, hx, hheight⟩⟩ := deliver_error h hd hdeliver
      · rw [hsame]
        exact hheights
      · rw [hx, List.map_append, List.nodup_append]
        refine ⟨hheights, List.nodup_singleton _, ?_⟩
        intro a ha b hb hab
        obtain ⟨y, hy, rfl⟩ := List.mem_map.mp ha
        rw [List.map_singleton, List.mem_singleton] at hb
        obtain ⟨n, -, hn, hny⟩ := h.executed y hy
        rw [h.nextExpectedHeight_eq] at hheight
        have := (State.nextExpectedHeight_lt hny hheight).mp hn
        omega

/-- The tracked numbers never decrease where a firm-only executor is at most one block behind, or
cannot go on. -/
theorem tracked_noDecrease (he : Echoes ρ) {ds : List Delivery} (h : Executing level s w)
    (hadmitted : Admitted level ds)
    (hfirmOnly : level = .firmOnly → w.state.softNumber ≤ w.state.firmNumber + 1 ∨
      w.state.nextExpectedSoftSequencerHeight = none) : (w.tracked ds).IsChain NoDecrease := by
  induction ds generalizing w with
  | nil => exact List.isChain_singleton _
  | cons d ds ih =>
    have hd := hadmitted d (List.mem_cons_self ..)
    have hrest : Admitted level ds := fun d' hd' => hadmitted d' (List.mem_cons_of_mem _ hd')
    rw [World.tracked]
    cases hdeliver : deliver d w with
    | error e w' =>
      show List.IsChain NoDecrease [_, w'.state.commitmentState]
      rw [(deliver_error h hd hdeliver).1]
      exact List.isChain_cons_cons.mpr ⟨⟨le_rfl, le_rfl⟩, List.isChain_singleton _⟩
    | ok u w' =>
      show List.IsChain NoDecrease (_ :: w'.tracked ds)
      have hdelivered := deliver_cases he hdeliver
      have hfirm := hdelivered.firmNumber_le h
      have h' := h.delivered hd hdelivered
      have hnumbers : w.state.softNumber ≤ w'.state.softNumber ∧
          (level = .firmOnly → w'.state.softNumber ≤ w'.state.firmNumber + 1 ∨
            w'.state.nextExpectedSoftSequencerHeight = none) := by
        by_cases hlevel : level = .firmOnly
        · obtain ⟨block, rfl⟩ : ∃ block, d = .firm block := by
            cases d with
            | firm block => exact ⟨block, rfl⟩
            | soft block =>
              rw [hlevel] at hd
              cases hd
          obtain ⟨hsome, hfirm', hsoft'⟩ := hdelivered.firmOnly (h.level_eq.trans hlevel)
          have hle := (hfirmOnly hlevel).resolve_right hsome
          exact ⟨by omega, fun _ => Or.inl (by omega)⟩
        · exact ⟨hdelivered.softNumber_le h hlevel, fun heq => absurd heq hlevel⟩
      refine List.isChain_cons.mpr ⟨?_, ih h' hrest hnumbers.2⟩
      intro c hc
      rw [tracked_head, Option.mem_some_iff] at hc
      subst hc
      exact ⟨hfirm, hnumbers.1⟩

/-- Every run of a commit level from a state, with a faithful rollup, is valid. -/
def CommitmentsValid (level : CommitLevel) (s : State) : Prop :=
  ∀ (ρ : Type) [Rollup ρ] (numberOf : ρ → String → Option ℕ), Faithful numberOf →
    ∀ (r : ρ) (ds : List Delivery), Admitted level ds → ValidRun ds (World.start level s r)

/-- The next firm block of a session, without transactions. -/
def nextFirmBlock (height : ℕ) : ReconstructedBlock :=
  { celestiaHeight := 1
    blockHash := List.Vector.replicate 32 0
    header :=
      { chainId := "test"
        height := height
        time := 0
        rollupTransactionsRoot := List.Vector.replicate 32 0
        dataHash := List.Vector.replicate 32 0
        proposerAddress := List.Vector.replicate 20 0 }
    transactions := []
    extendedCommitInfo := none }

/-- A firm-only executor whose soft number is further than the next firm number sets it back. -/
theorem firmOnly_decreases (hsession : ∃ height, s.MapsTo s.firmNumber height)
    (hlt : s.firmNumber + 1 < s.softNumber) (hsoft : s.nextExpectedSoftSequencerHeight ≠ none) :
    ¬CommitmentsValid .firmOnly s := by
  obtain ⟨soft, hsoft⟩ := Option.ne_none_iff_exists'.mp hsoft
  obtain ⟨height, hmaps, rfl, hmax⟩ := State.nextExpectedHeight_eq_some.mp hsoft
  obtain ⟨firm, hfirmMaps⟩ := hsession
  have hsum := hmaps.sum_le
  have hheight := hmaps.height_eq
  have hfirmHeight := hfirmMaps.height_eq
  have hfirst := hfirmMaps.first_le
  have hnumber := hmaps.number_lt
  have hfirm : s.nextExpectedFirmSequencerHeight = some (firm + 1) :=
    State.nextExpectedHeight_eq_some.mpr ⟨firm, hfirmMaps, rfl, by omega⟩
  have hnext : s.MapsTo (s.firmNumber + 1) (firm + 1) :=
    ⟨by omega, by omega, by omega, by omega, by omega⟩
  intro hvalid
  let node : Node := { blocks := [s.firm] }
  let block := nextFirmBlock (firm + 1)
  let x := ExecutableBlock.fromReconstructed block
  let w : World Node := World.start .firmOnly s node
  let request : ExecuteBlockRequest :=
    { sessionId := s.executionSessionId
      parentHash := s.firm.hash
      transactions := []
      timestamp := x.timestamp
      sequencerBlockHash := displayHash x.hash }
  let m := node.next request s.firm
  have hexecute : Rollup.executeBlock request node = .ok m { blocks := m :: node.blocks } :=
    Node.executeBlock_eq_ok.mpr
      ⟨s.firm, List.find?_cons_of_pos (by simp [request]), rfl, rfl⟩
  have hmax : m.number ≤ u64Max := by
    show s.firmNumber + 1 ≤ u64Max
    omega
  have hchecked : executeChecked .firm x w = .ok m _ :=
    executeChecked_of_execute (show decodeTransactions x.transactions = some [] from rfl) hexecute rfl
      hmax
  let c : CommitmentState :=
    { soft := m, firm := m, lowestCelestiaSearchHeight := 1, firm_le_soft := le_rfl }
  have htracks : Tracks (.toSame m block.celestiaHeight) w.state c :=
    ⟨rfl, rfl, rfl, checkHeights_eq_ok.mpr ⟨fun _ => ⟨_, hnext⟩, fun _ => ⟨_, hnext⟩⟩⟩
  have hok : executeFirm block w = .ok () _ :=
    executeFirm_of_execute Node.faithful.echoes hfirm hsoft rfl hchecked htracks
      (r := { blocks := m :: node.blocks }) rfl
  have hdeliver : deliver (.firm block) w = .ok () _ := mapErr_eq_ok.mpr hok
  have hadmitted : Admitted .firmOnly [Delivery.firm block] := by
    intro d hd
    rw [List.mem_singleton] at hd
    subst hd
    rfl
  have hchain := (hvalid Node Node.numberOf Node.faithful node [.firm block] hadmitted).noDecrease
  rw [World.tracked, hdeliver] at hchain
  have hdecrease := (List.isChain_cons_cons.mp hchain).1.2
  have hdecrease : s.softNumber ≤ s.firmNumber + 1 := hdecrease
  omega

/-- The runs of a session are valid, unless it is firm-only with a soft number further than the next
firm number, and can go on. -/
theorem commitments_valid_iff {session : ExecutionSession} {level : CommitLevel} {s : State}
    (hs : State.tryFromExecutionSession session level = .ok s) :
    CommitmentsValid level s ↔
      ¬(level = .firmOnly ∧ s.firmNumber + 1 < s.softNumber ∧
        s.nextExpectedSoftSequencerHeight ≠ none) := by
  constructor
  · rintro hvalid ⟨rfl, hlt, hsoft⟩
    obtain ⟨-, -, hcheck, -⟩ := State.tryFromExecutionSession_ok hs
    exact firmOnly_decreases ((checkHeights_eq_ok.mp hcheck).1 rfl) hlt hsoft hvalid
  · intro hcondition ρ _ numberOf hfaithful r ds hadmitted
    have hstart := Executing.start level s r
    refine ⟨fun c _ => c.firm_le_soft, ?_, hstart.nodup_after hfaithful.echoes hadmitted⟩
    refine tracked_noDecrease hfaithful.echoes hstart hadmitted fun hlevel => ?_
    show s.softNumber ≤ s.firmNumber + 1 ∨ s.nextExpectedSoftSequencerHeight = none
    by_cases hle : s.softNumber ≤ s.firmNumber + 1
    · exact Or.inl hle
    · right
      by_contra hsome
      exact hcondition ⟨hlevel, by omega, hsome⟩

end

/-! ### A firm-only session that is behind -/

section

open TestUtils
open scoped Astria.Sequencer.TestUtils

/-- A session at firm number 0 and soft number 5 is set back to 1. -/
theorem firmOnly_behind :
    ¬CommitmentsValid .firmOnly (state (session 0 5 (by decide) none 10)) :=
  firmOnly_decreases ⟨1, mapRollupNumberToSequencerHeight_eq_ok.mp (by decide)⟩ (by decide) (by decide)

/-- The same session is valid in soft-and-firm mode. -/
theorem commitments_valid_iff_softAndFirm :
    State.tryFromExecutionSession (session 0 5 (by decide) none 10) .softAndFirm =
        .ok (state (session 0 5 (by decide) none 10)) ∧
      CommitmentsValid .softAndFirm (state (session 0 5 (by decide) none 10)) :=
  have hs : State.tryFromExecutionSession (session 0 5 (by decide) none 10) .softAndFirm = .ok _ := rfl
  ⟨hs, (commitments_valid_iff hs).mpr (by decide)⟩

end

end Astria.Conductor
