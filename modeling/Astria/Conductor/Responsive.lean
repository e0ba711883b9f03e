import Astria.Conductor.InOrder

/-!
# A rollup that answers

What a rollup that keeps its blocks and answers every call does for the executor: a block in order is
executed or confirmed without a failure (`crates/astria-conductor/src/executor/mod.rs`).

Results:
* `deliver_soft_ok`, `deliver_firm_ok`: a block in order does not fail, and the rollup still has every
  block that the executor refers to.
-/

namespace Astria.Conductor

open Astria.Core Astria.Lib Exec
open Astria.Sequencer (BlockCodec wrapErr)

/-! ## The rollup -/

/-- A rollup that has some blocks, keeps them, and answers every call about them. -/
structure Responsive {ρ : Type} [rollup : Rollup ρ] (has : ρ → ExecutedBlockMetadata → Prop) :
    Prop where
  executes : ∀ (request : ExecuteBlockRequest) (r : ρ) (parent : ExecutedBlockMetadata),
    has r parent → parent.hash = request.parentHash → parent.number < u64Max →
      ∃ m r', rollup.executeBlock request r = .ok m r' ∧ m.number = parent.number + 1 ∧ has r' m ∧
        ∀ b, has r b → has r' b
  gets : ∀ (r : ρ) (b : ExecutedBlockMetadata), has r b →
    ∃ m r', rollup.getExecutedBlockMetadata b.number r = .ok m r' ∧ m.number = b.number ∧ has r' m ∧
      ∀ b, has r b → has r' b
  updates : ∀ (sessionId : String) (c : CommitmentState) (r : ρ), has r c.firm → has r c.soft →
    ∃ r', rollup.updateCommitmentState sessionId c r = .ok c.intoRaw r' ∧ ∀ b, has r b → has r' b
  echoes : Echoes ρ

section

variable {ρ : Type}

/-- The rollup has every block that the executor may ask for. -/
structure Known (has : ρ → ExecutedBlockMetadata → Prop) (w : World ρ) : Prop where
  firm : has w.rollup w.state.firm
  soft : has w.rollup w.state.soft
  pending : ∀ n m, w.pending n = some m → has w.rollup m
  between : ∀ n, w.state.firmNumber < n → n ≤ w.state.softNumber →
    ∃ b, has w.rollup b ∧ b.number = n

variable {has : ρ → ExecutedBlockMetadata → Prop} {w : World ρ}

theorem Known.setRollup (h : Known has w) {r : ρ} (hkeeps : ∀ b, has w.rollup b → has r b) :
    Known has (w.setRollup r) where
  firm := hkeeps _ h.firm
  soft := hkeeps _ h.soft
  pending n m hm := hkeeps _ (h.pending n m hm)
  between n hn hn' := by
    obtain ⟨b, hb, hnumber⟩ := h.between n hn hn'
    exact ⟨b, hkeeps b hb, hnumber⟩

theorem Known.addExecution (h : Known has w) (x : Execution) : Known has (w.addExecution x) :=
  ⟨h.firm, h.soft, h.pending, h.between⟩

/-- The next soft block. -/
theorem Known.onlySoft (h : Known has w) {c : CommitmentState} {m : ExecutedBlockMetadata}
    (htracks : Tracks (.onlySoft m) w.state c) (hm : has w.rollup m)
    (hnumber : m.number = w.state.softNumber + 1) : Known has (w.setCommitmentState c) := by
  have hfirm : c.firm = w.state.firm := htracks.firm_eq
  have hsoft : c.soft = m := htracks.soft_eq
  refine ⟨?_, ?_, h.pending, ?_⟩
  · show has w.rollup c.firm
    rw [hfirm]
    exact h.firm
  · show has w.rollup c.soft
    rw [hsoft]
    exact hm
  · show ∀ n, c.firm.number < n → n ≤ c.soft.number → ∃ b, has w.rollup b ∧ b.number = n
    rw [hfirm, hsoft, hnumber]
    intro n hn hn'
    by_cases hlast : n = w.state.softNumber + 1
    · exact ⟨m, hm, hnumber.trans hlast.symm⟩
    · exact h.between n hn (by omega)

/-- A block that is soft and firm. -/
theorem Known.toSame (h : Known has w) {c : CommitmentState} {m : ExecutedBlockMetadata} {height : ℕ}
    (htracks : Tracks (.toSame m height) w.state c) (hm : has w.rollup m) :
    Known has (w.setCommitmentState c) := by
  have hfirm : c.firm = m := htracks.firm_eq
  have hsoft : c.soft = m := htracks.soft_eq
  refine ⟨?_, ?_, h.pending, ?_⟩
  · show has w.rollup c.firm
    rw [hfirm]
    exact hm
  · show has w.rollup c.soft
    rw [hsoft]
    exact hm
  · show ∀ n, c.firm.number < n → n ≤ c.soft.number → ∃ b, has w.rollup b ∧ b.number = n
    rw [hfirm, hsoft]
    intro n hn hn'
    omega

/-- A block that becomes firm. -/
theorem Known.onlyFirm (h : Known has w) {c : CommitmentState} {m : ExecutedBlockMetadata}
    {height : ℕ} (htracks : Tracks (.onlyFirm m height) w.state c) (hm : has w.rollup m)
    (hnumber : m.number = w.state.firmNumber + 1) : Known has (w.setCommitmentState c) := by
  have hfirm : c.firm = m := htracks.firm_eq
  have hsoft : c.soft = w.state.soft := htracks.soft_eq
  refine ⟨?_, ?_, h.pending, ?_⟩
  · show has w.rollup c.firm
    rw [hfirm]
    exact hm
  · show has w.rollup c.soft
    rw [hsoft]
    exact h.soft
  · show ∀ n, c.firm.number < n → n ≤ c.soft.number → ∃ b, has w.rollup b ∧ b.number = n
    rw [hfirm, hsoft, hnumber]
    intro n hn hn'
    exact h.between n (by omega) hn'

theorem Known.insertPending (h : Known has w) {n : ℕ} {m : ExecutedBlockMetadata}
    (hm : has w.rollup m) : Known has (w.insertPending n m) where
  firm := h.firm
  soft := h.soft
  between := h.between
  pending k b hb := by
    have hb : Function.update w.pending n (some m) k = some b := hb
    by_cases hk : k = n
    · rw [hk, Function.update_self, Option.some.injEq] at hb
      exact hb ▸ hm
    · rw [Function.update_of_ne hk] at hb
      exact h.pending k b hb

theorem Known.removePending (h : Known has w) (n : ℕ) : Known has (w.removePending n) where
  firm := h.firm
  soft := h.soft
  between := h.between
  pending k b hb := by
    have hb : Function.update w.pending n none k = some b := hb
    by_cases hk : k = n
    · rw [hk, Function.update_self] at hb
      cases hb
    · rw [Function.update_of_ne hk] at hb
      exact h.pending k b hb

variable [dataCodec : RollupDataCodec] [rollup : Rollup ρ]

/-- The transactions of a block decode. -/
def ExecutableBlock.Decodes (block : ExecutableBlock) : Prop :=
  (decodeTransactions block.transactions).isSome = true

instance (block : ExecutableBlock) : Decidable block.Decodes :=
  inferInstanceAs (Decidable ((decodeTransactions block.transactions).isSome = true))

/-- A checked execution succeeds on a block that the rollup has. -/
theorem executeChecked_ok (hr : Responsive has) (hknown : Known has w) (kind : ExecutionKind)
    {block : ExecutableBlock} (hdecodes : block.Decodes) (hparent : has w.rollup (kind.head w.state))
    (hmax : (kind.head w.state).number < u64Max) :
    ∃ m r, executeChecked kind block w = .ok m ((w.setRollup r).addExecution
        { parentHash := (kind.head w.state).hash, block := block, result := m }) ∧
      m.number = (kind.head w.state).number + 1 ∧ has r m ∧ Known has (w.setRollup r) := by
  obtain ⟨transactions, htransactions⟩ := Option.isSome_iff_exists.mp hdecodes
  obtain ⟨m, r, hexecute, hnumber, hm, hkeeps⟩ := hr.executes
    { sessionId := w.state.executionSessionId
      parentHash := (kind.head w.state).hash
      transactions := transactions
      timestamp := block.timestamp
      sequencerBlockHash := displayHash block.hash } w.rollup _ hparent rfl hmax
  exact ⟨m, r, executeChecked_of_execute htransactions hexecute hnumber (by omega), hnumber, hm,
    hknown.setRollup hkeeps⟩

omit dataCodec in
/-- An update to blocks that the rollup has succeeds. -/
theorem updateCommitmentState_ok (hr : Responsive has) {update : Update} {c : CommitmentState}
    (htracks : Tracks update w.state c) (hfirm : has w.rollup c.firm) (hsoft : has w.rollup c.soft) :
    ∃ r, updateCommitmentState update w = .ok () ((w.setRollup r).setCommitmentState c) ∧
      ∀ b, has w.rollup b → has r b := by
  obtain ⟨r, hupdate, hkeeps⟩ := hr.updates w.state.executionSessionId c w.rollup hfirm hsoft
  exact ⟨r, (updateCommitmentState_eq_ok hr.echoes).mpr ⟨c, r, htracks, hupdate, rfl⟩, hkeeps⟩

end

/-! ## Blocks in order -/

section

variable {ρ : Type} [codec : BlockCodec] [dataCodec : RollupDataCodec] [rollup : Rollup ρ]
  {has : ρ → ExecutedBlockMetadata → Prop} {w : World ρ}

/-- A soft block at the expected height succeeds if the calls of the rollup do. -/
theorem executeSoft_of_execute {block : FilteredSequencerBlock} {m : ExecutedBlockMetadata}
    {w₁ w₂ : World ρ} (hexpected : w.state.nextExpectedSoftSequencerHeight = some block.height)
    (hexecute : executeChecked .soft (softExecutable w block) w = .ok m w₁)
    (hupdate : updateCommitmentState (.onlySoft m) w₁ = .ok () w₂) :
    executeSoft block w = .ok () (w₂.insertPending (w.state.softNumber + 1) m) := by
  simp only [executeSoft, bind_eq_ok, reads_eq_ok]
  refine ⟨_, w, ⟨rfl, rfl⟩, block.height, w, expectSoftHeight_eq_ok.mpr ⟨hexpected, rfl⟩, ?_⟩
  show (if block.height < block.height then (_ : ExecutorM ρ Unit)
    else if block.height < block.height then _ else _) w = _
  rw [if_neg (lt_irrefl _), if_neg (lt_irrefl _)]
  simp only [bind_eq_ok, mapErr_eq_ok, writes_eq_ok]
  exact ⟨_, w, (rollupNumber_eq_ok hexpected).mpr ⟨rfl, rfl⟩, m, w₁, hexecute, (), w₂, hupdate, rfl⟩

/-- A soft block that is not above the expected height does not fail. -/
theorem deliver_soft_ok (hr : Responsive has) (hknown : Known has w) {block : FilteredSequencerBlock}
    {expected : ℕ} (hexpected : w.state.nextExpectedSoftSequencerHeight = some expected)
    (hle : block.height ≤ expected) (hdecodes : (softExecutable w block).Decodes)
    (hmaps : block.height = expected → ∃ height, w.state.MapsTo (w.state.softNumber + 1) height) :
    ∃ w', deliver (.soft block) w = .ok () w' ∧ Known has w' := by
  by_cases hstale : block.height < expected
  · refine ⟨w, mapErr_eq_ok.mpr ?_, hknown⟩
    simp only [executeSoft, bind_eq_ok, reads_eq_ok]
    refine ⟨_, w, ⟨rfl, rfl⟩, expected, w, expectSoftHeight_eq_ok.mpr ⟨hexpected, rfl⟩, ?_⟩
    show (if block.height < expected then (_ : ExecutorM ρ Unit) else _) w = _
    rw [if_pos hstale]
    exact pure_eq_ok.mpr ⟨rfl, rfl⟩
  obtain rfl : block.height = expected := by omega
  obtain ⟨height, hmaps⟩ := hmaps rfl
  have hmax : w.state.softNumber < u64Max := by
    have := hmaps.number_lt
    omega
  obtain ⟨m, r, hexecute, hnumber, hm, hknown₁⟩ :=
    executeChecked_ok hr hknown .soft hdecodes hknown.soft hmax
  have hnumber : m.number = w.state.softNumber + 1 := hnumber
  have hfirm : w.state.firm.number ≤ m.number := by
    have hle : w.state.firm.number ≤ w.state.softNumber := w.state.commitmentState.firm_le_soft
    omega
  let c : CommitmentState :=
    { soft := m
      firm := w.state.firm
      lowestCelestiaSearchHeight := w.state.commitmentState.lowestCelestiaSearchHeight
      firm_le_soft := hfirm }
  have hcheck : checkHeights w.state.executionSessionParameters c .softOnly = .ok () := by
    refine checkHeights_eq_ok.mpr ⟨fun h => absurd h Bool.false_ne_true, fun _ => ⟨height, ?_⟩⟩
    show w.state.MapsTo m.number height
    rw [hnumber]
    exact hmaps
  let w₁ := (w.setRollup r).addExecution
    { parentHash := w.state.soft.hash, block := softExecutable w block, result := m }
  have hknown₂ : Known has w₁ := hknown₁.addExecution _
  have htracks : Tracks (.onlySoft m) w₁.state c := ⟨rfl, rfl, rfl, hcheck⟩
  obtain ⟨r', hupdate, hkeeps⟩ := updateCommitmentState_ok hr htracks hknown₂.firm hm
  refine ⟨_, mapErr_eq_ok.mpr (executeSoft_of_execute hexpected hexecute hupdate), ?_⟩
  exact ((hknown₂.setRollup hkeeps).onlySoft htracks (hkeeps _ hm) hnumber).insertPending (hkeeps _ hm)

/-- A firm block that is not executed succeeds if its block is there. -/
theorem executeFirm_of_confirm {block : ReconstructedBlock} {soft : ℕ} {m : ExecutedBlockMetadata}
    {w₁ w₂ : World ρ} (hfirm : w.state.nextExpectedFirmSequencerHeight = some block.sequencerHeight)
    (hsoft : w.state.nextExpectedSoftSequencerHeight = some soft)
    (hshould : shouldExecuteFirmBlock block.sequencerHeight soft w.commitLevel = false)
    (hconfirm : confirmPending (w.state.firmNumber + 1) block.celestiaHeight w =
      .ok (.onlyFirm m block.celestiaHeight) w₁)
    (hupdate : updateCommitmentState (.onlyFirm m block.celestiaHeight) w₁ = .ok () w₂) :
    executeFirm block w = .ok () w₂ := by
  have hbranch : firmUpdate (ExecutableBlock.fromReconstructed block) (w.state.firmNumber + 1)
      block.celestiaHeight w = .ok (.onlyFirm m block.celestiaHeight) w₁ := by
    simp only [firmUpdate, bind_eq_ok, reads_eq_ok]
    refine ⟨_, w, expectFirmHeight_eq_ok.mpr ⟨hfirm, rfl⟩, _, w,
      expectSoftHeight_eq_ok.mpr ⟨hsoft, rfl⟩, _, w, ⟨rfl, rfl⟩, ?_⟩
    rw [if_neg (by simp [hshould])]
    exact hconfirm
  simp only [executeFirm, bind_eq_ok, ensure_eq_ok, mapErr_eq_ok]
  exact ⟨_, w, expectFirmHeight_eq_ok.mpr ⟨hfirm, rfl⟩, (), w, ⟨rfl, rfl⟩, _, w,
    (rollupNumber_eq_ok hfirm).mpr ⟨rfl, rfl⟩, _, w₁, hbranch, hupdate⟩

omit codec dataCodec in
/-- The block that a firm block confirms is pending, or the rollup has it. -/
theorem confirmPending_ok (hr : Responsive has) (hknown : Known has w)
    (hpending : ∀ n m, w.pending n = some m → m.number = n)
    (hle : w.state.firmNumber + 1 ≤ w.state.softNumber) (celestiaHeight : ℕ) :
    ∃ m w', confirmPending (w.state.firmNumber + 1) celestiaHeight w =
        .ok (.onlyFirm m celestiaHeight) w' ∧
      m.number = w.state.firmNumber + 1 ∧ has w'.rollup m ∧ Known has w' ∧ w'.state = w.state := by
  cases hm : w.pending (w.state.firmNumber + 1) with
  | some m =>
    refine ⟨m, w.removePending (w.state.firmNumber + 1), ?_, hpending _ _ hm, hknown.pending _ _ hm,
      hknown.removePending _, rfl⟩
    simp only [confirmPending, bind_eq_ok, reads_eq_ok]
    refine ⟨_, w, ⟨rfl, rfl⟩, ?_⟩
    rw [hm]
    exact bind_eq_ok.mpr ⟨(), _, writes_eq_ok.mpr rfl, pure_eq_ok.mpr ⟨rfl, rfl⟩⟩
  | none =>
    obtain ⟨b, hb, hnumber⟩ := hknown.between _ (Nat.lt_succ_self _) hle
    obtain ⟨m, r, hget, hsame, hm', hkeeps⟩ := hr.gets w.rollup b hb
    rw [hnumber] at hget hsame
    refine ⟨m, w.setRollup r, ?_, hsame, hm', hknown.setRollup hkeeps, rfl⟩
    simp only [confirmPending, bind_eq_ok, reads_eq_ok]
    refine ⟨_, w, ⟨rfl, rfl⟩, ?_⟩
    rw [hm]
    simp only [getExecutedBlockMetadataWithRetry, bind_eq_ok, mapErr_eq_ok, callRollup_eq_ok,
      ensure_eq_ok, pure_eq_ok]
    exact ⟨m, _, ⟨m, _, ⟨r, hget, rfl⟩, (), _, ⟨hsame.symm, rfl⟩, rfl, rfl⟩, rfl, rfl⟩

/-- A firm block at the expected height does not fail. -/
theorem deliver_firm_ok (hr : Responsive has) (hknown : Known has w) {block : ReconstructedBlock}
    {soft height : ℕ} (hlevel : w.commitLevel.isWithFirm = true)
    (hpending : ∀ n m, w.pending n = some m → m.number = n)
    (hfirm : w.state.nextExpectedFirmSequencerHeight = some block.sequencerHeight)
    (hsoft : w.state.nextExpectedSoftSequencerHeight = some soft)
    (hdecodes : (ExecutableBlock.fromReconstructed block).Decodes)
    (hmaps : w.state.MapsTo (w.state.firmNumber + 1) height) :
    ∃ w', deliver (.firm block) w = .ok () w' ∧ Known has w' := by
  cases hshould : shouldExecuteFirmBlock block.sequencerHeight soft w.commitLevel with
  | true =>
    have hmax : w.state.firmNumber < u64Max := by
      have := hmaps.number_lt
      omega
    obtain ⟨m, r, hexecute, hnumber, hm, hknown₁⟩ :=
      executeChecked_ok hr hknown .firm hdecodes hknown.firm hmax
    have hnumber : m.number = w.state.firmNumber + 1 := hnumber
    let c : CommitmentState :=
      { soft := m, firm := m, lowestCelestiaSearchHeight := block.celestiaHeight, firm_le_soft := le_rfl }
    have hheight : w.state.MapsTo m.number height := hnumber ▸ hmaps
    have htracks : Tracks (.toSame m block.celestiaHeight) w.state c :=
      ⟨rfl, rfl, rfl, checkHeights_eq_ok.mpr ⟨fun _ => ⟨height, hheight⟩, fun _ => ⟨height, hheight⟩⟩⟩
    have hknown₂ := hknown₁.addExecution
      { parentHash := w.state.firm.hash
        block := ExecutableBlock.fromReconstructed block
        result := m }
    obtain ⟨r', hcall, hkeeps⟩ := hr.updates w.state.executionSessionId c r hm hm
    refine ⟨_, mapErr_eq_ok.mpr
      (executeFirm_of_execute hr.echoes hfirm hsoft hshould hexecute htracks hcall), ?_⟩
    exact (hknown₂.setRollup hkeeps).toSame htracks (hkeeps _ hm)
  | false =>
    have hlt : w.state.firmNumber + 1 ≤ w.state.softNumber := by
      have hle : w.state.firmNumber ≤ w.state.softNumber := w.state.commitmentState.firm_le_soft
      cases hcommit : w.commitLevel with
      | firmOnly =>
        rw [hcommit] at hshould
        cases hshould
      | softOnly =>
        rw [hcommit] at hlevel
        cases hlevel
      | softAndFirm =>
        rw [hcommit] at hshould
        have hne : w.state.firmNumber ≠ w.state.softNumber := fun heq => by
          rw [(shouldExecute_softAndFirm hfirm hsoft).mpr heq] at hshould
          cases hshould
        omega
    obtain ⟨m, w₁, hconfirm, hnumber, hm, hknown₁, hstate⟩ :=
      confirmPending_ok hr hknown hpending hlt block.celestiaHeight
    have hle : m.number ≤ w₁.state.soft.number := by
      rw [hnumber, hstate]
      exact hlt
    let c : CommitmentState :=
      { soft := w₁.state.soft
        firm := m
        lowestCelestiaSearchHeight := block.celestiaHeight
        firm_le_soft := hle }
    have hcheck : checkHeights w₁.state.executionSessionParameters c .firmOnly = .ok () := by
      refine checkHeights_eq_ok.mpr ⟨fun _ => ⟨height, ?_⟩, fun h => absurd h Bool.false_ne_true⟩
      show w₁.state.MapsTo m.number height
      rw [hnumber, hstate]
      exact hmaps
    have htracks : Tracks (.onlyFirm m block.celestiaHeight) w₁.state c := ⟨rfl, rfl, rfl, hcheck⟩
    obtain ⟨r', hupdate, hkeeps⟩ := updateCommitmentState_ok hr htracks hm hknown₁.soft
    refine ⟨_, mapErr_eq_ok.mpr (executeFirm_of_confirm hfirm hsoft hshould hconfirm hupdate), ?_⟩
    exact (hknown₁.setRollup hkeeps).onlyFirm htracks (hkeeps _ hm) (hstate ▸ hnumber)

end

end Astria.Conductor
