import Astria.Conductor.Commitments

/-!
# What a firm block confirms

A soft-and-firm executor keeps the block that it executed for a soft block until the firm block of the
same number arrives, and then makes it firm (`crates/astria-conductor/src/executor/mod.rs`).  It never
compares the two.

Results:
* `Pending.delivered`: what is kept of every number that is not firm yet;
* `confirmsCelestia_iff`: a firm block confirms what Celestia said exactly if the soft block that came
  before it had the same contents.
-/

namespace Astria.Conductor

open Astria.Core Astria.Lib Exec
open Astria.Sequencer (BlockCodec)

section

variable {ρ : Type} [codec : BlockCodec] [dataCodec : RollupDataCodec] {w w' : World ρ} {s : State}

/-! ## Contents -/

/-- Two blocks that the rollup cannot tell apart: the same sequencer block hash, timestamp and
transactions. -/
structure SameContents (x y : ExecutableBlock) : Prop where
  hash_eq : x.hash = y.hash
  timestamp_eq : x.timestamp = y.timestamp
  transactions_eq : x.transactions = y.transactions

/-- The first soft block of a height among the blocks delivered. -/
def firstSoft (height : ℕ) : List Delivery → Option FilteredSequencerBlock
  | [] => none
  | .soft block :: ds => if block.height = height then some block else firstSoft height ds
  | .firm _ :: ds => firstSoft height ds

omit codec dataCodec in
theorem firstSoft_append (height : ℕ) (ds es : List Delivery) :
    firstSoft height (ds ++ es) = (firstSoft height ds).or (firstSoft height es) := by
  induction ds with
  | nil => simp [firstSoft]
  | cons d ds ih =>
    cases d with
    | firm block => exact ih
    | soft block =>
      rw [List.cons_append, firstSoft, firstSoft]
      split_ifs
      · rfl
      · exact ih

/-- What is kept of the numbers above the firm one, after the blocks `ds` were delivered to an executor
that started in `s`. -/
structure Pending (s : State) (ds : List Delivery) (w : World ρ) : Prop where
  /-- Nothing is kept of what the session started with. -/
  before : ∀ n, w.state.firmNumber ≤ n → n < s.softNumber → w.pending (n + 1) = none
  /-- A number in between was executed from the first soft block of its height. -/
  executed : ∀ n height, s.nextExpectedHeight n = some height → w.state.firmNumber ≤ n →
    s.softNumber ≤ n → n < w.state.softNumber →
      ∃ block m x, firstSoft height ds = some block ∧ w.pending (n + 1) = some m ∧
        x ∈ w.executions ∧ x.result = m ∧
        x.block = ExecutableBlock.fromSequencer block s.executionSessionParameters.rollupId
  /-- Nothing has arrived for what is above the soft number. -/
  after : ∀ n height, s.nextExpectedHeight n = some height → w.state.softNumber ≤ n →
    w.pending (n + 1) = none ∧ firstSoft height ds = none
  softNumber_le : s.softNumber ≤ w.state.softNumber

theorem Pending.start (level : CommitLevel) (s : State) (r : ρ) :
    Pending s [] (World.start level s r) where
  before _ _ _ := rfl
  executed n height _ _ hle hlt := absurd hlt (by exact not_lt.mpr hle)
  after _ _ _ _ := ⟨rfl, rfl⟩
  softNumber_le := le_rfl

/-- A firm block moves the firm number on, and no number above it is kept or delivered anew. -/
theorem Pending.confirmed {ds : List Delivery} (hp : Pending s ds w) {block : ReconstructedBlock}
    (hfirm : w'.state.firmNumber = w.state.firmNumber + 1)
    (hsoft : w'.state.softNumber = w.state.softNumber)
    (hpending : ∀ n, w.state.firmNumber + 1 ≤ n → w'.pending (n + 1) = w.pending (n + 1))
    (hexecutions : w'.executions = w.executions) : Pending s (ds ++ [.firm block]) w' where
  before n hle hlt := by
    rw [hpending n (by omega)]
    exact hp.before n (by omega) hlt
  executed n height hheight hle hs hlt := by
    obtain ⟨b, m, x, hb, hm, hx, hresult, hblock⟩ := hp.executed n height hheight (by omega) hs (by omega)
    refine ⟨b, m, x, ?_, ?_, hexecutions ▸ hx, hresult, hblock⟩
    · rw [firstSoft_append, hb]
      rfl
    · rw [hpending n (by omega)]
      exact hm
  after n height hheight hle := by
    obtain ⟨hnone, hfirst⟩ := hp.after n height hheight (by omega)
    have := w.state.commitmentState.firm_le_soft
    have : w.state.firmNumber ≤ w.state.softNumber := this
    have hlt : w'.state.firmNumber ≤ w'.state.softNumber := w'.state.commitmentState.firm_le_soft
    rw [hpending n (by omega), firstSoft_append, hfirst]
    exact ⟨hnone, rfl⟩
  softNumber_le := by
    have := hp.softNumber_le
    omega

/-- What is kept after a block of a soft-and-firm run. -/
theorem Pending.delivered {ds : List Delivery} {d : Delivery} (hp : Pending s ds w)
    (h : Executing .softAndFirm s w) (hd : Delivered w d w') : Pending s (ds ++ [d]) w' := by
  cases hd with
  | @stale block expected hexpected hlt =>
    refine ⟨hp.before, ?_, ?_, hp.softNumber_le⟩
    · intro n height hheight hle hs hn
      obtain ⟨b, m, x, hb, hrest⟩ := hp.executed n height hheight hle hs hn
      refine ⟨b, m, x, ?_, hrest⟩
      rw [firstSoft_append, hb]
      rfl
    · intro n height hheight hle
      obtain ⟨hnone, hfirst⟩ := hp.after n height hheight hle
      have hexpected : s.nextExpectedHeight w.state.softNumber = some expected :=
        h.nextExpectedHeight_eq _ ▸ hexpected
      have := State.nextExpectedHeight_le hexpected hheight hle
      refine ⟨hnone, ?_⟩
      rw [firstSoft_append, hfirst, firstSoft, if_neg (by omega)]
      rfl
  | @softExecuted block m c r hheight hnumber htracks =>
    have hfirm : c.firm = w.state.firm := htracks.firm_eq
    have hsoft : c.soft = m := htracks.soft_eq
    have hheight : s.nextExpectedHeight w.state.softNumber = some block.height :=
      h.nextExpectedHeight_eq _ ▸ hheight
    have hle := hp.softNumber_le
    have hsoftNumber : c.soft.number = w.state.softNumber + 1 := by rw [hsoft, hnumber]
    have hfirmNumber : c.firm.number = w.state.firmNumber := by
      rw [hfirm]
      rfl
    constructor
    · intro n hn hlt
      show Function.update w.pending (w.state.softNumber + 1) (some m) (n + 1) = none
      rw [Function.update_of_ne (by omega)]
      exact hp.before n (hfirmNumber ▸ hn) hlt
    · intro n height hn hle' hs hlt
      have hlt : n < c.soft.number := hlt
      by_cases heq : n = w.state.softNumber
      · subst heq
        obtain rfl : block.height = height := Option.some.inj (hheight.symm.trans hn)
        obtain ⟨-, hfirst⟩ := hp.after _ _ hheight le_rfl
        refine ⟨block, m, _, ?_, Function.update_self .., List.mem_append_right _ (List.mem_singleton_self _),
          rfl, ?_⟩
        · rw [firstSoft_append, hfirst, firstSoft, if_pos rfl]
          rfl
        · show ExecutableBlock.fromSequencer block w.state.executionSessionParameters.rollupId = _
          rw [h.session_eq]
      · obtain ⟨b, m', x, hb, hm', hx, hrest⟩ := hp.executed n height hn (hfirmNumber ▸ hle') hs (by omega)
        refine ⟨b, m', x, ?_, ?_, List.mem_append_left _ hx, hrest⟩
        · rw [firstSoft_append, hb]
          rfl
        · show Function.update w.pending (w.state.softNumber + 1) (some m) (n + 1) = some m'
          rw [Function.update_of_ne (by omega), hm']
    · intro n height hn hle'
      have hle' : c.soft.number ≤ n := hle'
      obtain ⟨hnone, hfirst⟩ := hp.after n height hn (by omega)
      constructor
      · show Function.update w.pending (w.state.softNumber + 1) (some m) (n + 1) = none
        rw [Function.update_of_ne (by omega), hnone]
      · have hlt := (State.nextExpectedHeight_lt hheight hn).mp (by omega)
        rw [firstSoft_append, hfirst, firstSoft, if_neg (by omega)]
        rfl
    · show s.softNumber ≤ c.soft.number
      omega
  | @firmExecuted block soft m c r hfirm hsoft hshould hnumber htracks =>
    have hcfirm : c.firm = m := htracks.firm_eq
    have hcsoft : c.soft = m := htracks.soft_eq
    rw [h.level_eq] at hshould
    have heq := (shouldExecute_softAndFirm hfirm hsoft).mp hshould
    have hle := hp.softNumber_le
    have hfirmNumber : c.firm.number = w.state.firmNumber + 1 := by rw [hcfirm, hnumber]
    have hsoftNumber : c.soft.number = w.state.firmNumber + 1 := by rw [hcsoft, hnumber]
    constructor
    · intro n hn hlt
      have hn : c.firm.number ≤ n := hn
      exact hp.before n (by omega) hlt
    · intro n height hn hle' hs hlt
      have hle' : c.firm.number ≤ n := hle'
      have hlt : n < c.soft.number := hlt
      omega
    · intro n height hn hle'
      have hle' : c.soft.number ≤ n := hle'
      obtain ⟨hnone, hfirst⟩ := hp.after n height hn (by omega)
      refine ⟨hnone, ?_⟩
      rw [firstSoft_append, hfirst]
      rfl
    · show s.softNumber ≤ c.soft.number
      omega
  | @firmConfirmed block soft m c r hfirm hsoft hshould hpending htracks =>
    have hcfirm : c.firm = m := htracks.firm_eq
    have hcsoft : c.soft = w.state.soft := htracks.soft_eq
    have hnumber := h.pending_number _ _ hpending
    refine hp.confirmed ?_ ?_ ?_ rfl
    · show c.firm.number = _
      rw [hcfirm, hnumber]
    · show c.soft.number = _
      rw [hcsoft]
      rfl
    · intro n hn
      show Function.update w.pending (w.state.firmNumber + 1) none (n + 1) = _
      rw [Function.update_of_ne (by omega)]
  | @firmFetched block soft m c r hfirm hsoft hshould hpending hnumber htracks =>
    have hcfirm : c.firm = m := htracks.firm_eq
    have hcsoft : c.soft = w.state.soft := htracks.soft_eq
    refine hp.confirmed ?_ ?_ (fun _ _ => rfl) rfl
    · show c.firm.number = _
      rw [hcfirm, hnumber]
    · show c.soft.number = _
      rw [hcsoft]
      rfl

/-! ## Firm blocks against soft blocks -/

omit codec dataCodec in
/-- Two executions of a run with one result are the same. -/
theorem Executing.eq_of_result {level : CommitLevel} (h : Executing level s w) {x y : Execution}
    (hx : x ∈ w.executions) (hy : y ∈ w.executions) (heq : x.result = y.result) : x = y := by
  by_contra hne
  have hpair : w.executions.Pairwise fun x y => x.result ≠ y.result :=
    h.ascending.imp fun hlt heq => by
      rw [heq] at hlt
      omega
  have : Std.Symm fun x y : Execution => x.result ≠ y.result := ⟨fun _ _ hxy => hxy.symm⟩
  exact hpair.forall hx hy hne heq

variable [rollup : Rollup ρ]

/-- What holds after the blocks of a soft-and-firm run. -/
theorem run_invariants (he : Echoes ρ) {ds : List Delivery} {r : ρ}
    (h : forEach ds deliver (World.start .softAndFirm s r) = .ok () w) :
    Executing .softAndFirm s w ∧ Pending s ds w := by
  induction ds using List.reverseRecOn generalizing w with
  | nil =>
    rw [forEach_nil_eq_ok] at h
    subst h
    exact ⟨Executing.start _ s r, Pending.start _ s r⟩
  | append_singleton ds d ih =>
    obtain ⟨w₁, h₁, hd⟩ := forEach_append_eq_ok.mp h
    obtain ⟨w₂, hd, hnil⟩ := forEach_cons_eq_ok.mp hd
    rw [forEach_nil_eq_ok] at hnil
    subst hnil
    obtain ⟨hexecuting, hpending⟩ := ih h₁
    have hdelivered := deliver_cases he hd
    have hadmitted : d.Admitted .softAndFirm := by
      cases d <;> rfl
    exact ⟨hexecuting.delivered hadmitted hdelivered, hpending.delivered hexecuting hdelivered⟩

/-- Whenever a firm block of the run makes a kept block firm, the rollup executed that block from the
contents of the firm block. -/
def ConfirmsCelestia (ds : List Delivery) (w₀ : World ρ) : Prop :=
  ∀ (pre post : List Delivery) (block : ReconstructedBlock) (w w' : World ρ),
    ds = pre ++ .firm block :: post → forEach pre deliver w₀ = .ok () w →
    deliver (.firm block) w = .ok () w' → w.pending w'.state.firmNumber = some w'.state.firm →
    ∃ x ∈ w.executions, x.result = w'.state.firm ∧
      SameContents x.block (ExecutableBlock.fromReconstructed block)

/-- Every firm block that comes after a soft block of its height, which the session did not start
with, has the contents of the first such soft block. -/
def AgreesWithSoft (s : State) (ds : List Delivery) : Prop :=
  ∀ (pre post : List Delivery) (block : ReconstructedBlock) (soft : FilteredSequencerBlock),
    ds = pre ++ .firm block :: post → firstSoft block.sequencerHeight pre = some soft →
    (∀ expected, s.nextExpectedSoftSequencerHeight = some expected →
      expected ≤ block.sequencerHeight) →
    SameContents (ExecutableBlock.fromSequencer soft s.executionSessionParameters.rollupId)
      (ExecutableBlock.fromReconstructed block)

/-- A successful run confirms what Celestia said exactly if its soft blocks had said the same. -/
theorem confirmsCelestia_iff (he : Echoes ρ) {ds : List Delivery} {r : ρ}
    (hrun : forEach ds deliver (World.start .softAndFirm s r) = .ok () w) :
    ConfirmsCelestia ds (World.start .softAndFirm s r) ↔ AgreesWithSoft s ds := by
  constructor
  · intro hconfirms pre post block soft hds hfirst hheight
    subst hds
    obtain ⟨w₁, hpre, hrest⟩ := forEach_append_eq_ok.mp hrun
    obtain ⟨w₂, hfirm, -⟩ := forEach_cons_eq_ok.mp hrest
    obtain ⟨hexecuting, hpending⟩ := run_invariants he hpre
    obtain hdelivered := deliver_cases he hfirm
    obtain ⟨expected, hexpected, hsoft⟩ : ∃ expected,
        s.nextExpectedHeight w₁.state.firmNumber = some block.sequencerHeight ∧
        s.nextExpectedHeight w₁.state.softNumber = some expected := by
      rw [← hexecuting.nextExpectedHeight_eq, ← hexecuting.nextExpectedHeight_eq]
      cases hdelivered with
      | firmExecuted h1 h2 => exact ⟨_, h1, h2⟩
      | firmConfirmed h1 h2 => exact ⟨_, h1, h2⟩
      | firmFetched h1 h2 => exact ⟨_, h1, h2⟩
    have hlt : w₁.state.firmNumber < w₁.state.softNumber := by
      by_contra hge
      have hnone := (hpending.after _ _ hexpected (by omega)).2
      rw [hnone] at hfirst
      cases hfirst
    have hstarted : s.softNumber ≤ w₁.state.firmNumber := by
      by_contra hbefore
      have hbetween := State.nextExpectedHeight_between hexpected hsoft
        (m := s.softNumber) (by omega) hpending.softNumber_le
      have := hheight _ hbetween
      omega
    obtain ⟨soft', m, x, hsoft', hm, hx, hresult, hblock⟩ :=
      hpending.executed _ _ hexpected le_rfl hstarted hlt
    obtain rfl : soft' = soft := Option.some.inj (hsoft'.symm.trans hfirst)
    have hnumber := hexecuting.pending_number _ _ hm
    have hfirmed : w₂.state.firm = m := by
      cases hdelivered with
      | firmExecuted h1 h2 hshould =>
        rw [hexecuting.level_eq] at hshould
        have := (shouldExecute_softAndFirm h1 h2).mp hshould
        omega
      | @firmConfirmed _ _ m' c _ _ _ _ hm' htracks =>
        obtain rfl : m' = m := Option.some.inj (hm'.symm.trans hm)
        exact htracks.firm_eq
      | firmFetched _ _ _ hnone =>
        rw [hnone] at hm
        cases hm
    have hkept : w₁.pending w₂.state.firmNumber = some w₂.state.firm := by
      show w₁.pending w₂.state.firm.number = _
      rw [hfirmed, hnumber, hm]
    obtain ⟨y, hy, hyresult, hsame⟩ := hconfirms pre post block w₁ w₂ rfl hpre hfirm hkept
    obtain rfl : y = x := hexecuting.eq_of_result hy hx (by rw [hyresult, hresult, hfirmed])
    rw [hblock] at hsame
    exact hsame
  · intro hagrees pre post block w₁ w₂ hds hpre hfirm hkept
    obtain ⟨hexecuting, hpending⟩ := run_invariants he hpre
    have hle : w₁.state.firmNumber ≤ w₁.state.softNumber := w₁.state.commitmentState.firm_le_soft
    cases deliver_cases he hfirm with
    | @firmExecuted _ soft m c r' h1 h2 hshould hnumber htracks =>
      rw [hexecuting.level_eq] at hshould
      have heq := (shouldExecute_softAndFirm h1 h2).mp hshould
      have hheight : s.nextExpectedHeight w₁.state.firmNumber = some block.sequencerHeight :=
        hexecuting.nextExpectedHeight_eq _ ▸ h1
      have hnone := (hpending.after _ _ hheight (by omega)).1
      have hkept : w₁.pending c.firm.number = some c.firm := hkept
      have hfirm' : c.firm = m := htracks.firm_eq
      rw [hfirm', hnumber, hnone] at hkept
      cases hkept
    | @firmFetched _ soft m c r' h1 h2 hshould hnone hnumber htracks =>
      have hkept : w₁.pending c.firm.number = some c.firm := hkept
      have hfirm' : c.firm = m := htracks.firm_eq
      rw [hfirm', hnumber, hnone] at hkept
      cases hkept
    | @firmConfirmed _ soft m c r' h1 h2 hshould hm htracks =>
      rw [hexecuting.level_eq] at hshould
      have hne : w₁.state.firmNumber ≠ w₁.state.softNumber := by
        intro heq
        rw [(shouldExecute_softAndFirm h1 h2).mpr heq] at hshould
        cases hshould
      have hheight : s.nextExpectedHeight w₁.state.firmNumber = some block.sequencerHeight :=
        hexecuting.nextExpectedHeight_eq _ ▸ h1
      have hstarted : s.softNumber ≤ w₁.state.firmNumber := by
        by_contra hbefore
        rw [hpending.before _ le_rfl (by omega)] at hm
        cases hm
      obtain ⟨soft', m', x, hsoft', hm', hx, hresult, hblock⟩ :=
        hpending.executed _ _ hheight le_rfl hstarted (by omega)
      obtain rfl : m = m' := Option.some.inj (hm.symm.trans hm')
      refine ⟨x, hx, ?_, ?_⟩
      · rw [hresult]
        exact htracks.firm_eq.symm
      · rw [hblock]
        exact hagrees pre post block soft' hds hsoft' fun expected hexpected =>
          State.nextExpectedHeight_le hexpected hheight hstarted

end

/-! ### A soft block and a firm block of one height -/

section

open TestUtils
open scoped Astria.Sequencer.TestUtils

/-- A soft-and-firm executor of a session at number 1, whose next height is 3. -/
def executorAtOne : World Node :=
  World.start .softAndFirm (state (session 1 1 le_rfl none 10)) { blocks := [rollupBlock 1] }

/-- The soft block with one transaction, then the firm block with another. -/
def differentBlocks : List Delivery :=
  [.soft (softBlock 3 1 [sequencedData 7]), .firm (firmBlock 3 2 [sequencedData 8])]

/-- The firm block with the contents of the soft block. -/
def sameBlocks : List Delivery :=
  [.soft (softBlock 3 1 [sequencedData 7]), .firm (firmBlock 3 1 [sequencedData 7])]

/-- The soft block becomes firm although Celestia has another one. -/
theorem softBlock_confirmedByOther : ¬ConfirmsCelestia differentBlocks executorAtOne := by
  intro hconfirms
  have hpre := eq_ok_of_isOk
    (r := forEach [.soft (softBlock 3 1 [sequencedData 7])] deliver executorAtOne) (by decide +kernel)
  have hfirm := eq_ok_of_isOk (r := deliver (.firm (firmBlock 3 2 [sequencedData 8]))
    (final (forEach [.soft (softBlock 3 1 [sequencedData 7])] deliver executorAtOne)))
    (by decide +kernel)
  obtain ⟨x, hx, -, hsame⟩ := hconfirms _ [] _ _ _ rfl hpre hfirm (by decide +kernel)
  have hall : ∀ x ∈ (final (forEach [.soft (softBlock 3 1 [sequencedData 7])] deliver
      executorAtOne)).executions, x.block.transactions ≠ [sequencedData 8] := by decide +kernel
  exact hall x hx hsame.transactions_eq

/-- Where the two agree, what becomes firm is what Celestia said. -/
theorem confirmsCelestia_iff_sameBlocks :
    forEach sameBlocks deliver executorAtOne =
        .ok () (final (forEach sameBlocks deliver executorAtOne)) ∧
      (ConfirmsCelestia sameBlocks executorAtOne ↔
        AgreesWithSoft (state (session 1 1 le_rfl none 10)) sameBlocks) :=
  have hrun := eq_ok_of_isOk (r := forEach sameBlocks deliver executorAtOne) (by decide +kernel)
  ⟨hrun, confirmsCelestia_iff Node.faithful.echoes hrun⟩

end

end Astria.Conductor
