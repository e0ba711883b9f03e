import Astria.Conductor.Responsive

/-!
# The stop height

What the readers and the executor of a session with an end block number do in every interleaving
(`crates/astria-conductor/src/executor/mod.rs`, `sequencer/mod.rs`, `celestia/mod.rs`).

No reader forwards a block above the stop height.  The event loop ends at the end block number as long
as it does not see the exit of a reader while blocks of that reader still wait in the channel: it takes
such an exit for a failure.  That happens when the firm and soft numbers are too far apart, which
disables the soft branch, and when a reader sends its last block and returns between two polls.

Results:
* `Stopping.step`: what holds of a session that stops, and that every step keeps it;
* `Stopping.ends`: once the readers have returned, enough steps of the executor end the loop;
* `stops_of_drained`: runs whose exits are seen with drained channels stop at the end block number.
-/

namespace Astria.Conductor

open Astria.Core Astria.Lib Exec
open Astria.Sequencer (BlockCodec)

/-! ## The session -/

/-- A session that can stop: its stop height `stop` is that of its end block number `last`, which is
not behind it, and the executor can ask for the next heights. -/
structure Stoppable (level : CommitLevel) (s : State) (last stop : ℕ) : Prop where
  end_eq : s.executionSessionParameters.rollupEndBlockNumber = some last
  maps : s.MapsTo last stop
  stop_pos : 0 < stop
  stop_lt : stop < maxHeight
  number_le : (if level.isWithFirm then s.firmNumber else s.softNumber) ≤ last
  soft_next : s.nextExpectedSoftSequencerHeight ≠ none

section

variable {s : State} {l m n h k : ℕ}

theorem State.MapsTo.between (hl : s.MapsTo l h) (hn : s.MapsTo n k) (hlm : l ≤ m) (hmn : m ≤ n) :
    s.MapsTo m (h + (m - l)) := by
  obtain ⟨hnumber, hfirst, hsum, hheight, hmax⟩ := hl
  obtain ⟨hnumber', hfirst', hsum', hheight', hmax'⟩ := hn
  constructor <;> omega

theorem State.MapsTo.nextExpectedHeight (h : s.MapsTo n k) (hlt : k < maxHeight) :
    s.nextExpectedHeight n = some (k + 1) :=
  State.nextExpectedHeight_eq_some.mpr ⟨k, h, rfl, hlt⟩

variable {level : CommitLevel} {last stop : ℕ}

theorem Stoppable.stopHeight (hs : Stoppable level s last stop) : s.sequencerStopHeight = some stop := by
  unfold State.sequencerStopHeight
  rw [hs.end_eq]
  dsimp only
  rw [mapRollupNumberToSequencerHeight_eq_ok.mpr hs.maps]
  exact if_neg (Nat.pos_iff_ne_zero.mp hs.stop_pos)

/-- A number whose next height is above the stop height has reached the end. -/
theorem Stoppable.last_le (hs : Stoppable level s last stop) (hlt : stop < s.heightAfter n) :
    last ≤ n := by
  have := hs.maps.height_eq
  unfold State.heightAfter at hlt
  omega

/-- A number whose next height is not above the stop height has not. -/
theorem Stoppable.lt_last (hs : Stoppable level s last stop) (hl : s.MapsTo l h)
    (hle : s.heightAfter n ≤ stop) : n < last := by
  have := hs.maps.height_eq
  have := hl.height_eq
  unfold State.heightAfter at hle
  omega

/-- The height after a number up to the end exists. -/
theorem Stoppable.next (hs : Stoppable level s last stop) {base height : ℕ}
    (hbase : s.MapsTo base height) (hge : base ≤ n) (hle : n ≤ last) :
    s.nextExpectedHeight n = some (s.heightAfter n) := by
  have hmaps := hbase.between hs.maps hge hle
  have hlast := hs.maps.height_eq
  have hn := hmaps.height_eq
  have := hs.stop_lt
  rw [hmaps.nextExpectedHeight (by omega), hmaps.heightAfter]

end

/-! ## Blocks below the stop height -/

section

variable {T : Type} [GetSequencerHeight T]

/-- A reader that forwards no block above a height, and only blocks with a property. -/
structure Reader.Bounded (P : T → Prop) (stop : ℕ) (rc : ReaderAndChannel T) : Prop where
  cached : ∀ r, rc.1 = .running r → ∀ height block, r.blockCache.inner height = some block → P block
  sent : ∀ block ∈ rc.2.sent ++ rc.1.enqueued, P block ∧ getHeight block ≤ stop
  dropped : rc.1.isLive = false → rc.2.senderDropped = true

variable {P : T → Prop} {stop : ℕ} {rc rc' : ReaderAndChannel T} {config : ReaderConfig}
  {view : ReaderView} {e : ReaderEvent T}

theorem Reader.Bounded.exit {reader : Reader T} {c : Channel T} (h : Reader.Bounded P stop (reader, c))
    (res : TaskResult) : Reader.Bounded P stop (exit res c) where
  cached _ hr := nomatch hr
  dropped _ := rfl
  sent block hblock := by
    have hblock : block ∈ c.sent ++ [] := hblock
    rw [List.append_nil] at hblock
    exact h.sent block (List.mem_append_left _ hblock)

/-- The channel may hand out its blocks, and its reader may be joined. -/
theorem Reader.Bounded.congr {reader reader' : Reader T} {c c' : Channel T}
    (h : Reader.Bounded P stop (reader, c)) (hreader : reader' = reader ∨ reader' = .joined)
    (hjoined : reader' = .joined → c.senderDropped = true) (hsent : c'.sent = c.sent)
    (hdropped : c'.senderDropped = c.senderDropped) : Reader.Bounded P stop (reader', c') := by
  obtain rfl | rfl := hreader
  · refine ⟨h.cached, ?_, fun hlive => hdropped.trans (h.dropped hlive)⟩
    intro block hblock
    have hblock : block ∈ c'.sent ++ reader'.enqueued := hblock
    rw [hsent] at hblock
    exact h.sent block hblock
  · refine ⟨fun _ hr => (nomatch hr), ?_, fun _ => hdropped.trans (hjoined rfl)⟩
    intro block hblock
    have hblock : block ∈ c'.sent ++ [] := hblock
    rw [List.append_nil, hsent] at hblock
    exact h.sent block (List.mem_append_left _ hblock)

theorem Reader.Bounded.step (hstop : view.stopHeight = some stop) (hblocks : ∀ block ∈ e.blocks, P block)
    (h : Reader.Bounded P stop rc) (hs : Reader.Stepped config view e rc rc') :
    Reader.Bounded P stop rc' := by
  have hdropped {c c' : Channel T} {block : T} (hsent : c.trySend block = .ok c') :
      c'.senderDropped = c.senderDropped := by
    obtain ⟨-, -, rfl⟩ := Channel.trySend_eq_ok.mp hsent
    rfl
  have hadvance {r : RunningReader T} (hr : ∀ height block,
      r.blockCache.inner height = some block → P block) (height : ℕ) (block : T)
      (hblock : r.blockCache.advance.inner height = some block) : P block := by
    have hblock : Function.update r.blockCache.inner r.blockCache.nextHeight none height = some block :=
      hblock
    by_cases heq : height = r.blockCache.nextHeight
    · rw [heq, Function.update_self] at hblock
      cases hblock
    · rw [Function.update_of_ne heq] at hblock
      exact hr height block hblock
  cases hs with
  | idle => exact h
  | @started c cache hnext hempty =>
    refine ⟨?_, ?_, fun hlive => (nomatch hlive)⟩
    · intro r hr height block hblock
      obtain rfl := Reader.running.inj hr
      have hblock : cache.inner height = some block := hblock
      rw [hempty] at hblock
      cases hblock
    · exact h.sent
  | stopped => exact h.exit _
  | cancelled => exact h.exit _
  | failed => exact h.exit _
  | @cached r c cache hnext hcached =>
    refine ⟨?_, h.sent, fun hlive => (nomatch hlive)⟩
    intro r' hr height block hblock
    obtain rfl := Reader.running.inj hr
    obtain hold | hnew := hcached height block hblock
    · exact h.cached r rfl height block hold
    · exact hblocks block hnew
  | @forwarded r c c' block hbelow henqueued hblock hsent =>
    refine ⟨?_, ?_, fun hlive => (nomatch hlive)⟩
    · intro r' hr
      obtain rfl := Reader.running.inj hr
      exact hadvance (h.cached r rfl)
    · intro b hb
      have hb : b ∈ c'.sent ++ [] := hb
      rw [List.append_nil, Channel.sent_of_trySend hsent, List.mem_append, List.mem_singleton] at hb
      obtain hb | rfl := hb
      · exact h.sent b (List.mem_append_left _ hb)
      · have hheight := r.blockCache.keyed _ _ hblock
        exact ⟨h.cached r rfl _ _ hblock, hheight ▸ hbelow stop hstop⟩
  | @enqueued r c block hbelow henqueued hblock =>
    refine ⟨?_, ?_, fun hlive => (nomatch hlive)⟩
    · intro r' hr
      obtain rfl := Reader.running.inj hr
      exact hadvance (h.cached r rfl)
    · intro b hb
      have hb : b ∈ c.sent ++ [block] := hb
      rw [List.mem_append, List.mem_singleton] at hb
      obtain hb | rfl := hb
      · exact h.sent b (List.mem_append_left _ hb)
      · have hheight := r.blockCache.keyed _ _ hblock
        exact ⟨h.cached r rfl _ _ hblock, hheight ▸ hbelow stop hstop⟩
  | @sent r c c' block henqueued hsent =>
    refine ⟨?_, ?_, fun hlive => (nomatch hlive)⟩
    · intro r' hr
      obtain rfl := Reader.running.inj hr
      exact h.cached r rfl
    · intro b hb
      have hb : b ∈ c'.sent ++ [] := hb
      have henqueued : Reader.enqueued (.running r) = [block] := by
        show r.enqueuedBlock.toList = [block]
        rw [henqueued]
        rfl
      refine h.sent b ?_
      show b ∈ c.sent ++ Reader.enqueued (.running r)
      rw [henqueued, ← Channel.sent_of_trySend hsent]
      rwa [List.append_nil] at hb

end

/-! ## Sessions that stop -/

namespace System

section

variable {ρ : Type}

/-- No block that the executor would still execute waits in the channel of a reader. -/
def Drained (S : System ρ) : ReaderKind → Prop
  | .firm => S.firmBlocks.queue = []
  | .soft => ∀ block ∈ S.softBlocks.queue,
      ∀ expected ∈ S.world.state.nextExpectedSoftSequencerHeight, block.height < expected

instance (S : System ρ) : (kind : ReaderKind) → Decidable (S.Drained kind)
  | .firm => inferInstanceAs (Decidable (S.firmBlocks.queue = []))
  | .soft => inferInstanceAs (Decidable (∀ block ∈ S.softBlocks.queue,
      ∀ expected ∈ S.world.state.nextExpectedSoftSequencerHeight, block.height < expected))

/-- The exit that the next step of the executor handles. -/
def handledExit (S : System ρ) (first : ReaderKind) : Option (ReaderKind × TaskResult) :=
  if S.outcome.isNone && S.executing.isNone && S.select.branch = .join then S.joinNext first else none

theorem handledExit_eq {S : System ρ} {first : ReaderKind} (houtcome : S.outcome = none)
    (hexecuting : S.executing = none) (hbranch : S.select.branch = .join) :
    S.handledExit first = S.joinNext first :=
  if_pos (by simp [houtcome, hexecuting, hbranch])

/-- An exit is seen with a drained channel. -/
def ExitsDrained (S : System ρ) : Event → Prop
  | .executor first => ∀ x ∈ S.handledExit first, S.Drained x.1
  | _ => True

instance (S : System ρ) : (e : Event) → Decidable (S.ExitsDrained e)
  | .firm _ | .soft _ => inferInstanceAs (Decidable True)
  | .executor first => inferInstanceAs (Decidable (∀ x ∈ S.handledExit first, S.Drained x.1))

variable [codec : BlockCodec] [dataCodec : RollupDataCodec]

/-- Nothing fails but the event loop: the blocks that are fetched are encoded as the sequencer does,
and the readers return with a success. -/
def Succeeds (S : System ρ) : Event → Prop
  | .firm e => ∀ block ∈ e.blocks, (ExecutableBlock.fromReconstructed block).Decodes
  | .soft e => ∀ block ∈ e.blocks, (softExecutable S.world block).Decodes
  | .executor first => ∀ x ∈ S.handledExit first, x.2 = .success

instance (S : System ρ) : (e : Event) → Decidable (S.Succeeds e)
  | .firm e => inferInstanceAs
      (Decidable (∀ block ∈ e.blocks, (ExecutableBlock.fromReconstructed block).Decodes))
  | .soft e => inferInstanceAs
      (Decidable (∀ block ∈ e.blocks, (softExecutable S.world block).Decodes))
  | .executor first => inferInstanceAs (Decidable (∀ x ∈ S.handledExit first, x.2 = .success))

variable [rollup : Rollup ρ]

/-- Every step of a run has a property. -/
def Along (P : System ρ → Event → Prop) (S : System ρ) : List Event → Prop
  | [] => True
  | e :: es => P S e ∧ (S.step e).Along P es

instance instDecidableAlong {P : System ρ → Event → Prop} [∀ S e, Decidable (P S e)] :
    (S : System ρ) → (es : List Event) → Decidable (S.Along P es)
  | _, [] => inferInstanceAs (Decidable True)
  | S, e :: es =>
    have : Decidable ((S.step e).Along P es) := instDecidableAlong (S.step e) es
    inferInstanceAs (Decidable (P S e ∧ (S.step e).Along P es))

end

section

variable {ρ : Type} [codec : BlockCodec] [dataCodec : RollupDataCodec]

/-- What holds of every system that a session which stops reaches. -/
structure Stopping (has : ρ → ExecutedBlockMetadata → Prop) (level : CommitLevel) (s : State)
    (last stop : ℕ) (S : System ρ) : Prop where
  inOrder : S.InOrder level s
  known : Known has S.world
  firm_ge : level.isWithFirm = true → s.firmNumber ≤ S.world.state.firmNumber
  firm_le : level.isWithFirm = true → S.world.state.firmNumber ≤ last
  soft_ge : level.isWithFirm = false → s.softNumber ≤ S.world.state.softNumber
  soft_le : S.world.state.softNumber ≤ max s.softNumber last
  softBounded : Reader.Bounded (fun block => (ExecutableBlock.fromSequencer block
    s.executionSessionParameters.rollupId).Decodes) stop (S.softReader, S.softBlocks)
  firmBounded : Reader.Bounded (fun block => (ExecutableBlock.fromReconstructed block).Decodes) stop
    (S.firmReader, S.firmBlocks)
  softHand : ∀ block ∈ S.softInHand, block ∈ S.softBlocks.sent
  firmHand : ∀ block ∈ S.firmInHand, block ∈ S.firmBlocks.sent
  executed : ∀ x ∈ S.world.executions, x.block.height ≤ stop
  cancelled : S.readersCancelled = true → level.isWithFirm = true ∧ last ≤ S.world.state.firmNumber
  firmJoined : level.isWithFirm = true → S.firmReader = .joined → last ≤ S.world.state.firmNumber
  softJoined : level.isWithSoft = true → S.softReader = .joined → last ≤ S.world.state.softNumber
  outcome : ∀ o, S.outcome = some o →
    o = .ok S.world.state ∧ S.firmReader = .joined ∧ S.softReader = .joined

variable {has : ρ → ExecutedBlockMetadata → Prop} {level : CommitLevel} {s : State} {last stop : ℕ}
  {S S' : System ρ}

/-- The numbers that the commit level tracks have heights. -/
structure Mapped (level : CommitLevel) (s : State) : Prop where
  firm : level.isWithFirm = true → ∃ height, s.MapsTo s.firmNumber height
  soft : level.isWithSoft = true → ∃ height, s.MapsTo s.softNumber height

theorem Stopping.softStep (hs : Stoppable level s last stop) (h : Stopping has level s last stop S)
    (e : ReaderEvent FilteredSequencerBlock) (hm : S.Succeeds (.soft e)) :
    Stopping has level s last stop (S.softStep e) where
  inOrder := h.inOrder.softStep e
  known := h.known
  firm_ge := h.firm_ge
  firm_le := h.firm_le
  soft_ge := h.soft_ge
  soft_le := h.soft_le
  firmBounded := h.firmBounded
  firmHand := h.firmHand
  executed := h.executed
  cancelled := h.cancelled
  firmJoined := h.firmJoined
  softBounded := by
    have hstop : S.softView.stopHeight = some stop := h.inOrder.stopHeight.trans hs.stopHeight
    refine h.softBounded.step hstop (fun block hblock => ?_) (Reader.step_cases _)
    have hdecodes : (softExecutable S.world block).Decodes := hm block hblock
    unfold softExecutable at hdecodes
    rw [h.inOrder.executing.session_eq] at hdecodes
    exact hdecodes
  softHand block hblock := (Reader.step_cases _).sent_subset (h.softHand block hblock)
  softJoined hsoft hjoined := h.softJoined hsoft ((Reader.step_cases _).joined hjoined)
  outcome o ho := by
    obtain ⟨hok, hfirm, hsoft⟩ := h.outcome o ho
    refine ⟨hok, hfirm, ?_⟩
    unfold System.softStep
    rw [hsoft]
    rfl

theorem Stopping.firmStep (hs : Stoppable level s last stop) (h : Stopping has level s last stop S)
    (e : ReaderEvent ReconstructedBlock) (hm : S.Succeeds (.firm e)) :
    Stopping has level s last stop (S.firmStep e) where
  inOrder := h.inOrder.firmStep e
  known := h.known
  firm_ge := h.firm_ge
  firm_le := h.firm_le
  soft_ge := h.soft_ge
  soft_le := h.soft_le
  softBounded := h.softBounded
  softHand := h.softHand
  executed := h.executed
  cancelled := h.cancelled
  softJoined := h.softJoined
  firmBounded := by
    have hstop : S.firmView.stopHeight = some stop := h.inOrder.stopHeight.trans hs.stopHeight
    exact h.firmBounded.step hstop hm (Reader.step_cases _)
  firmHand block hblock := (Reader.step_cases _).sent_subset (h.firmHand block hblock)
  firmJoined hfirm hjoined := h.firmJoined hfirm ((Reader.step_cases _).joined hjoined)
  outcome o ho := by
    obtain ⟨hok, hfirm, hsoft⟩ := h.outcome o ho
    refine ⟨hok, ?_, hsoft⟩
    unfold System.firmStep
    rw [hfirm]
    rfl

/-! ### The next heights -/

/-- A lower bound of the tracked numbers that has a height. -/
theorem Stopping.base (hmapped : Mapped level s) (h : Stopping has level s last stop S) :
    ∃ base height, s.MapsTo base height ∧ base ≤ S.world.state.softNumber ∧
      (level.isWithFirm = true → base ≤ S.world.state.firmNumber) ∧ base ≤ s.softNumber := by
  have hle : S.world.state.firmNumber ≤ S.world.state.softNumber :=
    S.world.state.commitmentState.firm_le_soft
  have hle' : s.firmNumber ≤ s.softNumber := s.commitmentState.firm_le_soft
  cases hfirm : level.isWithFirm with
  | true =>
    obtain ⟨height, hmaps⟩ := hmapped.firm hfirm
    have := h.firm_ge hfirm
    exact ⟨s.firmNumber, height, hmaps, by omega, fun _ => this, hle'⟩
  | false =>
    have hsoft : level.isWithSoft = true := by
      cases level with
      | softOnly => rfl
      | firmOnly => cases hfirm
      | softAndFirm => rfl
    obtain ⟨height, hmaps⟩ := hmapped.soft hsoft
    exact ⟨s.softNumber, height, hmaps, h.soft_ge hfirm, fun h => (nomatch h), le_rfl⟩

theorem Stopping.nextFirm (hs : Stoppable level s last stop) (hmapped : Mapped level s)
    (h : Stopping has level s last stop S) (hfirm : level.isWithFirm = true) :
    S.world.state.nextExpectedFirmSequencerHeight = some (s.heightAfter S.world.state.firmNumber) := by
  obtain ⟨base, height, hbase, -, hge, -⟩ := h.base hmapped
  show S.world.state.nextExpectedHeight _ = _
  rw [h.inOrder.executing.nextExpectedHeight_eq]
  exact hs.next hbase (hge hfirm) (h.firm_le hfirm)

theorem Stopping.nextSoft (hs : Stoppable level s last stop) (hmapped : Mapped level s)
    (h : Stopping has level s last stop S) :
    S.world.state.nextExpectedSoftSequencerHeight = some (s.heightAfter S.world.state.softNumber) := by
  obtain ⟨base, height, hbase, hge, -, hbase_le⟩ := h.base hmapped
  show S.world.state.nextExpectedHeight _ = _
  rw [h.inOrder.executing.nextExpectedHeight_eq]
  by_cases hle : S.world.state.softNumber ≤ last
  · exact hs.next hbase hge hle
  · obtain ⟨k, hk⟩ := Option.ne_none_iff_exists'.mp hs.soft_next
    have hk : s.nextExpectedHeight s.softNumber = some k := hk
    obtain ⟨j, hmaps, rfl, hmax⟩ := State.nextExpectedHeight_eq_some.mp hk
    have hle := h.soft_le
    have hbetween := hbase.between hmaps hge (by omega)
    have hj := hmaps.height_eq
    have hn := hbetween.height_eq
    rw [hbetween.nextExpectedHeight (by omega), hbetween.heightAfter]

/-- The number after one that is below the end has a height. -/
theorem Stopping.maps_succ (hs : Stoppable level s last stop) {base height n : ℕ}
    (h : Stopping has level s last stop S) (hbase : s.MapsTo base height) (hge : base ≤ n)
    (hlt : n < last) : ∃ height, S.world.state.MapsTo (n + 1) height := by
  rw [h.inOrder.executing.session_eq]
  exact ⟨_, hbase.between hs.maps (by omega) hlt⟩

/-! ### Steps of the executor -/

omit codec dataCodec in
/-- Blocks that are added to the executed ones below the stop height. -/
theorem executed_le {w w' : World ρ} {height : ℕ} (h : ∀ x ∈ w.executions, x.block.height ≤ stop)
    (hle : height ≤ stop) {x : Execution} (hx : x.block.height = height)
    (hexecutions : w'.executions = w.executions ++ [x]) :
    ∀ x ∈ w'.executions, x.block.height ≤ stop := by
  intro y hy
  rw [hexecutions, List.mem_append, List.mem_singleton] at hy
  obtain hy | rfl := hy
  · exact h y hy
  · rw [hx]
    exact hle

variable [rollup : Rollup ρ]

/-- A soft block in execution succeeds. -/
theorem Stopping.soft_executed (hr : Responsive has) (hs : Stoppable level s last stop)
    (hmapped : Mapped level s) (h : Stopping has level s last stop S) {block : FilteredSequencerBlock}
    (hexecuting : S.executing = some (.soft block)) (houtcome : S.outcome = none) :
    ∃ w, deliver (.soft block) S.world = .ok () w ∧
      Stopping has level s last stop
        { S with world := w, executing := none, select := Select.start } := by
  have hhand : S.softInHand = [block] := by rw [softInHand, hexecuting]
  have hlevel : level.isWithSoft = true := by
    by_contra hsoft
    obtain ⟨-, -, hnone⟩ := h.inOrder.softAbsent (by simpa using hsoft)
    rw [hhand] at hnone
    cases hnone
  have hsent : block ∈ S.softBlocks.sent := h.softHand block (hhand ▸ List.mem_singleton_self block)
  obtain ⟨hdecodes, hle⟩ := h.softBounded.sent block (List.mem_append_left _ hsent)
  have hle : block.height ≤ stop := hle
  have hnext := h.nextSoft hs hmapped
  obtain ⟨base, height, hbase, hge, -, -⟩ := h.base hmapped
  have hbelow (heq : block.height = s.heightAfter S.world.state.softNumber) :
      S.world.state.softNumber < last := hs.lt_last hbase (heq ▸ hle)
  have hdecodes : (softExecutable S.world block).Decodes := by
    unfold softExecutable
    rw [h.inOrder.executing.session_eq]
    exact hdecodes
  obtain ⟨w, hw, hknown⟩ := deliver_soft_ok hr h.known hnext (h.inOrder.soft_le hexecuting hnext)
    hdecodes fun heq => h.maps_succ hs hbase hge (hbelow heq)
  have hd := deliver_cases hr.echoes hw
  have hinOrder := h.inOrder.soft_delivered hexecuting hd
  obtain ⟨hfirm, expected, hexpected, hnumbers⟩ := hd.soft_numbers
  obtain rfl : s.heightAfter S.world.state.softNumber = expected :=
    Option.some.inj (hnext.symm.trans hexpected)
  have hsoft : S.world.state.softNumber ≤ w.state.softNumber ∧
      w.state.softNumber ≤ max s.softNumber last := by
    have := h.soft_le
    obtain ⟨-, hsame, -⟩ | ⟨heq, hsucc, -⟩ := hnumbers
    · omega
    · have := hbelow heq
      omega
  refine ⟨w, hw, hinOrder, hknown, ?_, ?_, ?_, hsoft.2, h.softBounded, h.firmBounded,
    fun _ hb => absurd hb List.not_mem_nil, fun _ hb => absurd hb List.not_mem_nil, ?_, ?_, ?_, ?_, ?_⟩
  · exact fun hf => hfirm.symm ▸ h.firm_ge hf
  · exact fun hf => hfirm.symm ▸ h.firm_le hf
  · exact fun hf => le_trans (h.soft_ge hf) hsoft.1
  · obtain ⟨-, -, hsame⟩ | ⟨heq, -, x, hx, hexecutions⟩ := hnumbers
    · show ∀ x ∈ w.executions, _
      rw [hsame]
      exact h.executed
    · exact executed_le h.executed hle (hx.trans heq.symm) hexecutions
  · exact fun hc => ⟨(h.cancelled hc).1, hfirm.symm ▸ (h.cancelled hc).2⟩
  · exact fun hf hj => hfirm.symm ▸ h.firmJoined hf hj
  · exact fun hsoft' hj => le_trans (h.softJoined hsoft' hj) hsoft.1
  · intro o ho
    have ho : S.outcome = some o := ho
    rw [houtcome] at ho
    cases ho

/-- A firm block in execution succeeds. -/
theorem Stopping.firm_executed (hr : Responsive has) (hs : Stoppable level s last stop)
    (hmapped : Mapped level s) (h : Stopping has level s last stop S) {block : ReconstructedBlock}
    (hexecuting : S.executing = some (.firm block)) (houtcome : S.outcome = none) :
    ∃ w, deliver (.firm block) S.world = .ok () w ∧
      Stopping has level s last stop
        { S with world := w, executing := none, select := Select.start } := by
  have hhand : S.firmInHand = [block] := by rw [firmInHand, hexecuting]
  have hlevel : level.isWithFirm = true := by
    by_contra hfirm
    obtain ⟨-, -, hnone⟩ := h.inOrder.firmAbsent (by simpa using hfirm)
    rw [hhand] at hnone
    cases hnone
  have hsent : block ∈ S.firmBlocks.sent := h.firmHand block (hhand ▸ List.mem_singleton_self block)
  obtain ⟨hdecodes, hle⟩ := h.firmBounded.sent block (List.mem_append_left _ hsent)
  have hle : block.sequencerHeight ≤ stop := hle
  have hnext := h.nextFirm hs hmapped hlevel
  have hheight := h.inOrder.firm_eq hexecuting hnext
  obtain ⟨base, height, hbase, hge, hgefirm, -⟩ := h.base hmapped
  have hbelow : S.world.state.firmNumber < last := hs.lt_last hbase (hheight ▸ hle)
  obtain ⟨height', hmaps⟩ := h.maps_succ hs hbase (hgefirm hlevel) hbelow
  have hcommit : S.world.commitLevel.isWithFirm = true := h.inOrder.executing.level_eq ▸ hlevel
  obtain ⟨w, hw, hknown⟩ := deliver_firm_ok hr h.known hcommit h.inOrder.executing.pending_number
    (hheight ▸ hnext) (h.nextSoft hs hmapped) hdecodes hmaps
  have hd := deliver_cases hr.echoes hw
  have hinOrder := h.inOrder.firm_delivered hexecuting hd
  obtain ⟨-, hfirm, hnumbers⟩ := hd.firm_numbers h.inOrder.executing.pending_number
  have hsoft : w.state.softNumber ≤ max s.softNumber last := by
    have := h.soft_le
    obtain ⟨hsame, -⟩ | ⟨-, hsucc, -⟩ := hnumbers <;> omega
  refine ⟨w, hw, hinOrder, hknown, ?_, ?_, ?_, hsoft, h.softBounded, h.firmBounded,
    fun _ hb => absurd hb List.not_mem_nil, fun _ hb => absurd hb List.not_mem_nil, ?_, ?_, ?_, ?_, ?_⟩
  · intro hf
    have := h.firm_ge hf
    show s.firmNumber ≤ w.state.firmNumber
    omega
  · intro hf
    show w.state.firmNumber ≤ last
    omega
  · intro hf
    rw [hlevel] at hf
    cases hf
  · obtain ⟨-, hsame⟩ | ⟨-, -, x, hx, hexecutions⟩ := hnumbers
    · show ∀ x ∈ w.executions, _
      rw [hsame]
      exact h.executed
    · exact executed_le h.executed hle hx hexecutions
  · intro hc
    have := (h.cancelled hc).2
    refine ⟨hlevel, ?_⟩
    show last ≤ w.state.firmNumber
    omega
  · intro hf hj
    have := h.firmJoined hf hj
    omega
  · intro hsoft' hj
    have hne : level ≠ .firmOnly := by
      rintro rfl
      cases hsoft'
    exact le_trans (h.softJoined hsoft' hj) (hd.softNumber_le h.inOrder.executing hne)
  · intro o ho
    have ho : S.outcome = some o := ho
    rw [houtcome] at ho
    cases ho

omit [Rollup ρ] in
/-- A firm reader that returned, and whose channel is drained, was at the end. -/
theorem Stopping.reached_firm (hs : Stoppable level s last stop)
    (h : Stopping has level s last stop S) (hexecuting : S.executing = none)
    (hreader : S.firmReader = .exited .success) (hdrained : S.firmBlocks.queue = []) :
    level.isWithFirm = true ∧ last ≤ S.world.state.firmNumber := by
  have hlevel : level.isWithFirm = true := by
    by_contra hfirm
    obtain ⟨hjoined, -, -⟩ := h.inOrder.firmAbsent (by simpa using hfirm)
    rw [hreader] at hjoined
    cases hjoined
  refine ⟨hlevel, ?_⟩
  obtain ⟨next, hflow⟩ := h.inOrder.firmFlow hlevel
  obtain hcancelled | ⟨stop', hstop', hlt⟩ := hflow.returned hreader
  · exact (h.cancelled hcancelled).2
  · obtain rfl : stop = stop' := Option.some.inj (hs.stopHeight.symm.trans hstop')
    have hheights := hflow.heights
    rw [show S.firmInHand = [] by rw [firmInHand, hexecuting], hreader] at hheights
    simp only [hdrained, Reader.enqueued, List.append_nil, List.map_nil] at hheights
    obtain ⟨-, rfl⟩ := hheights
    exact hs.last_le hlt

omit [Rollup ρ] in
/-- A soft reader that returned, and whose channel only has blocks that were overtaken, was at the
end. -/
theorem Stopping.reached_soft (hs : Stoppable level s last stop) (hmapped : Mapped level s)
    (h : Stopping has level s last stop S) (hexecuting : S.executing = none)
    (hreader : S.softReader = .exited .success) (hdrained : S.Drained .soft) :
    level.isWithSoft = true ∧ last ≤ S.world.state.softNumber := by
  have hlevel : level.isWithSoft = true := by
    by_contra hsoft
    obtain ⟨hjoined, -, -⟩ := h.inOrder.softAbsent (by simpa using hsoft)
    rw [hreader] at hjoined
    cases hjoined
  refine ⟨hlevel, ?_⟩
  obtain ⟨next, hflow⟩ := h.inOrder.softFlow hlevel
  obtain hcancelled | ⟨stop', hstop', hlt⟩ := hflow.returned hreader
  · exact le_trans (h.cancelled hcancelled).2 S.world.state.commitmentState.firm_le_soft
  · obtain rfl : stop = stop' := Option.some.inj (hs.stopHeight.symm.trans hstop')
    have hheights := hflow.heights
    rw [show S.softInHand = [] by rw [softInHand, hexecuting], hreader] at hheights
    simp only [Reader.enqueued, List.append_nil, List.nil_append] at hheights
    have hle := hheights.next_le fun k hk => by
      obtain ⟨block, hblock, rfl⟩ := List.mem_map.mp hk
      exact hdrained block hblock _ (h.nextSoft hs hmapped)
    exact hs.last_le (lt_of_lt_of_le hlt hle)

omit [Rollup ρ] in
theorem Stopping.end_eq_some {last' : ℕ} (hs : Stoppable level s last stop)
    (h : Stopping has level s last stop S) :
    S.world.state.executionSessionParameters.rollupEndBlockNumber = some last' ↔ last' = last := by
  rw [h.inOrder.executing.session_eq]
  show s.executionSessionParameters.rollupEndBlockNumber = some last' ↔ _
  rw [hs.end_eq, Option.some.injEq, eq_comm]

/-- A step of the executor keeps what holds of a session that stops. -/
theorem Stopping.executorStep (hr : Responsive has) (hs : Stoppable level s last stop)
    (hmapped : Mapped level s) (h : Stopping has level s last stop S) (first : ReaderKind)
    (hm : S.Succeeds (.executor first)) (hdrained : S.ExitsDrained (.executor first)) :
    Stopping has level s last stop (S.executorStep first) := by
  by_cases houtcome : S.outcome = none
  case neg =>
    rw [executorStep_of_outcome houtcome]
    exact h
  have hstepped := executorStep_cases first houtcome
  generalize S.executorStep first = S' at hstepped
  cases hstepped with
  | @delivered d w hexecuting hdeliver =>
    cases d with
    | soft block =>
      obtain ⟨w', hw', hstopping⟩ := h.soft_executed hr hs hmapped hexecuting houtcome
      obtain rfl : w = w' := by
        rw [hdeliver] at hw'
        cases hw'
        rfl
      exact hstopping
    | firm block =>
      obtain ⟨w', hw', hstopping⟩ := h.firm_executed hr hs hmapped hexecuting houtcome
      obtain rfl : w = w' := by
        rw [hdeliver] at hw'
        cases hw'
        rfl
      exact hstopping
  | @deliveryFailed d e w hexecuting hdeliver =>
    cases d with
    | soft block =>
      obtain ⟨w', hw', -⟩ := h.soft_executed hr hs hmapped hexecuting houtcome
      rw [hdeliver] at hw'
      cases hw'
    | firm block =>
      obtain ⟨w', hw', -⟩ := h.firm_executed hr hs hmapped hexecuting houtcome
      rw [hdeliver] at hw'
      cases hw'
  | panicked hexecuting hspread =>
    obtain ⟨-, -, hcommit, hnone⟩ := isSpreadTooLarge_error hspread
    have hlevel : level.isWithFirm = true := h.inOrder.executing.level_eq ▸ hcommit
    rw [h.nextFirm hs hmapped hlevel, h.nextSoft hs hmapped] at hnone
    simp at hnone
  | polled select hexecuting =>
    have hstep : ExecutorStepped first S { S with select := select } := .polled select hexecuting
    exact { h with inOrder := h.inOrder.executorStep hr.echoes hstep houtcome }
  | @receivedFirm block c hexecuting hrecv =>
    have hstep : ExecutorStepped first S _ := .receivedFirm hexecuting hrecv
    have hsent := Channel.sent_of_recv hrecv
    refine { h with
      inOrder := h.inOrder.executorStep hr.echoes hstep houtcome
      firmBounded := h.firmBounded.congr (Or.inl rfl) ?_ hsent (Channel.senderDropped_of_recv hrecv)
      softHand := fun _ hb => absurd hb List.not_mem_nil
      firmHand := ?_ }
    · intro hjoined
      exact h.firmBounded.dropped (by rw [hjoined]; rfl)
    · intro b hb
      obtain rfl := List.mem_singleton.mp hb
      exact Channel.mem_sent_of_recv hrecv
  | @receivedSoft block c hexecuting hrecv =>
    have hstep : ExecutorStepped first S _ := .receivedSoft hexecuting hrecv
    have hsent := Channel.sent_of_recv hrecv
    refine { h with
      inOrder := h.inOrder.executorStep hr.echoes hstep houtcome
      softBounded := h.softBounded.congr (Or.inl rfl) ?_ hsent (Channel.senderDropped_of_recv hrecv)
      firmHand := fun _ hb => absurd hb List.not_mem_nil
      softHand := ?_ }
    · intro hjoined
      exact h.softBounded.dropped (by rw [hjoined]; rfl)
    · intro b hb
      obtain rfl := List.mem_singleton.mp hb
      exact Channel.mem_sent_of_recv hrecv
  | @joinedFirm res hexecuting hbranch hjoins hlevel hreached =>
    have hstep : ExecutorStepped first S _ := .joinedFirm hexecuting hbranch hjoins hlevel hreached
    have hwith : level.isWithFirm = true := h.inOrder.executing.level_eq ▸ hlevel
    obtain ⟨last', hend, hle⟩ := hasFirmNumberReachedStopHeight_eq_true.mp hreached
    obtain rfl := (h.end_eq_some hs).mp hend
    refine { h with
      inOrder := h.inOrder.executorStep hr.echoes hstep houtcome
      softBounded := h.softBounded.congr (Or.inl rfl) ?_ rfl rfl
      firmBounded := h.firmBounded.congr (Or.inr rfl) ?_ rfl rfl
      cancelled := fun _ => ⟨hwith, hle⟩
      firmJoined := fun _ _ => hle
      outcome := fun o ho => ?_ }
    · intro hjoined
      exact h.softBounded.dropped (by rw [hjoined]; rfl)
    · intro _
      exact h.firmBounded.dropped (by rw [exitOf_firm (joinNext_eq_some hjoins)]; rfl)
    · have ho : S.outcome = some o := ho
      rw [houtcome] at ho
      cases ho
  | @joinedSoft res hexecuting hbranch hjoins hlevel hreached =>
    have hstep : ExecutorStepped first S _ := .joinedSoft hexecuting hbranch hjoins hlevel hreached
    obtain ⟨last', hend, hle⟩ := hasSoftNumberReachedStopHeight_eq_true.mp hreached
    obtain rfl := (h.end_eq_some hs).mp hend
    refine { h with
      inOrder := h.inOrder.executorStep hr.echoes hstep houtcome
      softBounded := h.softBounded.congr (Or.inr rfl) ?_ rfl rfl
      softJoined := fun _ _ => hle
      outcome := fun o ho => ?_ }
    · intro _
      exact h.softBounded.dropped (by rw [exitOf_soft (joinNext_eq_some hjoins)]; rfl)
    · have ho : S.outcome = some o := ho
      rw [houtcome] at ho
      cases ho
  | @joinFailed task res e hexecuting hbranch hjoins hhandled =>
    have hexits := (handledExit_eq houtcome hexecuting hbranch).trans hjoins
    obtain rfl : res = .success := hm _ hexits
    have hdrained : S.Drained task := hdrained _ hexits
    have hexit := joinNext_eq_some hjoins
    have hcommit := h.inOrder.executing.level_eq
    cases task with
    | firm =>
      obtain ⟨hlevel, hle⟩ := h.reached_firm hs hexecuting (exitOf_firm hexit) hdrained
      have hok : handleTaskExit .firm .success (S.remove .firm) = .ok _ := handleTaskExit_firm.mpr
        ⟨hcommit ▸ hlevel, hasFirmNumberReachedStopHeight_eq_true.mpr
          ⟨last, (h.end_eq_some hs).mpr rfl, hle⟩, rfl⟩
      rw [hhandled] at hok
      cases hok
    | soft =>
      obtain ⟨hlevel, hle⟩ := h.reached_soft hs hmapped hexecuting (exitOf_soft hexit) hdrained
      have hok : handleTaskExit .soft .success (S.remove .soft) = .ok _ := handleTaskExit_soft.mpr
        ⟨hcommit ▸ hlevel, hasSoftNumberReachedStopHeight_eq_true.mpr
          ⟨last, (h.end_eq_some hs).mpr rfl, hle⟩, rfl⟩
      rw [hhandled] at hok
      cases hok
  | ended hexecuting hnoTasks =>
    obtain ⟨hfirm, hsoft⟩ := noTasks_eq_true.mp hnoTasks
    have hinOrder := h.inOrder
    refine { h with
      inOrder := ⟨hinOrder.executing, hinOrder.softFlow, hinOrder.firmFlow, hinOrder.softAbsent,
        hinOrder.firmAbsent⟩
      outcome := fun o ho => ?_ }
    obtain rfl := Option.some.inj ho
    exact ⟨rfl, hfirm, hsoft⟩

theorem Stopping.step (hr : Responsive has) (hs : Stoppable level s last stop)
    (hmapped : Mapped level s) (h : Stopping has level s last stop S) (e : Event)
    (hm : S.Succeeds e) (hdrained : S.ExitsDrained e) : Stopping has level s last stop (S.step e) := by
  cases e with
  | firm e => exact h.firmStep hs e hm
  | soft e => exact h.softStep hs e hm
  | executor first => exact h.executorStep hr hs hmapped first hm hdrained

theorem Stopping.run (hr : Responsive has) (hs : Stoppable level s last stop)
    (hmapped : Mapped level s) (h : Stopping has level s last stop S) {es : List Event}
    (hm : S.Along Succeeds es) (hdrained : S.Along ExitsDrained es) :
    Stopping has level s last stop (S.run es) := by
  induction es generalizing S with
  | nil => exact h
  | cons e es ih =>
    obtain ⟨he, hes⟩ := hm
    obtain ⟨he', hes'⟩ := hdrained
    exact ih (h.step hr hs hmapped e he he') hes hes'

end

/-! ## The end of a run -/

section

variable {ρ : Type}

/-- A reader that returned waits to be joined. -/
def returned {T : Type} [GetSequencerHeight T] : Reader T → ℕ
  | .exited _ => 1
  | _ => 0

/-- How far a `select!` is from its end, with nothing left to receive: a branch that was polled before
its channel was finished is polled once more. -/
def rank (select : Select) : ℕ :=
  match select.branch with
  | .precondition => 4
  | .firm => 3
  | .soft => if select.firmDisabled then 2 else 6
  | .join => if select.firmDisabled && select.softDisabled then 1 else 5

/-- What the executor still has to receive, execute and join, a waiting block counted twice. -/
def waiting (S : System ρ) : ℕ :=
  2 * (S.firmBlocks.queue.length + S.softBlocks.queue.length) + (if S.executing.isSome then 1 else 0) +
    returned S.firmReader + returned S.softReader

/-- A bound of the steps that the executor takes once the readers have returned. -/
def potential (S : System ρ) : ℕ := 7 * S.waiting + rank S.select

/-- Both readers have returned. -/
structure ReadersReturned (S : System ρ) : Prop where
  firm : S.firmReader.isLive = false
  soft : S.softReader.isLive = false

variable [codec : BlockCodec] [dataCodec : RollupDataCodec] [rollup : Rollup ρ]
  {has : ρ → ExecutedBlockMetadata → Prop} {level : CommitLevel} {s : State} {last stop : ℕ}
  {S S' : System ρ}

/-- An event loop that has returned stays so. -/
theorem outcome_ne_none_run (h : S.outcome ≠ none) (es : List Event) : (S.run es).outcome ≠ none := by
  induction es generalizing S with
  | nil => exact h
  | cons e es ih =>
    rw [run_cons]
    refine ih ?_
    cases e with
    | firm e => exact h
    | soft e => exact h
    | executor first =>
      show (S.executorStep first).outcome ≠ none
      rw [executorStep_of_outcome h]
      exact h

theorem ReadersReturned.executorStep (h : ReadersReturned S) (first : ReaderKind) :
    ReadersReturned (S.executorStep first) := by
  by_cases houtcome : S.outcome = none
  · have hstepped := executorStep_cases first houtcome
    generalize S.executorStep first = S' at hstepped
    cases hstepped with
    | delivered => exact ⟨h.firm, h.soft⟩
    | deliveryFailed => exact ⟨h.firm, h.soft⟩
    | panicked => exact ⟨h.firm, h.soft⟩
    | polled => exact ⟨h.firm, h.soft⟩
    | receivedFirm => exact ⟨h.firm, h.soft⟩
    | receivedSoft => exact ⟨h.firm, h.soft⟩
    | joinedFirm => exact ⟨rfl, h.soft⟩
    | joinedSoft => exact ⟨h.firm, rfl⟩
    | @joinFailed task =>
      cases task with
      | firm => exact ⟨rfl, h.soft⟩
      | soft => exact ⟨h.firm, rfl⟩
    | ended => exact ⟨h.firm, h.soft⟩
  · rw [executorStep_of_outcome houtcome]
    exact h

omit codec dataCodec rollup in
/-- Receiving, executing and joining is progress. -/
theorem potential_of_waiting (h : S'.waiting < S.waiting) : S'.potential < S.potential := by
  have hrank : rank S'.select ≤ 6 := by
    unfold rank
    cases S'.select.branch with
    | precondition => exact Nat.le_of_ble_eq_true rfl
    | firm => exact Nat.le_of_ble_eq_true rfl
    | soft => dsimp only; split_ifs <;> omega
    | join => dsimp only; split_ifs <;> omega
  unfold potential
  omega

omit codec dataCodec rollup in
/-- So is polling, with the channels finished. -/
theorem potential_of_rank (h : S'.waiting = S.waiting) (hrank : rank S'.select < rank S.select) :
    S'.potential < S.potential := by
  unfold potential
  omega

omit codec dataCodec rollup in
theorem waiting_remove {task : ReaderKind} {res : TaskResult} (hexit : S.exitOf task = some res) :
    (S.remove task).waiting < S.waiting := by
  unfold waiting System.remove
  have hjoined {T : Type} [GetSequencerHeight T] : returned (.joined : Reader T) = 0 := rfl
  cases task with
  | firm =>
    have hreturned : returned S.firmReader = 1 := by
      rw [exitOf_firm hexit]
      rfl
    dsimp only
    rw [hreturned, hjoined]
    omega
  | soft =>
    have hreturned : returned S.softReader = 1 := by
      rw [exitOf_soft hexit]
      rfl
    dsimp only
    rw [hreturned, hjoined]
    omega

omit codec dataCodec rollup in
/-- A task exit that is handled leaves what waits. -/
theorem waiting_of_handled {task : ReaderKind} {res : TaskResult}
    (h : handleTaskExit task res S = .ok S') : S'.waiting = S.waiting := by
  cases task with
  | firm =>
    obtain ⟨-, -, rfl⟩ := handleTaskExit_firm.mp h
    rfl
  | soft =>
    obtain ⟨-, -, rfl⟩ := handleTaskExit_soft.mp h
    rfl

omit codec dataCodec rollup in
/-- Receiving a block moves it from its channel into execution, which counts less. -/
theorem waiting_receive (hexecuting : S.executing = none) (d : Delivery)
    (hexecuting' : S'.executing = some d) (hfirm : S'.firmReader = S.firmReader)
    (hsoft : S'.softReader = S.softReader)
    (hqueues : S.firmBlocks.queue.length + S.softBlocks.queue.length =
      S'.firmBlocks.queue.length + S'.softBlocks.queue.length + 1) : S'.waiting < S.waiting := by
  unfold waiting
  rw [hexecuting, hexecuting', hfirm, hsoft, hqueues]
  show _ + 1 + _ + _ < _ + 0 + _ + _
  omega

omit codec dataCodec rollup in
/-- Where no task is left to join, there is none. -/
theorem ReadersReturned.noTasks (h : ReadersReturned S) {first : ReaderKind}
    (hjoin : S.joinNext first = none) : S.noTasks = true := by
  have hexit : S.exitOf .firm = none ∧ S.exitOf .soft = none := by
    unfold joinNext at hjoin
    cases first <;> cases hfirm : S.exitOf .firm <;> cases hsoft : S.exitOf .soft <;> simp_all
  obtain ⟨hfirm, hsoft⟩ := hexit
  refine noTasks_eq_true.mpr ⟨?_, ?_⟩
  · have hlive := h.firm
    unfold exitOf at hfirm
    cases hreader : S.firmReader <;> simp_all [Reader.isLive]
  · have hlive := h.soft
    unfold exitOf at hsoft
    cases hreader : S.softReader <;> simp_all [Reader.isLive]

/-- Executing a block is progress. -/
theorem Stopping.potential_execute (hr : Responsive has) (hs : Stoppable level s last stop)
    (hmapped : Mapped level s) (h : Stopping has level s last stop S) {d : Delivery}
    (hexecuting : S.executing = some d) (houtcome : S.outcome = none) :
    (S.execute d).potential < S.potential := by
  have hless (w : World ρ) :
      ({ S with world := w, executing := none, select := Select.start } : System ρ).potential <
        S.potential := by
    refine potential_of_waiting ?_
    unfold waiting
    rw [hexecuting]
    show 2 * (S.firmBlocks.queue.length + S.softBlocks.queue.length) + 0 + returned S.firmReader +
      returned S.softReader < _ + 1 + _ + _
    omega
  unfold execute
  cases d with
  | soft block =>
    obtain ⟨w, hw, -⟩ := h.soft_executed hr hs hmapped hexecuting houtcome
    rw [hw]
    exact hless w
  | firm block =>
    obtain ⟨w, hw, -⟩ := h.firm_executed hr hs hmapped hexecuting houtcome
    rw [hw]
    exact hless w

omit rollup in
/-- Once the readers have returned, polling a branch ends the loop or is progress. -/
theorem Stopping.potential_poll (h : Stopping has level s last stop S) (first : ReaderKind)
    (hreturned : ReadersReturned S) (hexecuting : S.executing = none) :
    (S.pollBranch first).outcome ≠ none ∨ (S.pollBranch first).potential < S.potential := by
  unfold pollBranch
  cases hbranch : S.select.branch with
  | precondition =>
    cases hspread : isSpreadTooLarge S.world with
    | error e w => exact Or.inl (Option.some_ne_none _)
    | ok tooLarge w =>
      refine Or.inr (potential_of_rank rfl ?_)
      simp [rank, hbranch]
  | firm =>
    right
    dsimp only
    split_ifs with hdisabled
    · refine potential_of_rank rfl ?_
      simp [rank, hbranch, poll, hdisabled]
    · cases hrecv : S.firmBlocks.recv with
      | none =>
        have hfinished : S.firmBlocks.finished = true := Channel.finished_eq_true.mpr
          ⟨Channel.recv_eq_none.mp hrecv, Or.inr (h.firmBounded.dropped hreturned.firm)⟩
        refine potential_of_rank rfl ?_
        simp [rank, hbranch, hfinished]
      | some received =>
        obtain ⟨block, c⟩ := received
        refine potential_of_waiting (waiting_receive hexecuting (.firm block) rfl rfl rfl ?_)
        rw [Channel.queue_of_recv hrecv, List.length_cons]
        dsimp only
        omega
  | soft =>
    right
    dsimp only
    split_ifs with hdisabled
    · refine potential_of_rank rfl ?_
      simp only [rank, hbranch, poll, hdisabled, Bool.and_true]
      split_ifs <;> omega
    · cases hrecv : S.softBlocks.recv with
      | none =>
        have hfinished : S.softBlocks.finished = true := Channel.finished_eq_true.mpr
          ⟨Channel.recv_eq_none.mp hrecv, Or.inr (h.softBounded.dropped hreturned.soft)⟩
        refine potential_of_rank rfl ?_
        simp only [rank, hbranch, hfinished, Bool.and_true]
        split_ifs <;> omega
      | some received =>
        obtain ⟨block, c⟩ := received
        refine potential_of_waiting (waiting_receive hexecuting (.soft block) rfl rfl rfl ?_)
        rw [Channel.queue_of_recv hrecv, List.length_cons]
        dsimp only
        omega
  | join =>
    dsimp only
    cases hjoin : S.joinNext first with
    | some joined =>
      obtain ⟨task, res⟩ := joined
      dsimp only
      cases hhandled : handleTaskExit task res (S.remove task) with
      | error e => exact Or.inl (Option.some_ne_none _)
      | ok S' =>
        refine Or.inr (potential_of_waiting ?_)
        have hwaiting := waiting_of_handled hhandled
        have hless := waiting_remove (joinNext_eq_some hjoin)
        show S'.waiting < S.waiting
        omega
    | none =>
      dsimp only
      rw [hreturned.noTasks hjoin, Bool.true_and]
      split_ifs with hdisabled
      · exact Or.inl (Option.some_ne_none _)
      · refine Or.inr (potential_of_rank rfl ?_)
        simp [rank, hbranch, poll, hdisabled]

/-- Once the readers have returned, every step of the executor ends the loop or is progress. -/
theorem Stopping.potential_lt (hr : Responsive has) (hs : Stoppable level s last stop)
    (hmapped : Mapped level s) (h : Stopping has level s last stop S) (first : ReaderKind)
    (hreturned : ReadersReturned S) (houtcome : S.outcome = none) :
    (S.executorStep first).outcome ≠ none ∨ (S.executorStep first).potential < S.potential := by
  unfold System.executorStep
  rw [if_neg (by simp [houtcome])]
  cases hexecuting : S.executing with
  | some d => exact Or.inr (h.potential_execute hr hs hmapped hexecuting houtcome)
  | none => exact h.potential_poll first hreturned hexecuting

/-- Once the readers have returned, the executor ends within as many steps as the potential. -/
theorem Stopping.ends (hr : Responsive has) (hs : Stoppable level s last stop)
    (hmapped : Mapped level s) (h : Stopping has level s last stop S) (hreturned : ReadersReturned S)
    (firsts : List ReaderKind) (hlength : S.potential < firsts.length)
    (hm : S.Along Succeeds (firsts.map .executor)) (hdrained : S.Along ExitsDrained (firsts.map .executor)) :
    (S.run (firsts.map .executor)).outcome ≠ none := by
  induction firsts generalizing S with
  | nil => simp at hlength
  | cons first firsts ih =>
    obtain ⟨hfirst, hrest⟩ := hm
    obtain ⟨hfirst', hrest'⟩ := hdrained
    rw [List.map_cons, run_cons]
    by_cases hdone : (S.executorStep first).outcome = none
    · have hlt : (S.executorStep first).potential < S.potential := by
        by_cases houtcome : S.outcome = none
        · exact (h.potential_lt hr hs hmapped first hreturned houtcome).resolve_left (absurd hdone)
        · rw [executorStep_of_outcome houtcome] at hdone
          exact absurd hdone houtcome
      refine ih (h.executorStep hr hs hmapped first hfirst hfirst') (hreturned.executorStep first) ?_
        hrest hrest'
      show (S.executorStep first).potential < firsts.length
      rw [List.length_cons] at hlength
      omega
    · exact outcome_ne_none_run hdone _

omit rollup in
theorem Stopping.start {r : ρ} (hs : Stoppable level s last stop)
    (hknown : Known has (World.start level s r)) (h : System.start level s r = .ok S) :
    Stopping has level s last stop S := by
  have hinOrder := InOrder.start h
  have hnumber := hs.number_le
  obtain ⟨size, -, rfl⟩ := start_eq_ok h
  refine ⟨hinOrder, hknown, fun _ => le_rfl, fun hfirm => ?_, fun _ => le_rfl, le_max_left _ _, ?_, ?_,
    fun _ hb => absurd hb List.not_mem_nil, fun _ hb => absurd hb List.not_mem_nil, fun _ hx => (nomatch hx),
    fun hc => (nomatch hc), fun hfirm hj => ?_, fun hsoft hj => ?_, fun _ ho => (nomatch ho)⟩
  · rw [if_pos hfirm] at hnumber
    exact hnumber
  · cases hsoft : level.isWithSoft with
    | true => exact ⟨fun _ hr => (nomatch hr), fun _ hb => absurd hb List.not_mem_nil, fun hlive => (nomatch hlive)⟩
    | false => exact ⟨fun _ hr => (nomatch hr), fun _ hb => absurd hb List.not_mem_nil, fun _ => rfl⟩
  · cases hfirm : level.isWithFirm with
    | true => exact ⟨fun _ hr => (nomatch hr), fun _ hb => absurd hb List.not_mem_nil, fun hlive => (nomatch hlive)⟩
    | false => exact ⟨fun _ hr => (nomatch hr), fun _ hb => absurd hb List.not_mem_nil, fun _ => rfl⟩
  · rw [hfirm] at hj
    cases hj
  · rw [hsoft] at hj
    cases hj

/-- The number that a commit level stops at: the firm one, where it tracks that. -/
def stopNumber (level : CommitLevel) (s : State) : ℕ :=
  if level.isWithFirm then s.firmNumber else s.softNumber

/-- Nothing above the stop height is forwarded or executed, and the event loop returns nothing but a
state at the end block number. -/
structure StopsAt (level : CommitLevel) (last stop : ℕ) (S : System ρ) : Prop where
  firmForwarded : ∀ block ∈ S.firmBlocks.sent, block.sequencerHeight ≤ stop
  softForwarded : ∀ block ∈ S.softBlocks.sent, block.height ≤ stop
  executed : ∀ x ∈ S.world.executions, x.block.height ≤ stop
  reached : ∀ o, S.outcome = some o → ∃ s, o = .ok s ∧ stopNumber level s = last

omit rollup in
theorem Stopping.stopsAt (h : Stopping has level s last stop S) (hs : Stoppable level s last stop) :
    StopsAt level last stop S where
  firmForwarded block hblock := (h.firmBounded.sent block (List.mem_append_left _ hblock)).2
  softForwarded block hblock := (h.softBounded.sent block (List.mem_append_left _ hblock)).2
  executed := h.executed
  reached o ho := by
    obtain ⟨rfl, hfirmJoined, hsoftJoined⟩ := h.outcome o ho
    refine ⟨_, rfl, ?_⟩
    unfold stopNumber
    cases hfirm : level.isWithFirm with
    | true =>
      rw [if_pos rfl]
      exact le_antisymm (h.firm_le hfirm) (h.firmJoined hfirm hfirmJoined)
    | false =>
      rw [if_neg Bool.false_ne_true]
      have hsoft : level.isWithSoft = true := by
        cases level with
        | softOnly => rfl
        | firmOnly => cases hfirm
        | softAndFirm => rfl
      have hnumber := hs.number_le
      rw [hfirm, if_neg Bool.false_ne_true] at hnumber
      have hle := h.soft_le
      have := h.softJoined hsoft hsoftJoined
      omega

end

end System

section

variable {ρ : Type} [codec : BlockCodec] [dataCodec : RollupDataCodec] [rollup : Rollup ρ]

omit codec dataCodec rollup in
theorem System.Mapped.of_session {session : ExecutionSession} {level : CommitLevel} {s : State}
    (hs : State.tryFromExecutionSession session level = .ok s) : System.Mapped level s := by
  obtain ⟨-, -, hcheck, -⟩ := State.tryFromExecutionSession_ok hs
  obtain ⟨hfirm, hsoft⟩ := checkHeights_eq_ok.mp hcheck
  exact ⟨hfirm, hsoft⟩

/-- A run of a session that can stop, with a rollup that answers and readers that succeed, stops at the
end block number, if every exit is seen with a drained channel: nothing above the stop height is
forwarded or executed, the event loop does not fail, and once the readers have returned it ends. -/
theorem stops_of_drained {session : ExecutionSession} {level : CommitLevel} {s : State}
    {last stop : ℕ} {has : ρ → ExecutedBlockMetadata → Prop} {r : ρ} {S : System ρ} {es : List Event}
    (hs : State.tryFromExecutionSession session level = .ok s) (hstop : Stoppable level s last stop)
    (hr : Responsive has) (hknown : Known has (World.start level s r))
    (hstart : System.start level s r = .ok S) (hsucceeds : S.Along System.Succeeds es)
    (hdrained : S.Along System.ExitsDrained es) :
    System.StopsAt level last stop (S.run es) ∧
      ((S.run es).ReadersReturned → ∀ firsts : List ReaderKind,
        (S.run es).potential < firsts.length →
        (S.run es).Along System.Succeeds (firsts.map .executor) →
        (S.run es).Along System.ExitsDrained (firsts.map .executor) →
        ((S.run es).run (firsts.map .executor)).outcome ≠ none) := by
  have hmapped := System.Mapped.of_session hs
  have h := (System.Stopping.start hstop hknown hstart).run hr hstop hmapped hsucceeds hdrained
  exact ⟨h.stopsAt hstop, fun hreturned firsts => h.ends hr hstop hmapped hreturned firsts⟩

end

/-! ### A soft reader that returns too early -/

namespace Node

/-- A node whose hashes are distinct, and differ from those that it will give out. -/
structure WellFormed (node : Node) : Prop where
  nodup : (node.blocks.map (·.hash)).Nodup
  fresh : ∀ b ∈ node.blocks, ∀ i, node.blocks.length ≤ i → b.hash ≠ toString i

/-- A block of a well-formed node. -/
def Has (node : Node) (b : ExecutedBlockMetadata) : Prop := b ∈ node.blocks ∧ node.WellFormed

theorem find_of_has {node : Node} {b : ExecutedBlockMetadata} (h : node.Has b) :
    node.find b.hash = some b := by
  obtain ⟨hmem, hnodup, -⟩ := h
  unfold find
  induction hblocks : node.blocks generalizing node with
  | nil =>
    rw [hblocks] at hmem
    cases hmem
  | cons c blocks ih =>
    rw [hblocks] at hmem hnodup
    rw [List.map_cons, List.nodup_cons] at hnodup
    by_cases hhash : c.hash = b.hash
    · rw [List.find?_cons_of_pos (by simpa using hhash)]
      obtain rfl | hmem := List.mem_cons.mp hmem
      · rfl
      · exact absurd (List.mem_map.mpr ⟨b, hmem, hhash.symm⟩) hnodup.1
    · rw [List.find?_cons_of_neg (by simpa using hhash)]
      have hmem : b ∈ blocks := by
        obtain rfl | hmem := List.mem_cons.mp hmem
        · exact absurd rfl hhash
        · exact hmem
      exact ih (show b ∈ ({ blocks := blocks } : Node).blocks from hmem) hnodup.2 rfl

/-- A node stays well-formed with the block that it executes. -/
theorem WellFormed.next {node : Node} (h : node.WellFormed) (request : ExecuteBlockRequest)
    (parent : ExecutedBlockMetadata) :
    ({ blocks := node.next request parent :: node.blocks } : Node).WellFormed where
  nodup := by
    rw [List.map_cons, List.nodup_cons]
    refine ⟨?_, h.nodup⟩
    intro hmem
    obtain ⟨b, hb, hhash⟩ := List.mem_map.mp hmem
    exact h.fresh b hb _ le_rfl hhash
  fresh b hb i hi := by
    rw [List.length_cons] at hi
    obtain rfl | hb := List.mem_cons.mp hb
    · intro heq
      have := natToString_injective heq
      omega
    · exact h.fresh b hb i (by omega)

theorem responsive : Responsive Has where
  executes request node parent hparent hhash _ := by
    have hfind : node.find request.parentHash = some parent := hhash ▸ find_of_has hparent
    have hwell := hparent.2.next request parent
    exact ⟨_, _, executeBlock_eq_ok.mpr ⟨parent, hfind, rfl, rfl⟩, rfl,
      ⟨List.mem_cons_self .., hwell⟩, fun b hb => ⟨List.mem_cons_of_mem _ hb.1, hwell⟩⟩
  gets node b hb := by
    have hsome : (node.blocks.find? fun block => block.number = b.number).isSome = true :=
      List.find?_isSome.mpr ⟨b, hb.1, by simp⟩
    obtain ⟨m, hm⟩ := Option.isSome_iff_exists.mp hsome
    refine ⟨m, node, ?_, by simpa using List.find?_some hm, ⟨List.mem_of_find?_eq_some hm, hb.2⟩,
      fun _ hb => hb⟩
    show (do
      let node ← reads id
      require (node.blocks.find? fun block => block.number = b.number) ["unknown block"] :
        Exec Report Node ExecutedBlockMetadata) node = .ok m node
    simp only [bind_eq_ok, reads_eq_ok, require_eq_ok]
    exact ⟨node, node, ⟨rfl, rfl⟩, hm, rfl⟩
  updates sessionId c node _ _ := ⟨node, rfl, fun _ hb => hb⟩
  echoes := faithful.echoes

end Node

section

open TestUtils
open scoped Astria.Sequencer.TestUtils

/-- A soft-and-firm session from block 0 to block 2, at heights 2 and 3, that looks one height ahead. -/
def twoBlockState : State := state (session 0 0 (Nat.le_refl 0) (some 2) 1)

/-- The rollup before the session, with a block called by its number. -/
def nodeAtZero : Node := { blocks := [rollupBlock 0] }

def twoBlockSystem : Except Report (System Node) :=
  System.start .softAndFirm twoBlockState nodeAtZero

/-- The soft reader forwards both blocks and returns, while the firm reader has none yet: after the
first block the executor is too far ahead to take the second one. -/
def softAhead : List Event :=
  [.soft .initialized, .firm .initialized, .soft (.fetched [softBlock 2 1 [], softBlock 3 2 []]),
    .soft .forward] ++ List.replicate 4 (.executor .firm) ++ [.soft .forward, .soft .latestHeight] ++
    List.replicate 4 (.executor .firm)

/-- The exit of the soft reader is taken for a failure, with its last block still in the channel. -/
theorem softReader_exitsTooEarly :
    ¬∀ (S : System Node) (es : List Event), twoBlockSystem = .ok S → S.Along System.Succeeds es →
      System.StopsAt .softAndFirm 2 3 (S.run es) := by
  intro hstops
  have hstart : twoBlockSystem = .ok _ := rfl
  have hreached := (hstops _ softAhead hstart (by decide +kernel)).reached
  obtain ⟨s, hs, -⟩ := hreached (.error ["task `soft sequencer reader` exited unexpectedly before " ++
    "stop height was reached", "task exited with success value"]) rfl
  cases hs

/-- The firm reader has both blocks before the soft reader returns, which sees its channel drained. -/
def firmFirst : List Event :=
  [.soft .initialized, .firm .initialized, .soft (.fetched [softBlock 2 1 [], softBlock 3 2 []]),
    .firm (.fetched [firmBlock 3 2 [], firmBlock 2 1 []]), .firm .forward, .firm .forward,
    .firm .latestHeight, .soft .forward] ++ List.replicate 10 (.executor .firm) ++
    [.soft .forward, .soft .latestHeight]

theorem twoBlockState_stoppable : Stoppable .softAndFirm twoBlockState 2 3 where
  end_eq := rfl
  maps := mapRollupNumberToSequencerHeight_eq_ok.mp (by decide)
  stop_pos := by decide
  stop_lt := by decide
  number_le := by decide
  soft_next := by decide

theorem nodeAtZero_has {b : ExecutedBlockMetadata} (h : b = rollupBlock 0) : nodeAtZero.Has b := by
  subst h
  refine ⟨List.mem_singleton.mpr rfl, ?_, ?_⟩
  · decide
  · intro b hb i hi hhash
    obtain rfl := List.mem_singleton.mp hb
    have hi : 1 ≤ i := hi
    have hzero := natToString_injective (m := 0) (n := i) hhash
    omega

/-- Both blocks executed, and the two exits handled, the session stops at block 2. -/
theorem stops_of_drained_twoBlocks : ∃ S : System Node, twoBlockSystem = .ok S ∧
    System.StopsAt .softAndFirm 2 3 (S.run firmFirst) ∧ (S.run firmFirst).outcome = none ∧
      ((S.run firmFirst).run (List.replicate 40 (.executor .firm))).outcome ≠ none := by
  have hstart : twoBlockSystem = .ok _ := rfl
  have hstate : State.tryFromExecutionSession (session 0 0 (Nat.le_refl 0) (some 2) 1) .softAndFirm =
    .ok twoBlockState := rfl
  have hknown : Known Node.Has (World.start .softAndFirm twoBlockState nodeAtZero) :=
    { firm := nodeAtZero_has rfl
      soft := nodeAtZero_has rfl
      pending := fun _ _ h => nomatch h
      between := fun n hlt hle => absurd (lt_of_lt_of_le hlt hle) (by decide) }
  have hsucceeds : ∀ S, twoBlockSystem = .ok S → S.Along System.Succeeds firmFirst := by
    rintro _ ⟨⟩
    decide +kernel
  obtain ⟨hstops, hends⟩ := stops_of_drained hstate twoBlockState_stoppable Node.responsive hknown
    hstart (hsucceeds _ hstart) (by decide +kernel)
  refine ⟨_, hstart, hstops, rfl, ?_⟩
  refine hends ⟨rfl, rfl⟩ (List.replicate 40 .firm) (by decide +kernel) (by decide +kernel)
    (by decide +kernel)

end

end Astria.Conductor
