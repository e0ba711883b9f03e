import Astria.Conductor.EventLoop

/-!
# Readers never skip

In every run of the readers and the executor, in any interleaving, the blocks arrive in the order in
which they are executed (`crates/astria-conductor/src/block_cache.rs`, `sequencer/mod.rs`,
`celestia/mod.rs`, `executor/mod.rs`).

The soft heights in flight, from the block in execution to the one enqueued at the reader, never run
ahead of the soft number: firm blocks may only move that number further.  The firm heights in flight
are exactly the ones after the firm number.

Results:
* `Flow.step`: a reader keeps the order of the blocks in flight;
* `InOrder.executorStep`: so does a step of the executor;
* `readers_neverSkip`: what is sent ascends, what is received is in order, and what is executed is
  every height from the first one on, once.
-/

namespace Astria.Conductor

open Astria.Core Astria.Lib Exec
open Astria.Sequencer (BlockCodec wrapErr)

/-! ## Heights -/

/-- The height after that of a rollup number, whether or not there is one. -/
def State.heightAfter (s : State) (number : ℕ) : ℕ :=
  s.executionSessionParameters.sequencerStartBlockHeight + number + 1 -
    s.executionSessionParameters.rollupStartBlockNumber

section

variable {s : State} {m n height : ℕ}

theorem State.MapsTo.heightAfter (h : s.MapsTo n height) : s.heightAfter n = height + 1 := by
  have := h.height_eq
  unfold State.heightAfter
  omega

theorem State.heightAfter_eq (h : s.nextExpectedHeight n = some height) :
    height = s.heightAfter n := by
  obtain ⟨k, hmaps, rfl, -⟩ := State.nextExpectedHeight_eq_some.mp h
  exact hmaps.heightAfter.symm

theorem State.heightAfter_succ (h : s.nextExpectedHeight n = some height) :
    s.heightAfter (n + 1) = s.heightAfter n + 1 := by
  obtain ⟨k, hmaps, -, -⟩ := State.nextExpectedHeight_eq_some.mp h
  have := hmaps.height_eq
  unfold State.heightAfter
  omega

theorem State.heightAfter_le (hle : m ≤ n) : s.heightAfter m ≤ s.heightAfter n := by
  unfold State.heightAfter
  omega

end

/-! ## The blocks in flight from a reader -/

section

variable {T : Type} [GetSequencerHeight T]

/-- The heights of the blocks in flight, those taken off the channel in front, are in order, and the
reader goes on with the next one; it may return at a `next` that is fine. -/
structure Flow (P : List ℕ → ℕ → Prop) (fine : ℕ → Prop) (front : List T) (rc : ReaderAndChannel T)
    (next : ℕ) : Prop where
  heights : P ((front ++ rc.2.queue ++ rc.1.enqueued).map getHeight) next
  running : ∀ r, rc.1 = .running r → r.blockCache.nextHeight = next
  initial : rc.1 = .initializing → front ++ rc.2.queue = []
  returned : rc.1 = .exited .success → fine next

variable {P : List ℕ → ℕ → Prop} {fine : ℕ → Prop} {front : List T} {rc rc' : ReaderAndChannel T}
  {config : ReaderConfig} {view : ReaderView} {e : ReaderEvent T} {n next : ℕ}

theorem Flow.initializing (hP : InFlight P n) {c : Channel T} (hqueue : c.queue = []) :
    Flow P fine [] (.initializing, c) n where
  heights := by
    show P (([] ++ c.queue ++ []).map getHeight) n
    rw [hqueue]
    exact hP.start
  running _ hr := nomatch hr
  initial _ := hqueue
  returned hr := nomatch hr

/-- The blocks in flight may move within the channel, and off it. -/
theorem Flow.congr {reader : Reader T} {c c' : Channel T} {front' : List T} {fine' : ℕ → Prop}
    (h : Flow P fine front (reader, c) next) (hqueue : front' ++ c'.queue = front ++ c.queue)
    (hfine : ∀ n, fine n → fine' n) : Flow P fine' front' (reader, c') next where
  heights := by
    show P ((front' ++ c'.queue ++ reader.enqueued).map getHeight) next
    rw [hqueue]
    exact h.heights
  running := h.running
  initial hr := hqueue.trans (h.initial hr)
  returned hr := hfine _ (h.returned hr)

theorem Flow.joined {c c' : Channel T} {res : TaskResult} {fine' : ℕ → Prop}
    (h : Flow P fine front (.exited res, c) next) (hqueue : c'.queue = c.queue) :
    Flow P fine' front (.joined, c') next where
  heights := by
    show P ((front ++ c'.queue ++ []).map getHeight) next
    rw [hqueue]
    exact h.heights
  running _ hr := nomatch hr
  initial hr := nomatch hr
  returned hr := nomatch hr

/-- A reader that returns loses the block that it has enqueued. -/
theorem Flow.exit (hP : InFlight P n) {reader : Reader T} {c : Channel T} {res : TaskResult}
    (h : Flow P fine front (reader, c) next) (hfine : res = .success → ∀ next, fine next) :
    ∃ next', Flow P fine front (exit res c) next' := by
  have hheights := h.heights
  have hdrop : ∃ next', P ((front ++ c.queue).map getHeight) next' := by
    cases hreader : reader with
    | initializing => exact ⟨next, by simpa [hreader, Reader.enqueued] using hheights⟩
    | exited res => exact ⟨next, by simpa [hreader, Reader.enqueued] using hheights⟩
    | joined => exact ⟨next, by simpa [hreader, Reader.enqueued] using hheights⟩
    | running r =>
      cases henqueued : r.enqueuedBlock with
      | none => exact ⟨next, by simpa [hreader, Reader.enqueued, henqueued] using hheights⟩
      | some block =>
        refine hP.dropLast _ (getHeight block) next ?_
        simpa [hreader, Reader.enqueued, henqueued] using hheights
  obtain ⟨next', hnext⟩ := hdrop
  refine ⟨next', ?_, fun r hr => (nomatch hr), fun hr => (nomatch hr), ?_⟩
  · show P ((front ++ c.queue ++ []).map getHeight) next'
    rw [List.append_nil]
    exact hnext
  · intro hres
    have hres : Reader.exited res = (Reader.exited .success : Reader T) := hres
    rw [Reader.exited.injEq] at hres
    exact hfine hres next'

/-- A reader keeps the blocks in flight in order. -/
theorem Flow.step (hP : InFlight P n)
    (hraise : config.followsState = true → ∀ height, view.nextExpectedHeight = some height →
      ∀ ks next, P ks next → P ks (max next height))
    (hstart : ∀ height, view.nextExpectedHeight = some height → P [] height)
    (hcancelled : view.cancelled = true → ∀ next, fine next)
    (hstop : ∀ stop next, view.stopHeight = some stop → stop < next → fine next)
    (h : Flow P fine front rc next) (hs : Reader.Stepped config view e rc rc') :
    ∃ next', Flow P fine front rc' next' := by
  cases hs with
  | idle => exact ⟨next, h⟩
  | @started c cache hnext hempty =>
    refine ⟨cache.nextHeight, ?_, ?_, fun hr => (nomatch hr), fun hr => (nomatch hr)⟩
    · have hinitial : front ++ c.queue = [] := h.initial rfl
      show P ((front ++ c.queue ++ []).map getHeight) cache.nextHeight
      rw [hinitial]
      exact hstart _ hnext
    · rintro r hr
      obtain rfl := Reader.running.inj hr
      rfl
  | @stopped r c stop hheight hlt henqueued =>
    refine ⟨next, ?_, fun r hr => (nomatch hr), fun hr => (nomatch hr), fun _ => ?_⟩
    · have hheights := h.heights
      simpa [Reader.enqueued, henqueued, Conductor.exit] using hheights
    · exact hstop stop next hheight (h.running r rfl ▸ hlt)
  | cancelled hlive hview => exact h.exit hP fun _ => hcancelled hview
  | failed hlive hres => exact h.exit hP fun heq => absurd heq hres
  | @cached r c cache hnext hblocks =>
    have hheights := h.heights
    have hrunning := h.running r rfl
    have hP' : P ((front ++ c.queue ++ r.enqueuedBlock.toList).map getHeight) cache.nextHeight := by
      obtain hsame | ⟨hfollows, height, hview, hmax⟩ := hnext
      · rw [hsame, hrunning]
        exact hheights
      · rw [hmax, hrunning]
        exact hraise hfollows height hview _ _ hheights
    refine ⟨cache.nextHeight, hP', ?_, fun hr => (nomatch hr), fun hr => (nomatch hr)⟩
    rintro r' hr
    obtain rfl := Reader.running.inj hr
    rfl
  | @forwarded r c c' block hbelow henqueued hblock hsent =>
    have hheights := h.heights
    have hheight : getHeight block = next := (r.blockCache.keyed _ _ hblock).trans (h.running r rfl)
    have hqueue := Channel.queue_of_trySend hsent
    refine ⟨next + 1, ?_, ?_, fun hr => (nomatch hr), fun hr => (nomatch hr)⟩
    · have hpush := hP.push _ _ hheights
      simpa [Reader.enqueued, henqueued, hqueue, hheight] using hpush
    · rintro r' hr
      obtain rfl := Reader.running.inj hr
      exact congrArg (· + 1) (h.running r rfl)
  | @enqueued r c block hbelow henqueued hblock =>
    have hheights := h.heights
    have hheight : getHeight block = next := (r.blockCache.keyed _ _ hblock).trans (h.running r rfl)
    refine ⟨next + 1, ?_, ?_, fun hr => (nomatch hr), fun hr => (nomatch hr)⟩
    · have hpush := hP.push _ _ hheights
      simpa [Reader.enqueued, henqueued, hheight] using hpush
    · rintro r' hr
      obtain rfl := Reader.running.inj hr
      exact congrArg (· + 1) (h.running r rfl)
  | @sent r c c' block henqueued hsent =>
    have hheights := h.heights
    have hqueue := Channel.queue_of_trySend hsent
    refine ⟨next, ?_, ?_, fun hr => (nomatch hr), fun hr => (nomatch hr)⟩
    · simpa [Reader.enqueued, henqueued, hqueue] using hheights
    · rintro r' hr
      obtain rfl := Reader.running.inj hr
      exact h.running r rfl

end

section

variable {T : Type} [GetSequencerHeight T] {rc rc' : ReaderAndChannel T} {config : ReaderConfig}
  {view : ReaderView} {e : ReaderEvent T}

/-- A reader receives nothing. -/
theorem Reader.Stepped.received_eq (hs : Reader.Stepped config view e rc rc') :
    rc'.2.received = rc.2.received := by
  have hsend {c c' : Channel T} {block : T} (h : c.trySend block = .ok c') :
      c'.received = c.received := by
    obtain ⟨-, -, rfl⟩ := Channel.trySend_eq_ok.mp h
    rfl
  cases hs with
  | idle => rfl
  | started => rfl
  | stopped => rfl
  | cancelled => rfl
  | failed => rfl
  | cached => rfl
  | forwarded _ _ _ hsent => exact hsend hsent
  | enqueued => rfl
  | sent _ hsent => exact hsend hsent

end

/-! ## What a block does to the numbers -/

section

variable {ρ : Type} [codec : BlockCodec] [dataCodec : RollupDataCodec] {w w' : World ρ}
  {level : CommitLevel} {s : State}

/-- A soft block is dropped, or moves the soft number by one. -/
theorem Delivered.soft_numbers {block : FilteredSequencerBlock} (hd : Delivered w (.soft block) w') :
    w'.state.firmNumber = w.state.firmNumber ∧
      ∃ expected, w.state.nextExpectedSoftSequencerHeight = some expected ∧
        (block.height < expected ∧ w'.state.softNumber = w.state.softNumber ∧
            w'.executions = w.executions ∨
          block.height = expected ∧ w'.state.softNumber = w.state.softNumber + 1 ∧
            ∃ x, x.block.height = expected ∧ w'.executions = w.executions ++ [x]) := by
  cases hd with
  | stale hheight hlt => exact ⟨rfl, _, hheight, Or.inl ⟨hlt, rfl, rfl⟩⟩
  | @softExecuted _ m c r hheight hnumber htracks =>
    have hfirm : c.firm = w.state.firm := htracks.firm_eq
    have hsoft : c.soft = m := htracks.soft_eq
    refine ⟨congrArg (·.number) hfirm, _, hheight, Or.inr ⟨rfl, ?_, _, rfl, rfl⟩⟩
    show c.soft.number = _
    rw [hsoft, hnumber]

/-- A firm block moves the firm number by one; it is executed, which sets the soft number to the firm
one, or leaves the soft number. -/
theorem Delivered.firm_numbers {block : ReconstructedBlock} (hd : Delivered w (.firm block) w')
    (hpending : ∀ n m, w.pending n = some m → m.number = n) :
    w.state.nextExpectedFirmSequencerHeight = some block.sequencerHeight ∧
      w'.state.firmNumber = w.state.firmNumber + 1 ∧
      (w'.state.softNumber = w.state.softNumber ∧ w'.executions = w.executions ∨
        w.frontier = w.state.firmNumber ∧ w'.state.softNumber = w.state.firmNumber + 1 ∧
          ∃ x, x.block.height = block.sequencerHeight ∧ w'.executions = w.executions ++ [x]) := by
  cases hd with
  | @firmExecuted _ soft m c r hfirm hsoft hshould hnumber htracks =>
    have hcfirm : c.firm = m := htracks.firm_eq
    have hcsoft : c.soft = m := htracks.soft_eq
    refine ⟨hfirm, ?_, Or.inr ⟨(firmNumber_eq_frontier hfirm hsoft hshould).symm, ?_, _, rfl, rfl⟩⟩
    · show c.firm.number = _
      rw [hcfirm, hnumber]
    · show c.soft.number = _
      rw [hcsoft, hnumber]
  | @firmConfirmed _ soft m c r hfirm hsoft hshould hm htracks =>
    have hcfirm : c.firm = m := htracks.firm_eq
    have hcsoft : c.soft = w.state.soft := htracks.soft_eq
    refine ⟨hfirm, ?_, Or.inl ⟨congrArg (·.number) hcsoft, rfl⟩⟩
    show c.firm.number = _
    rw [hcfirm]
    exact hpending _ _ hm
  | @firmFetched _ soft m c r hfirm hsoft hshould hm hnumber htracks =>
    have hcfirm : c.firm = m := htracks.firm_eq
    have hcsoft : c.soft = w.state.soft := htracks.soft_eq
    refine ⟨hfirm, ?_, Or.inl ⟨congrArg (·.number) hcsoft, rfl⟩⟩
    show c.firm.number = _
    rw [hcfirm, hnumber]

end

/-! ## The system -/

namespace System

variable {ρ : Type}

/-- The soft block in execution. -/
def softInHand (S : System ρ) : List FilteredSequencerBlock :=
  match S.executing with
  | some (.soft block) => [block]
  | _ => []

/-- The firm block in execution. -/
def firmInHand (S : System ρ) : List ReconstructedBlock :=
  match S.executing with
  | some (.firm block) => [block]
  | _ => []

/-- A reader may return if it was told to, or once its next height is above the stop height. -/
def Fine (s : State) (S : System ρ) (next : ℕ) : Prop :=
  S.readersCancelled = true ∨ ∃ stop, s.sequencerStopHeight = some stop ∧ stop < next

/-- What holds of a system while its event loop runs: the blocks in flight are in order. -/
structure InOrder (level : CommitLevel) (s : State) (S : System ρ) : Prop where
  executing : Executing level s S.world
  softFlow : level.isWithSoft = true → ∃ next,
    Flow (Follows (s.heightAfter S.world.state.softNumber)) (S.Fine s) S.softInHand
      (S.softReader, S.softBlocks) next
  firmFlow : level.isWithFirm = true → ∃ next,
    Flow (Consecutive (s.heightAfter S.world.state.firmNumber)) (S.Fine s) S.firmInHand
      (S.firmReader, S.firmBlocks) next
  softAbsent : level.isWithSoft = false →
    S.softReader = .joined ∧ S.softBlocks.queue = [] ∧ S.softInHand = []
  firmAbsent : level.isWithFirm = false →
    S.firmReader = .joined ∧ S.firmBlocks.queue = [] ∧ S.firmInHand = []

variable {level : CommitLevel} {s : State} {S S' : System ρ}

theorem start_eq_ok {r : ρ} (h : System.start level s r = .ok S) :
    ∃ size, softChannelSize level s = .ok size ∧ S =
      { world := World.start level s r
        executing := none
        firmReader := if level.isWithFirm then .initializing else .joined
        softReader := if level.isWithSoft then .initializing else .joined
        firmBlocks := Channel.create 16 level.isWithFirm
        softBlocks := Channel.create size level.isWithSoft
        readersCancelled := false
        select := Select.start
        outcome := none } := by
  unfold System.start at h
  split at h
  · cases h
  next size hsize => exact ⟨size, hsize, (Except.ok.inj h).symm⟩

theorem InOrder.start {r : ρ} (h : System.start level s r = .ok S) : InOrder level s S := by
  obtain ⟨size, -, rfl⟩ := start_eq_ok h
  refine ⟨Executing.start level s r, ?_, ?_, ?_, ?_⟩
  · intro hsoft
    simp only [hsoft, if_true]
    exact ⟨_, Flow.initializing (Follows.inFlight _) rfl⟩
  · intro hfirm
    simp only [hfirm, if_true]
    exact ⟨_, Flow.initializing (Consecutive.inFlight _) rfl⟩
  · intro hsoft
    exact ⟨by simp [hsoft], rfl, rfl⟩
  · intro hfirm
    exact ⟨by simp [hfirm], rfl, rfl⟩

/-- The stop height is that of the session. -/
theorem InOrder.stopHeight (h : InOrder level s S) :
    S.world.state.sequencerStopHeight = s.sequencerStopHeight := by
  rw [h.executing.session_eq]
  rfl

theorem InOrder.softStep (h : InOrder level s S) (e : ReaderEvent FilteredSequencerBlock) :
    InOrder level s (S.softStep e) where
  executing := h.executing
  firmFlow := h.firmFlow
  firmAbsent := h.firmAbsent
  softAbsent hsoft := by
    obtain ⟨hreader, hqueue, hhand⟩ := h.softAbsent hsoft
    unfold System.softStep
    rw [hreader]
    exact ⟨rfl, hqueue, hhand⟩
  softFlow hsoft := by
    obtain ⟨next, hflow⟩ := h.softFlow hsoft
    have hview (height : ℕ) (hheight : S.softView.nextExpectedHeight = some height) :
        height = s.heightAfter S.world.state.softNumber := by
      refine State.heightAfter_eq ?_
      rw [← h.executing.nextExpectedHeight_eq]
      exact hheight
    have hs : Reader.Stepped softReaderConfig S.softView e (S.softReader, S.softBlocks) _ :=
      Reader.step_cases _
    refine hflow.step (Follows.inFlight _) ?_ ?_ ?_ ?_ hs
    · intro _ height hheight ks next hks
      rw [hview height hheight]
      exact hks.raise le_rfl
    · intro height hheight
      rw [hview height hheight]
      exact (Follows.inFlight _).start
    · intro hcancelled next
      exact Or.inl hcancelled
    · intro stop next hstop hlt
      exact Or.inr ⟨stop, h.stopHeight ▸ hstop, hlt⟩

theorem InOrder.firmStep (h : InOrder level s S) (e : ReaderEvent ReconstructedBlock) :
    InOrder level s (S.firmStep e) where
  executing := h.executing
  softFlow := h.softFlow
  softAbsent := h.softAbsent
  firmAbsent hfirm := by
    obtain ⟨hreader, hqueue, hhand⟩ := h.firmAbsent hfirm
    unfold System.firmStep
    rw [hreader]
    exact ⟨rfl, hqueue, hhand⟩
  firmFlow hfirm := by
    obtain ⟨next, hflow⟩ := h.firmFlow hfirm
    have hs : Reader.Stepped firmReaderConfig S.firmView e (S.firmReader, S.firmBlocks) _ :=
      Reader.step_cases _
    refine hflow.step (Consecutive.inFlight _) (fun hfollows => absurd hfollows (by decide)) ?_ ?_ ?_ hs
    · intro height hheight
      have hheight : S.world.state.nextExpectedHeight S.world.state.firmNumber = some height := hheight
      rw [h.executing.nextExpectedHeight_eq] at hheight
      rw [State.heightAfter_eq hheight]
      exact (Consecutive.inFlight _).start
    · intro hcancelled next
      exact Or.inl hcancelled
    · intro stop next hstop hlt
      exact Or.inr ⟨stop, h.stopHeight ▸ hstop, hlt⟩

theorem exitOf_firm {res : TaskResult} (h : S.exitOf .firm = some res) :
    S.firmReader = .exited res := by
  unfold exitOf at h
  cases hreader : S.firmReader <;> simp_all

theorem exitOf_soft {res : TaskResult} (h : S.exitOf .soft = some res) :
    S.softReader = .exited res := by
  unfold exitOf at h
  cases hreader : S.softReader <;> simp_all

section

variable [codec : BlockCodec] [dataCodec : RollupDataCodec] [rollup : Rollup ρ]

omit rollup in
/-- Executing a soft block takes it off the blocks in flight. -/
theorem InOrder.soft_delivered (h : InOrder level s S) {block : FilteredSequencerBlock} {w : World ρ}
    (hexecuting : S.executing = some (.soft block)) (hd : Delivered S.world (.soft block) w) :
    InOrder level s { S with world := w, executing := none, select := Select.start } := by
  have hhand : S.softInHand = [block] := by rw [softInHand, hexecuting]
  have hfirmHand : S.firmInHand = [] := by rw [firmInHand, hexecuting]
  have hlevel : level.isWithSoft = true := by
    by_contra hsoft
    obtain ⟨-, -, hnone⟩ := h.softAbsent (by simpa using hsoft)
    rw [hhand] at hnone
    cases hnone
  obtain ⟨hfirm, expected, hexpected, hnumbers⟩ := hd.soft_numbers
  have hexpected : S.world.state.nextExpectedHeight S.world.state.softNumber = some expected := hexpected
  rw [h.executing.nextExpectedHeight_eq] at hexpected
  have hnext := State.heightAfter_eq hexpected
  have hadmitted : (Delivery.soft block).Admitted level := hlevel
  refine ⟨h.executing.delivered hadmitted hd, fun _ => ?_, fun hlevel => ?_, fun hsoft => ?_,
    fun hfirm => ?_⟩
  · obtain ⟨next, hflow⟩ := h.softFlow hlevel
    have hheights : Follows (s.heightAfter S.world.state.softNumber)
        (getHeight block :: (S.softBlocks.queue ++ S.softReader.enqueued).map getHeight) next := by
      have hheights := hflow.heights
      rw [hhand] at hheights
      simpa using hheights
    obtain ⟨hle, hrest⟩ := hheights.take
    have hheight : getHeight block = block.height := rfl
    have hcounter : max (s.heightAfter S.world.state.softNumber) (getHeight block + 1) =
        s.heightAfter w.state.softNumber := by
      obtain ⟨hlt, hsame, -⟩ | ⟨heq, hsucc, -⟩ := hnumbers
      · rw [hsame]
        omega
      · rw [hsucc, State.heightAfter_succ hexpected]
        omega
    rw [hcounter] at hrest
    refine ⟨next, ?_, hflow.running, fun hr => ?_, hflow.returned⟩
    · show Follows (s.heightAfter w.state.softNumber)
        (([] ++ S.softBlocks.queue ++ S.softReader.enqueued).map getHeight) next
      rw [List.nil_append]
      exact hrest
    · have hinitial := hflow.initial hr
      rw [hhand] at hinitial
      cases hinitial
  · obtain ⟨next, hflow⟩ := h.firmFlow hlevel
    rw [hfirmHand] at hflow
    refine ⟨next, ?_⟩
    show Flow (Consecutive (s.heightAfter w.state.firmNumber)) _ [] (S.firmReader, S.firmBlocks) next
    rw [hfirm]
    exact hflow
  · rw [hlevel] at hsoft
    cases hsoft
  · obtain ⟨hreader, hqueue, -⟩ := h.firmAbsent hfirm
    exact ⟨hreader, hqueue, rfl⟩

omit rollup in
/-- Executing a firm block takes it off the blocks in flight, and may move the soft number. -/
theorem InOrder.firm_delivered (h : InOrder level s S) {block : ReconstructedBlock} {w : World ρ}
    (hexecuting : S.executing = some (.firm block)) (hd : Delivered S.world (.firm block) w) :
    InOrder level s { S with world := w, executing := none, select := Select.start } := by
  have hhand : S.firmInHand = [block] := by rw [firmInHand, hexecuting]
  have hsoftHand : S.softInHand = [] := by rw [softInHand, hexecuting]
  have hlevel : level.isWithFirm = true := by
    by_contra hfirm
    obtain ⟨-, -, hnone⟩ := h.firmAbsent (by simpa using hfirm)
    rw [hhand] at hnone
    cases hnone
  obtain ⟨hexpected, hnumber, -⟩ := hd.firm_numbers h.executing.pending_number
  have hexpected : S.world.state.nextExpectedHeight S.world.state.firmNumber =
    some block.sequencerHeight := hexpected
  rw [h.executing.nextExpectedHeight_eq] at hexpected
  have hadmitted : (Delivery.firm block).Admitted level := hlevel
  refine ⟨h.executing.delivered hadmitted hd, fun hsoft => ?_, fun _ => ?_, fun hsoft => ?_,
    fun hfirm => ?_⟩
  · have hne : level ≠ .firmOnly := by
      rintro rfl
      cases hsoft
    obtain ⟨next, hflow⟩ := h.softFlow hsoft
    rw [hsoftHand] at hflow
    exact ⟨next, hflow.heights.mono (State.heightAfter_le (hd.softNumber_le h.executing hne)),
      hflow.running, hflow.initial, hflow.returned⟩
  · obtain ⟨next, hflow⟩ := h.firmFlow hlevel
    have hheights : Consecutive (s.heightAfter S.world.state.firmNumber)
        (getHeight block :: (S.firmBlocks.queue ++ S.firmReader.enqueued).map getHeight) next := by
      have hheights := hflow.heights
      rw [hhand] at hheights
      simpa using hheights
    obtain ⟨-, hrest⟩ := hheights.take
    rw [← State.heightAfter_succ hexpected, ← hnumber] at hrest
    refine ⟨next, ?_, hflow.running, fun hr => ?_, hflow.returned⟩
    · show Consecutive (s.heightAfter w.state.firmNumber)
        (([] ++ S.firmBlocks.queue ++ S.firmReader.enqueued).map getHeight) next
      rw [List.nil_append]
      exact hrest
    · have hinitial := hflow.initial hr
      rw [hhand] at hinitial
      cases hinitial
  · obtain ⟨hreader, hqueue, -⟩ := h.softAbsent hsoft
    exact ⟨hreader, hqueue, rfl⟩
  · rw [hlevel] at hfirm
    cases hfirm

/-- While the event loop runs, a step of the executor keeps the blocks in flight in order. -/
theorem InOrder.executorStep (he : Echoes ρ) (h : InOrder level s S) {first : ReaderKind}
    (hs : ExecutorStepped first S S') (houtcome : S'.outcome = none) : InOrder level s S' := by
  cases hs with
  | @delivered d w hexecuting hdeliver =>
    cases d with
    | soft block => exact h.soft_delivered hexecuting (deliver_cases he hdeliver)
    | firm block => exact h.firm_delivered hexecuting (deliver_cases he hdeliver)
  | deliveryFailed => cases houtcome
  | panicked => cases houtcome
  | polled select hexecuting =>
    exact ⟨h.executing, h.softFlow, h.firmFlow, h.softAbsent, h.firmAbsent⟩
  | @receivedFirm block c hexecuting hrecv =>
    have hqueue := Channel.queue_of_recv hrecv
    have hfirmHand : S.firmInHand = [] := by rw [firmInHand, hexecuting]
    have hsoftHand : S.softInHand = [] := by rw [softInHand, hexecuting]
    refine ⟨h.executing, fun hsoft => ?_, fun hfirm => ?_, fun hsoft => ?_, fun hfirm => ?_⟩
    · obtain ⟨next, hflow⟩ := h.softFlow hsoft
      rw [hsoftHand] at hflow
      exact ⟨next, hflow⟩
    · obtain ⟨next, hflow⟩ := h.firmFlow hfirm
      rw [hfirmHand] at hflow
      refine ⟨next, hflow.congr ?_ fun _ hn => hn⟩
      rw [hqueue]
      rfl
    · obtain ⟨hreader, hqueue, -⟩ := h.softAbsent hsoft
      exact ⟨hreader, hqueue, rfl⟩
    · obtain ⟨-, hempty, -⟩ := h.firmAbsent hfirm
      rw [hempty] at hqueue
      cases hqueue
  | @receivedSoft block c hexecuting hrecv =>
    have hqueue := Channel.queue_of_recv hrecv
    have hfirmHand : S.firmInHand = [] := by rw [firmInHand, hexecuting]
    have hsoftHand : S.softInHand = [] := by rw [softInHand, hexecuting]
    refine ⟨h.executing, fun hsoft => ?_, fun hfirm => ?_, fun hsoft => ?_, fun hfirm => ?_⟩
    · obtain ⟨next, hflow⟩ := h.softFlow hsoft
      rw [hsoftHand] at hflow
      refine ⟨next, hflow.congr ?_ fun _ hn => hn⟩
      rw [hqueue]
      rfl
    · obtain ⟨next, hflow⟩ := h.firmFlow hfirm
      rw [hfirmHand] at hflow
      exact ⟨next, hflow⟩
    · obtain ⟨-, hempty, -⟩ := h.softAbsent hsoft
      rw [hempty] at hqueue
      cases hqueue
    · obtain ⟨hreader, hqueue, -⟩ := h.firmAbsent hfirm
      exact ⟨hreader, hqueue, rfl⟩
  | @joinedFirm res hexecuting hbranch hjoins hlevel hreached =>
    have hreader := exitOf_firm (joinNext_eq_some hjoins)
    refine ⟨h.executing, fun hsoft => ?_, fun hfirm => ?_, fun hsoft => ?_, fun hfirm => ?_⟩
    · obtain ⟨next, hflow⟩ := h.softFlow hsoft
      exact ⟨next, hflow.congr rfl fun _ _ => Or.inl rfl⟩
    · obtain ⟨next, hflow⟩ := h.firmFlow hfirm
      rw [hreader] at hflow
      exact ⟨next, hflow.joined rfl⟩
    · exact h.softAbsent hsoft
    · obtain ⟨-, hqueue, hhand⟩ := h.firmAbsent hfirm
      exact ⟨rfl, hqueue, hhand⟩
  | @joinedSoft res hexecuting hbranch hjoins hlevel hreached =>
    have hreader := exitOf_soft (joinNext_eq_some hjoins)
    refine ⟨h.executing, fun hsoft => ?_, h.firmFlow, fun hsoft => ?_, h.firmAbsent⟩
    · obtain ⟨next, hflow⟩ := h.softFlow hsoft
      rw [hreader] at hflow
      exact ⟨next, hflow.joined rfl⟩
    · obtain ⟨-, hqueue, hhand⟩ := h.softAbsent hsoft
      exact ⟨rfl, hqueue, hhand⟩
  | joinFailed => cases houtcome
  | ended => cases houtcome

end

end System

/-! ## The errors of blocks out of order -/

/-- The error of `execute_soft` for a block above the expected height. -/
def softOutOfOrder (expected actual : ℕ) : Report :=
  [s!"block received was out-of-order; was a block skipped? expected: {expected}, actual: {actual}"]

/-- The error of `execute_firm` for a block that is not at the expected height. -/
def firmOutOfOrder (expected actual : ℕ) : Report :=
  [s!"expected block at sequencer height {expected}, but got {actual}"]

theorem softOutOfOrder_ne_panic (expected actual : ℕ) :
    softOutOfOrder expected actual ≠ System.unmappableStatePanic := by
  intro h
  have hhead := congrArg (fun text => text.toList.head?) (List.cons.inj h).1
  simp [String.toList_append, toString] at hhead

theorem firmOutOfOrder_ne_panic (expected actual : ℕ) :
    firmOutOfOrder expected actual ≠ System.unmappableStatePanic := by
  intro h
  have hhead := congrArg (fun text => text.toList.head?) (List.cons.inj h).1
  simp [String.toList_append, toString] at hhead

section

variable {ρ : Type} [codec : BlockCodec] [dataCodec : RollupDataCodec] [rollup : Rollup ρ]
  {w w' : World ρ} {e : Report}

omit codec dataCodec rollup in
theorem expectSoftHeight_error (h : expectSoftHeight w = .error e w') :
    e = System.unmappableStatePanic := by
  simp only [expectSoftHeight, bind_eq_error, reads_eq_error, false_or, reads_eq_ok,
    require_eq_error] at h
  obtain ⟨_, w, ⟨rfl, rfl⟩, -, rfl, -⟩ := h
  rfl

omit codec dataCodec rollup in
theorem expectFirmHeight_error (h : expectFirmHeight w = .error e w') :
    e = System.unmappableStatePanic := by
  simp only [expectFirmHeight, bind_eq_error, reads_eq_error, false_or, reads_eq_ok,
    require_eq_error] at h
  obtain ⟨_, w, ⟨rfl, rfl⟩, -, rfl, -⟩ := h
  rfl

/-- Errors that are wrapped at least so often. -/
def Wrapped (depth : ℕ) (e : Report) : Prop := depth ≤ e.length

omit codec dataCodec rollup in
theorem fails_wrapErr {α : Type} {depth : ℕ} {x : ExecutorM ρ α} {message : String}
    (h : Fails (Wrapped depth) x) : Fails (Wrapped (depth + 1)) (wrapErr message x) :=
  h.mapErr fun _ he => Nat.succ_le_succ he

omit codec dataCodec rollup in
theorem fails_wrapped_zero {α : Type} (x : ExecutorM ρ α) : Fails (Wrapped 0) x :=
  fun _ _ _ _ => Nat.zero_le _

omit codec in
theorem fails_executeChecked (kind : ExecutionKind) (block : ExecutableBlock) :
    Fails (Wrapped 2) (executeChecked kind block : ExecutorM ρ ExecutedBlockMetadata) := by
  have hexecute (id hash : String) :
      Fails (Wrapped 1) (executeBlock id hash block : ExecutorM ρ ExecutedBlockMetadata) :=
    (fails_wrapErr (fails_wrapped_zero _)).bind fun _ => (fails_writes _).bind fun _ => fails_pure _
  have hcontract (executed : ExecutedBlockMetadata) : Fails (Wrapped 1)
      (tryReads fun w => doesBlockResponseFulfillContract kind executed w.state :
        ExecutorM ρ Unit) := by
    refine fails_tryReads fun w e he => ?_
    unfold doesBlockResponseFulfillContract at he
    dsimp only at he
    split at he
    · rw [← Except.error.inj he]
      exact le_rfl
    · split_ifs at he
      rw [← Except.error.inj he]
      exact le_rfl
  exact (fails_reads _).bind fun _ => (fails_wrapErr (hexecute _ _)).bind fun executed =>
    (fails_wrapErr (hcontract executed)).bind fun _ => fails_pure _

omit codec dataCodec in
theorem fails_updateCommitmentState (update : Update) :
    Fails (Wrapped 1) (updateCommitmentState update : ExecutorM ρ Unit) :=
  (fails_reads _).bind fun _ => (fails_wrapErr (fails_wrapped_zero _)).bind fun _ =>
    (fails_wrapErr (fails_wrapped_zero _)).bind fun _ => fails_wrapErr (fails_wrapped_zero _)

omit codec dataCodec rollup in
theorem fails_rollupNumber (height : ℕ) :
    Fails (Wrapped 2) (rollupNumber height : ExecutorM ρ ℕ) := by
  refine fails_wrapErr (fails_tryReads fun w e he => ?_)
  unfold tryMapSequencerHeightToRollupHeight at he
  split at he
  · rw [← Except.error.inj he]
    exact le_rfl
  · split at he
    · rw [← Except.error.inj he]
      exact le_rfl
    · cases he

omit codec dataCodec in
theorem fails_confirmPending (number celestiaHeight : ℕ) :
    Fails (Wrapped 2) (confirmPending number celestiaHeight : ExecutorM ρ Update) := by
  have hget : Fails (Wrapped 1)
      (getExecutedBlockMetadataWithRetry number : ExecutorM ρ ExecutedBlockMetadata) :=
    (fails_wrapErr (fails_wrapped_zero _)).bind fun _ =>
      (fails_ensure (show Wrapped 1 [_] from le_rfl)).bind fun _ => fails_pure _
  refine (fails_reads _).bind fun pending => ?_
  cases pending with
  | some block => exact (fails_writes _).bind fun _ => fails_pure _
  | none => exact (fails_wrapErr hget).bind fun _ => fails_pure _

/-- A soft block that fails is above the expected height, or the error is another one. -/
theorem executeSoft_outOfOrder {block : FilteredSequencerBlock} (h : executeSoft block w = .error e w') :
    (∃ expected, w.state.nextExpectedSoftSequencerHeight = some expected ∧ expected < block.height) ∨
      e = System.unmappableStatePanic ∨ Wrapped 2 e := by
  simp only [executeSoft, bind_eq_error, reads_eq_error, false_or, reads_eq_ok] at h
  obtain ⟨_, w, ⟨rfl, rfl⟩, hpanic | ⟨expected, _, hexpected, h⟩⟩ := h
  · exact Or.inr (Or.inl (expectSoftHeight_error hpanic))
  obtain ⟨hexpected, rfl⟩ := expectSoftHeight_eq_ok.mp hexpected
  split_ifs at h with hlt hgt
  · exact absurd (pure_eq_error.mp h) id
  · exact Or.inl ⟨expected, hexpected, hgt⟩
  · refine Or.inr (Or.inr ?_)
    exact ((fails_rollupNumber _).bind fun _ => (fails_executeChecked _ _).bind fun _ =>
      (fails_wrapErr (fails_updateCommitmentState _)).bind fun _ => fails_writes _) _ _ _ h

theorem executeFirm_outOfOrder {block : ReconstructedBlock} (h : executeFirm block w = .error e w') :
    (∃ expected, w.state.nextExpectedFirmSequencerHeight = some expected ∧
        block.sequencerHeight ≠ expected) ∨
      e = System.unmappableStatePanic ∨ Wrapped 2 e := by
  simp only [executeFirm, bind_eq_error, ensure_eq_error, ensure_eq_ok] at h
  obtain hpanic | ⟨expected, _, hexpected, ⟨hne, -, -⟩ | ⟨_, _, ⟨-, rfl⟩, h⟩⟩ := h
  · exact Or.inr (Or.inl (expectFirmHeight_error hpanic))
  · exact Or.inl ⟨expected, (expectFirmHeight_eq_ok.mp hexpected).1, hne⟩
  obtain hnumber | ⟨n, _, -, hupdate | ⟨update, _, -, hfail⟩⟩ := h
  · exact Or.inr (Or.inr (fails_rollupNumber _ _ _ _ hnumber))
  · right
    simp only [firmUpdate, bind_eq_error, reads_eq_error, false_or, reads_eq_ok] at hupdate
    obtain hpanic | ⟨_, _, -, hpanic | ⟨_, _, -, _, _, -, hbranch⟩⟩ := hupdate
    · exact Or.inl (expectFirmHeight_error hpanic)
    · exact Or.inl (expectSoftHeight_error hpanic)
    · right
      split_ifs at hbranch
      · exact ((fails_executeChecked _ _).bind fun _ => fails_pure _) _ _ _ hbranch
      · exact fails_confirmPending _ _ _ _ _ hbranch
  · exact Or.inr (Or.inr (fails_wrapErr (fails_updateCommitmentState _) _ _ _ hfail))

end

/-! ## Every run -/

/-- An error that a block out of order makes the event loop return. -/
def OutOfOrder (e : Report) : Prop :=
  (∃ expected actual, e = "failed executing soft block" :: softOutOfOrder expected actual) ∨
    ∃ expected actual, e = "failed executing firm block" :: firmOutOfOrder expected actual

theorem OutOfOrder.length_eq {e : Report} (h : OutOfOrder e) : e.length = 2 := by
  obtain ⟨_, _, rfl⟩ | ⟨_, _, rfl⟩ := h <;> rfl

namespace System

variable {ρ : Type} {level : CommitLevel} {s : State} {S S' : System ρ}

/-- No task exit is reported as a block out of order. -/
theorem handleTaskExit_not_outOfOrder {task : ReaderKind} {res : TaskResult} {e : Report}
    (h : handleTaskExit task res S = .error e) : ¬OutOfOrder e := by
  have hcontext (task : ReaderKind) (hasEnd : Bool) (res : TaskResult) :
      ¬OutOfOrder (exitedUnexpectedly task hasEnd res) := by
    cases task <;> cases hasEnd <;> cases res <;>
      (rintro (⟨_, _, he⟩ | ⟨_, _, he⟩) <;> exact absurd (List.cons.inj he).1 (by decide))
  have hnever (task : ReaderKind) (level : CommitLevel) : ¬OutOfOrder (neverRan task level) :=
    fun he => absurd he.length_eq (show (1 : ℕ) ≠ 2 by decide)
  cases task <;> simp only [handleTaskExit] at h <;> split_ifs at h
  all_goals
    obtain rfl := Except.error.inj h
  · exact hcontext _ _ _
  · exact hnever _ _
  · exact hcontext _ _ _
  · exact hnever _ _

/-- A soft block in execution is not above the expected height. -/
theorem InOrder.soft_le (h : InOrder level s S) {block : FilteredSequencerBlock} {expected : ℕ}
    (hexecuting : S.executing = some (.soft block))
    (hexpected : S.world.state.nextExpectedSoftSequencerHeight = some expected) :
    block.height ≤ expected := by
  have hhand : S.softInHand = [block] := by rw [softInHand, hexecuting]
  have hexpected : S.world.state.nextExpectedHeight S.world.state.softNumber = some expected := hexpected
  rw [h.executing.nextExpectedHeight_eq] at hexpected
  by_cases hlevel : level.isWithSoft
  · obtain ⟨next, hflow⟩ := h.softFlow hlevel
    have hheights := hflow.heights
    rw [hhand] at hheights
    rw [State.heightAfter_eq hexpected]
    exact hheights.take.1
  · obtain ⟨-, -, hnone⟩ := h.softAbsent (by simpa using hlevel)
    rw [hhand] at hnone
    cases hnone

/-- A firm block in execution is at the expected height. -/
theorem InOrder.firm_eq (h : InOrder level s S) {block : ReconstructedBlock} {expected : ℕ}
    (hexecuting : S.executing = some (.firm block))
    (hexpected : S.world.state.nextExpectedFirmSequencerHeight = some expected) :
    block.sequencerHeight = expected := by
  have hhand : S.firmInHand = [block] := by rw [firmInHand, hexecuting]
  have hexpected : S.world.state.nextExpectedHeight S.world.state.firmNumber = some expected := hexpected
  rw [h.executing.nextExpectedHeight_eq] at hexpected
  by_cases hlevel : level.isWithFirm
  · obtain ⟨next, hflow⟩ := h.firmFlow hlevel
    have hheights := hflow.heights
    rw [hhand] at hheights
    rw [State.heightAfter_eq hexpected]
    exact hheights.take.1
  · obtain ⟨-, -, hnone⟩ := h.firmAbsent (by simpa using hlevel)
    rw [hhand] at hnone
    cases hnone

section

variable [codec : BlockCodec] [dataCodec : RollupDataCodec] [rollup : Rollup ρ]

/-- A block in order does not fail as one out of order. -/
theorem InOrder.not_outOfOrder (h : InOrder level s S) {d : Delivery} {e : Report} {w : World ρ}
    (hexecuting : S.executing = some d) (hd : deliver d S.world = .error e w) : ¬OutOfOrder e := by
  cases d with
  | soft block =>
    obtain ⟨e', he', rfl⟩ := mapErr_eq_error.mp hd
    rintro (⟨expected, actual, he⟩ | ⟨_, _, he⟩)
    · obtain rfl := (List.cons.inj he).2
      obtain ⟨k, hk, hlt⟩ | hpanic | hwrapped := executeSoft_outOfOrder he'
      · have := h.soft_le hexecuting hk
        omega
      · exact softOutOfOrder_ne_panic _ _ hpanic
      · exact absurd hwrapped (show ¬2 ≤ 1 by decide)
    · exact absurd (List.cons.inj he).1 (by decide)
  | firm block =>
    obtain ⟨e', he', rfl⟩ := mapErr_eq_error.mp hd
    rintro (⟨_, _, he⟩ | ⟨expected, actual, he⟩)
    · exact absurd (List.cons.inj he).1 (by decide)
    · obtain rfl := (List.cons.inj he).2
      obtain ⟨k, hk, hne⟩ | hpanic | hwrapped := executeFirm_outOfOrder he'
      · exact hne (h.firm_eq hexecuting hk)
      · exact firmOutOfOrder_ne_panic _ _ hpanic
      · exact absurd hwrapped (show ¬2 ≤ 1 by decide)

/-- The executed heights of a session with soft blocks: every height from a first one on. -/
def ExecutedInOrder (s : State) (S : System ρ) : Prop :=
  ∃ count, S.world.executions.map (·.block.height) = List.range' (s.heightAfter s.softNumber) count ∧
    (S.outcome = none → s.heightAfter S.world.state.softNumber = s.heightAfter s.softNumber + count)

/-- A successful block executes nothing, or the next height. -/
theorem InOrder.executes (he : Echoes ρ) (h : InOrder level s S) (hsoft : level.isWithSoft = true)
    {d : Delivery} {w : World ρ} (hd : deliver d S.world = .ok () w) :
    w.executions = S.world.executions ∧ w.state.softNumber = S.world.state.softNumber ∨
      s.heightAfter w.state.softNumber = s.heightAfter S.world.state.softNumber + 1 ∧
        ∃ x, x.block.height = s.heightAfter S.world.state.softNumber ∧
          w.executions = S.world.executions ++ [x] := by
  have hd := deliver_cases he hd
  cases d with
  | soft block =>
    obtain ⟨-, expected, hexpected, ⟨-, hsame, hexecutions⟩ | ⟨-, hsucc, x, hx, hexecutions⟩⟩ :=
      hd.soft_numbers
    · exact Or.inl ⟨hexecutions, hsame⟩
    · have hexpected : S.world.state.nextExpectedHeight S.world.state.softNumber = some expected :=
        hexpected
      rw [h.executing.nextExpectedHeight_eq] at hexpected
      refine Or.inr ⟨?_, x, ?_, hexecutions⟩
      · rw [hsucc, State.heightAfter_succ hexpected]
      · rw [hx, State.heightAfter_eq hexpected]
  | firm block =>
    obtain ⟨hexpected, -, ⟨hsame, hexecutions⟩ | ⟨hfrontier, hsucc, x, hx, hexecutions⟩⟩ :=
      hd.firm_numbers h.executing.pending_number
    · exact Or.inl ⟨hexecutions, hsame⟩
    · have hexpected : S.world.state.nextExpectedHeight S.world.state.firmNumber =
        some block.sequencerHeight := hexpected
      rw [h.executing.nextExpectedHeight_eq] at hexpected
      have hne : S.world.commitLevel ≠ .firmOnly := by
        rw [h.executing.level_eq]
        rintro rfl
        cases hsoft
      have hnumber : S.world.state.softNumber = S.world.state.firmNumber := by
        rw [← hfrontier]
        exact (if_neg hne).symm
      refine Or.inr ⟨?_, x, ?_, hexecutions⟩
      · rw [hsucc, hnumber, State.heightAfter_succ hexpected]
      · rw [hx, hnumber, State.heightAfter_eq hexpected]

/-- A failed block executes nothing, or the next height. -/
theorem InOrder.executes_error (h : InOrder level s S) (hsoft : level.isWithSoft = true)
    {d : Delivery} {e : Report} {w : World ρ} (hexecuting : S.executing = some d)
    (hd : deliver d S.world = .error e w) :
    w.executions = S.world.executions ∨
      ∃ x, x.block.height = s.heightAfter S.world.state.softNumber ∧
        w.executions = S.world.executions ++ [x] := by
  have hadmitted : d.Admitted level := by
    cases d with
    | soft block => exact hsoft
    | firm block =>
      show level.isWithFirm = true
      by_contra hfirm
      obtain ⟨-, -, hnone⟩ := h.firmAbsent (by simpa using hfirm)
      rw [firmInHand, hexecuting] at hnone
      cases hnone
  obtain ⟨-, hsame | ⟨x, hx, hnext⟩⟩ := deliver_error h.executing hadmitted hd
  · exact Or.inl hsame
  · have hne : S.world.commitLevel ≠ .firmOnly := by
      rw [h.executing.level_eq]
      rintro rfl
      cases hsoft
    have hfrontier : S.world.frontier = S.world.state.softNumber := if_neg hne
    rw [hfrontier, h.executing.nextExpectedHeight_eq] at hnext
    exact Or.inr ⟨x, State.heightAfter_eq hnext, hx⟩

end

/-- What holds of every system that a session with soft blocks reaches. -/
structure Reached (level : CommitLevel) (s : State) (S : System ρ) : Prop where
  inOrder : S.outcome = none → S.InOrder level s
  ascends : ∃ next, Flow Ascends (fun _ => True) S.softBlocks.received (S.softReader, S.softBlocks) next
  executed : ExecutedInOrder s S
  errors : ∀ e, S.outcome = some (.error e) → ¬OutOfOrder e
  idle : S.outcome ≠ none → S.executing = none

theorem Reached.start {r : ρ} (h : System.start level s r = .ok S) (hsoft : level.isWithSoft = true) :
    Reached level s S := by
  have hinOrder := InOrder.start h
  obtain ⟨size, -, rfl⟩ := start_eq_ok h
  refine ⟨fun _ => hinOrder, ?_, ⟨0, rfl, fun _ => rfl⟩, fun e he => (nomatch he),
    fun hne => absurd rfl hne⟩
  simp only [hsoft, if_true]
  exact ⟨_, Flow.initializing (Ascends.inFlight 0) rfl⟩

theorem Reached.softStep (h : Reached level s S) (e : ReaderEvent FilteredSequencerBlock) :
    Reached level s (S.softStep e) where
  inOrder houtcome := (h.inOrder houtcome).softStep e
  executed := h.executed
  errors := h.errors
  idle := h.idle
  ascends := by
    obtain ⟨next, hflow⟩ := h.ascends
    have hs : Reader.Stepped softReaderConfig S.softView e (S.softReader, S.softBlocks) _ :=
      Reader.step_cases _
    obtain ⟨next', hflow'⟩ := hflow.step (Ascends.inFlight 0)
      (fun _ height _ ks next hks => hks.raise (le_max_left next height)) (fun _ _ => Ascends.nil _)
      (fun _ _ => trivial) (fun _ _ _ _ => trivial) hs
    refine ⟨next', ?_⟩
    have hreceived : (S.softStep e).softBlocks.received = S.softBlocks.received := hs.received_eq
    rw [hreceived]
    exact hflow'

theorem Reached.firmStep (h : Reached level s S) (e : ReaderEvent ReconstructedBlock) :
    Reached level s (S.firmStep e) where
  inOrder houtcome := (h.inOrder houtcome).firmStep e
  ascends := h.ascends
  executed := h.executed
  errors := h.errors
  idle := h.idle

section

variable [codec : BlockCodec] [dataCodec : RollupDataCodec] [rollup : Rollup ρ]

/-- A step of the executor does not change what was sent. -/
theorem ExecutorStepped.ascends {first : ReaderKind} (hs : ExecutorStepped first S S')
    (h : ∃ next, Flow Ascends (fun _ => True) S.softBlocks.received (S.softReader, S.softBlocks) next) :
    ∃ next, Flow Ascends (fun _ => True) S'.softBlocks.received (S'.softReader, S'.softBlocks) next := by
  obtain ⟨next, hflow⟩ := h
  cases hs with
  | delivered => exact ⟨next, hflow⟩
  | deliveryFailed => exact ⟨next, hflow⟩
  | panicked => exact ⟨next, hflow⟩
  | polled => exact ⟨next, hflow⟩
  | receivedFirm => exact ⟨next, hflow⟩
  | receivedSoft _ hrecv => exact ⟨next, hflow.congr (Channel.sent_of_recv hrecv) fun _ h => h⟩
  | joinedFirm => exact ⟨next, hflow.congr rfl fun _ h => h⟩
  | joinedSoft _ _ hjoins =>
    rw [exitOf_soft (joinNext_eq_some hjoins)] at hflow
    exact ⟨next, hflow.joined rfl⟩
  | @joinFailed task res e _ _ hjoins =>
    cases task with
    | firm => exact ⟨next, hflow⟩
    | soft =>
      rw [exitOf_soft (joinNext_eq_some hjoins)] at hflow
      exact ⟨next, hflow.joined rfl⟩
  | ended => exact ⟨next, hflow⟩

omit codec dataCodec rollup in
/-- Executing nothing, or the next height, keeps the executed heights in order. -/
theorem ExecutedInOrder.add (h : ExecutedInOrder s S) (houtcome : S.outcome = none)
    (hexecutions : S'.world.executions = S.world.executions ∧
        (S'.outcome = none → S'.world.state.softNumber = S.world.state.softNumber) ∨
      (∃ x, x.block.height = s.heightAfter S.world.state.softNumber ∧
          S'.world.executions = S.world.executions ++ [x]) ∧
        (S'.outcome = none →
          s.heightAfter S'.world.state.softNumber = s.heightAfter S.world.state.softNumber + 1)) :
    ExecutedInOrder s S' := by
  obtain ⟨count, hheights, hnext⟩ := h
  have hnext := hnext houtcome
  obtain ⟨hsame, hnumber⟩ | ⟨⟨x, hx, hexecutions⟩, hnumber⟩ := hexecutions
  · refine ⟨count, hsame ▸ hheights, fun ho => ?_⟩
    rw [hnumber ho, hnext]
  · refine ⟨count + 1, ?_, fun ho => ?_⟩
    · rw [hexecutions, List.map_append, hheights, List.range'_concat, List.map_singleton, hx, hnext,
        Nat.one_mul]
    · rw [hnumber ho, hnext]
      rfl

theorem ExecutorStepped.executedInOrder (he : Echoes ρ) {first : ReaderKind}
    (hs : ExecutorStepped first S S') (hinOrder : S.InOrder level s) (hsoft : level.isWithSoft = true)
    (houtcome : S.outcome = none) (h : ExecutedInOrder s S) : ExecutedInOrder s S' := by
  cases hs with
  | delivered _ hdeliver =>
    refine h.add houtcome ?_
    obtain ⟨hsame, hnumber⟩ | ⟨hnumber, hx⟩ := hinOrder.executes he hsoft hdeliver
    · exact Or.inl ⟨hsame, fun _ => hnumber⟩
    · exact Or.inr ⟨hx, fun _ => hnumber⟩
  | deliveryFailed hexecuting hdeliver =>
    refine h.add houtcome ?_
    obtain hsame | hx := hinOrder.executes_error hsoft hexecuting hdeliver
    · exact Or.inl ⟨hsame, fun ho => (nomatch ho)⟩
    · exact Or.inr ⟨hx, fun ho => (nomatch ho)⟩
  | panicked => exact h.add houtcome (Or.inl ⟨rfl, fun _ => rfl⟩)
  | polled => exact h.add houtcome (Or.inl ⟨rfl, fun _ => rfl⟩)
  | receivedFirm => exact h.add houtcome (Or.inl ⟨rfl, fun _ => rfl⟩)
  | receivedSoft => exact h.add houtcome (Or.inl ⟨rfl, fun _ => rfl⟩)
  | joinedFirm => exact h.add houtcome (Or.inl ⟨rfl, fun _ => rfl⟩)
  | joinedSoft => exact h.add houtcome (Or.inl ⟨rfl, fun _ => rfl⟩)
  | @joinFailed task =>
    refine h.add houtcome (Or.inl ⟨?_, fun ho => (nomatch ho)⟩)
    cases task <;> rfl
  | ended => exact h.add houtcome (Or.inl ⟨rfl, fun _ => rfl⟩)

theorem ExecutorStepped.not_outOfOrder {first : ReaderKind} (hs : ExecutorStepped first S S')
    (hinOrder : S.InOrder level s) (houtcome : S.outcome = none) {e : Report}
    (he : S'.outcome = some (.error e)) : ¬OutOfOrder e := by
  have hrunning (h : S.outcome = some (.error e)) : ¬OutOfOrder e := by
    rw [houtcome] at h
    cases h
  cases hs with
  | delivered => exact hrunning he
  | deliveryFailed hexecuting hdeliver =>
    obtain rfl := Except.error.inj (Option.some.inj he)
    exact hinOrder.not_outOfOrder hexecuting hdeliver
  | panicked _ hspread =>
    obtain rfl := Except.error.inj (Option.some.inj he)
    obtain ⟨-, rfl, -⟩ := isSpreadTooLarge_error hspread
    exact fun ho => absurd ho.length_eq (show (1 : ℕ) ≠ 2 by decide)
  | polled => exact hrunning he
  | receivedFirm => exact hrunning he
  | receivedSoft => exact hrunning he
  | joinedFirm => exact hrunning he
  | joinedSoft => exact hrunning he
  | joinFailed _ _ _ hhandled =>
    obtain rfl := Except.error.inj (Option.some.inj he)
    exact handleTaskExit_not_outOfOrder hhandled
  | ended => cases Option.some.inj he

/-- An event loop that returns has no block in execution. -/
theorem ExecutorStepped.idle {first : ReaderKind} (hs : ExecutorStepped first S S')
    (houtcome : S.outcome = none) (hne : S'.outcome ≠ none) : S'.executing = none := by
  cases hs with
  | delivered => rfl
  | deliveryFailed => rfl
  | panicked hexecuting => exact hexecuting
  | polled _ hexecuting => exact hexecuting
  | receivedFirm => exact absurd houtcome hne
  | receivedSoft => exact absurd houtcome hne
  | joinedFirm hexecuting => exact hexecuting
  | joinedSoft hexecuting => exact hexecuting
  | @joinFailed task res e hexecuting => cases task <;> exact hexecuting
  | ended hexecuting => exact hexecuting

theorem Reached.executorStep (he : Echoes ρ) (h : Reached level s S) (hsoft : level.isWithSoft = true)
    (first : ReaderKind) : Reached level s (S.executorStep first) := by
  by_cases houtcome : S.outcome = none
  · have hinOrder := h.inOrder houtcome
    have hs := executorStep_cases first houtcome
    exact ⟨hinOrder.executorStep he hs, hs.ascends h.ascends,
      hs.executedInOrder he hinOrder hsoft houtcome h.executed,
      fun _ => hs.not_outOfOrder hinOrder houtcome, hs.idle houtcome⟩
  · rw [executorStep_of_outcome houtcome]
    exact h

theorem Reached.run (he : Echoes ρ) (h : Reached level s S) (hsoft : level.isWithSoft = true)
    (es : List Event) : Reached level s (S.run es) := by
  induction es generalizing S with
  | nil => exact h
  | cons e es ih =>
    rw [run_cons]
    refine ih ?_
    cases e with
    | firm e => exact h.firmStep e
    | soft e => exact h.softStep e
    | executor first => exact h.executorStep he hsoft first

end

/-- The blocks of a system are sent, received and executed in order. -/
structure NeverSkips (s : State) (S : System ρ) : Prop where
  sent : (S.softBlocks.sent.map (·.height)).Pairwise (· < ·)
  soft : ∀ block expected, S.executing = some (.soft block) →
    S.world.state.nextExpectedSoftSequencerHeight = some expected → block.height ≤ expected
  firm : ∀ block expected, S.executing = some (.firm block) →
    S.world.state.nextExpectedFirmSequencerHeight = some expected → block.sequencerHeight = expected
  noError : ∀ e, S.outcome = some (.error e) → ¬OutOfOrder e
  executed : ExecutedInOrder s S

theorem Reached.neverSkips (h : Reached level s S) : NeverSkips s S where
  sent := by
    obtain ⟨next, hflow⟩ := h.ascends
    have hpairwise := hflow.heights.1
    rw [List.map_append] at hpairwise
    exact (List.pairwise_append.mp hpairwise).1
  soft block expected hexecuting hexpected := by
    have houtcome : S.outcome = none := by
      by_contra hne
      rw [h.idle hne] at hexecuting
      cases hexecuting
    exact (h.inOrder houtcome).soft_le hexecuting hexpected
  firm block expected hexecuting hexpected := by
    have houtcome : S.outcome = none := by
      by_contra hne
      rw [h.idle hne] at hexecuting
      cases hexecuting
    exact (h.inOrder houtcome).firm_eq hexecuting hexpected
  noError := h.errors
  executed := h.executed

end System

section

variable {ρ : Type} [codec : BlockCodec] [dataCodec : RollupDataCodec] [rollup : Rollup ρ]

/-- In every run of a session with soft blocks, with a faithful rollup, the readers never skip a
height and the executor executes every height once. -/
theorem readers_neverSkip {level : CommitLevel} {s : State} {r : ρ} {S : System ρ}
    {numberOf : ρ → String → Option ℕ} (hsoft : level.isWithSoft = true)
    (hstart : System.start level s r = .ok S) (hfaithful : Faithful numberOf) (es : List Event) :
    (S.run es).NeverSkips s :=
  ((System.Reached.start hstart hsoft).run hfaithful.echoes hsoft es).neverSkips

end

/-! ### Two blocks that arrive in the wrong order -/

section

open TestUtils
open scoped Astria.Sequencer.TestUtils

/-- The system of a soft-and-firm session at block 0, whose next height is 2. -/
def systemAtZero : Except Report (System Node) :=
  System.start .softAndFirm (state (session 0 0 le_rfl none 10)) { blocks := [rollupBlock 0] }

/-- The soft reader fetches height 3 before height 2 and forwards what it can; the firm reader has
height 2; the executor goes through its branches. -/
def twoBlocks : List Event :=
  [.soft .initialized, .firm .initialized, .soft (.fetched [softBlock 3 1 []]), .soft .forward,
    .soft (.fetched [softBlock 2 2 []]), .soft .forward, .soft .forward,
    .firm (.fetched [firmBlock 2 2 []]), .firm .forward] ++ List.replicate 11 (.executor .firm)

theorem readers_neverSkip_twoBlocks :
    ∃ S, systemAtZero = .ok S ∧ (S.run twoBlocks).NeverSkips (state (session 0 0 le_rfl none 10)) ∧
      (S.run twoBlocks).world.executions.map (·.block.height) = [2, 3] :=
  have hsoft : CommitLevel.softAndFirm.isWithSoft = true := rfl
  have hstart : systemAtZero = .ok _ := rfl
  ⟨_, hstart, readers_neverSkip hsoft hstart Node.faithful twoBlocks, by decide +kernel⟩

end

end Astria.Conductor
