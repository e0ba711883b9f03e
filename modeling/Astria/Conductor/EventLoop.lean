import Astria.Conductor.BlockCache
import Astria.Conductor.Commitments

/-!
# The readers and the event loop of the executor

The soft reader, the firm reader and the executor as three parties that take turns in any order, and
the two channels between them (`crates/astria-conductor/src/executor/mod.rs`, `sequencer/mod.rs`,
`celestia/mod.rs`).

What the readers fetch, in which order it arrives, and when it fails, is up to the events of a run.
The executor polls the branches of its biased `select!` one after another, so that the readers may act
in between; receiving a block and executing it are two of its steps.

Results:
* `Reader.step_cases`: everything that an event does to a reader;
* `System.executorStep_cases`: everything that one step of the executor does.
-/

namespace Astria.Conductor

open Astria.Core Astria.Lib Exec
open Astria.Sequencer (BlockCodec)

/-! ## The readers -/

/-- `ReaderKind`. -/
inductive ReaderKind where
  | firm
  | soft
  deriving DecidableEq

/-- The `Display` form. -/
def ReaderKind.display : ReaderKind → String
  | firm => "firm celestia reader"
  | soft => "soft sequencer reader"

/-- What joining a task returns: its result, or a `JoinError` if it panicked. -/
inductive TaskResult where
  | success
  | error (e : Report)
  | panicked (e : Report)
  deriving DecidableEq

/-- `RunningReader` of both readers: the sequential cache, and a block waiting for the executor. -/
structure RunningReader (T : Type) [GetSequencerHeight T] where
  blockCache : BlockCache T
  enqueuedBlock : Option T

/-- A reader task; one that was joined is no longer in the task set. -/
inductive Reader (T : Type) [GetSequencerHeight T] where
  | initializing
  | running (r : RunningReader T)
  | exited (res : TaskResult)
  | joined

/-- What makes a reader go on: a branch of its `select!` that is ready. -/
inductive ReaderEvent (T : Type) where
  /-- The chain ids are as expected. -/
  | initialized
  | initializationFailed (e : Report)
  /-- The shutdown token was observed. -/
  | cancelled
  /-- The executor has capacity for the enqueued block. -/
  | enqueuedSent
  /-- The tracked state changed. -/
  | stateChanged
  /-- The cache has the next block. -/
  | forward
  /-- Blocks arrived, in any order. -/
  | fetched (blocks : List T)
  /-- Fetching failed for good. -/
  | fetchFailed (e : Report)
  | latestHeight

/-- What a reader sees of the rest: the height that it starts at, the stop height, and the token. -/
structure ReaderView where
  /-- `next_expected_soft_sequencer_height` or `next_expected_firm_sequencer_height`. -/
  nextExpectedHeight : Option ℕ
  stopHeight : Option ℕ
  cancelled : Bool

/-- How the two readers differ. -/
structure ReaderConfig where
  /-- Only the soft reader follows the tracked state. -/
  followsState : Bool
  /-- The error of forwarding a block to a closed channel. -/
  closedError : Report

/-- `sequencer::RunningReader`. -/
def softReaderConfig : ReaderConfig :=
  { followsState := true
    closedError := ["could not send block to executor because its channel was closed"] }

/-- `celestia::RunningReader`. -/
def firmReaderConfig : ReaderConfig :=
  { followsState := false
    closedError := ["exiting because executor channel is closed"] }

/-- The panic of `StateReceiver`. -/
def invalidStatePanic : Report :=
  ["the tracked state must never be set to an invalid state. this is a bug"]

section

variable {T : Type} [GetSequencerHeight T]

/-- A reader and its channel to the executor. -/
abbrev ReaderAndChannel (T : Type) [GetSequencerHeight T] := Reader T × Channel T

/-- A reader that returns drops its sender. -/
def exit (res : TaskResult) (c : Channel T) : ReaderAndChannel T := (.exited res, c.dropSender)

namespace RunningReader

/-- `has_reached_stop_height`. -/
def hasReachedStopHeight (stopHeight : Option ℕ) (r : RunningReader T) : Bool :=
  match stopHeight with
  | none => false
  | some height => height < r.blockCache.nextHeight && r.enqueuedBlock.isNone

/-- `send_to_executor`, `forward_block_to_executor`. -/
def sendToExecutor (config : ReaderConfig) (block : T) (r : RunningReader T) (c : Channel T) :
    ReaderAndChannel T :=
  match c.trySend block with
  | .ok c' => (.running r, c')
  | .error .full => (.running { r with enqueuedBlock := some block }, c)
  | .error .closed => exit (.error config.closedError) c

/-- The branch of the enqueued block. -/
def sendEnqueued (r : RunningReader T) (c : Channel T) : ReaderAndChannel T :=
  match r.enqueuedBlock with
  | none => (.running r, c)
  | some block =>
    match c.trySend block with
    | .ok c' => (.running { r with enqueuedBlock := none }, c')
    | .error .full => (.running r, c)
    | .error .closed =>
      exit (.error ["failed sending enqueued block to executor", "channel closed"]) c

/-- The branch of a changed state, `update_next_expected_height`. -/
def updateNextExpectedHeight (view : ReaderView) (r : RunningReader T) (c : Channel T) :
    ReaderAndChannel T :=
  match view.nextExpectedHeight with
  | none => exit (.panicked invalidStatePanic) c
  | some height => (.running { r with blockCache := r.blockCache.dropObsolete height }, c)

/-- The branch of the next block in the cache. -/
def forwardNext (config : ReaderConfig) (r : RunningReader T) (c : Channel T) : ReaderAndChannel T :=
  if r.enqueuedBlock.isSome then (.running r, c)
  else
    match r.blockCache.pop with
    | none => (.running r, c)
    | some (block, cache) => sendToExecutor config block { r with blockCache := cache } c

/-- The branch of an event in the body of the loop. -/
def handle (config : ReaderConfig) (view : ReaderView) (r : RunningReader T) (c : Channel T) :
    ReaderEvent T → ReaderAndChannel T
  | .cancelled => if view.cancelled then exit .success c else (.running r, c)
  | .enqueuedSent => r.sendEnqueued c
  | .stateChanged =>
    if config.followsState then r.updateNextExpectedHeight view c else (.running r, c)
  | .forward => r.forwardNext config c
  | .fetched blocks =>
    (.running { r with blockCache := blocks.foldl BlockCache.insertOrDrop r.blockCache }, c)
  | .fetchFailed e => exit (.error e) c
  | .initialized | .initializationFailed _ | .latestHeight => (.running r, c)

end RunningReader

/-- `try_from_parts`, `from_parts`: a reader that enters its loop. -/
def Reader.enterRunLoop (view : ReaderView) (c : Channel T) : ReaderAndChannel T :=
  match view.nextExpectedHeight with
  | none => exit (.panicked invalidStatePanic) c
  | some height =>
    match BlockCache.withNextHeight height with
    | .error e =>
      exit (.error
        ["failed entering run loop", "failed constructing sequential block cache", e.display]) c
    | .ok cache => (.running { blockCache := cache, enqueuedBlock := none }, c)

/-- `run_until_stopped` of a reader: its initialization, and one iteration of its loop. -/
def Reader.step (config : ReaderConfig) (view : ReaderView) (e : ReaderEvent T) :
    ReaderAndChannel T → ReaderAndChannel T
  | (.initializing, c) =>
    match e with
    | .cancelled => if view.cancelled then exit .success c else (.initializing, c)
    | .initializationFailed e => exit (.error e) c
    | .initialized => Reader.enterRunLoop view c
    | _ => (.initializing, c)
  | (.running r, c) =>
    if r.hasReachedStopHeight view.stopHeight then exit .success c else r.handle config view c e
  | (reader, c) => (reader, c)

end

/-! ## The system -/

/-- The branches of the `select!` of the event loop; the precondition of the soft branch is evaluated
first. -/
inductive Branch where
  | precondition
  | firm
  | soft
  | join
  deriving DecidableEq

/-- A `select!` under way: the branch that is polled next, and the branches that are disabled. -/
structure Select where
  branch : Branch
  firmDisabled : Bool
  softDisabled : Bool
  deriving DecidableEq

/-- A new iteration of the event loop. -/
def Select.start : Select := { branch := .precondition, firmDisabled := false, softDisabled := false }

/-- The executor, its readers and the channels between them. -/
structure System (ρ : Type) where
  world : World ρ
  /-- The block that was received and is being executed. -/
  executing : Option Delivery
  firmReader : Reader ReconstructedBlock
  softReader : Reader FilteredSequencerBlock
  firmBlocks : Channel ReconstructedBlock
  softBlocks : Channel FilteredSequencerBlock
  /-- `reader_cancellation_token`. -/
  readersCancelled : Bool
  select : Select
  /-- What `run_event_loop` returned. -/
  outcome : Option (Except Report State)

/-- `Semaphore::MAX_PERMITS`, the largest capacity of a channel. -/
def maxPermits : ℕ := 2 ^ 61 - 1

/-- The capacity of the soft channel in `create_block_channels`. -/
def softChannelSize (commitLevel : CommitLevel) (s : State) : Except Report ℕ :=
  let lookAhead := s.executionSessionParameters.celestiaSearchHeightMaxLookAhead
  let size := match commitLevel with
    | .firmOnly => if lookAhead = 0 then 1 else lookAhead
    | .softAndFirm => lookAhead
    | .softOnly => 1024
  if commitLevel = .softAndFirm ∧ lookAhead = 0 then
    .error ["failed to create channels",
      "celestia-search-height-max-look-ahead must be greater than 0 if running in soft-and-firm " ++
        "mode; note that unset values in the execution session have a default of 0"]
  else if maxPermits < size then .error ["a semaphore may not have more than MAX_PERMITS permits"]
  else .ok size

/-- `Executor::init`, once the state of a session is set. -/
def System.start {ρ : Type} (commitLevel : CommitLevel) (s : State) (r : ρ) :
    Except Report (System ρ) :=
  match softChannelSize commitLevel s with
  | .error e => .error e
  | .ok size =>
    .ok
      { world := World.start commitLevel s r
        executing := none
        firmReader := if commitLevel.isWithFirm then .initializing else .joined
        softReader := if commitLevel.isWithSoft then .initializing else .joined
        firmBlocks := Channel.create 16 commitLevel.isWithFirm
        softBlocks := Channel.create size commitLevel.isWithSoft
        readersCancelled := false
        select := Select.start
        outcome := none }

namespace System

variable {ρ : Type}

def softView (S : System ρ) : ReaderView :=
  { nextExpectedHeight := S.world.state.nextExpectedSoftSequencerHeight
    stopHeight := S.world.state.sequencerStopHeight
    cancelled := S.readersCancelled }

def firmView (S : System ρ) : ReaderView :=
  { nextExpectedHeight := S.world.state.nextExpectedFirmSequencerHeight
    stopHeight := S.world.state.sequencerStopHeight
    cancelled := S.readersCancelled }

def softStep (e : ReaderEvent FilteredSequencerBlock) (S : System ρ) : System ρ :=
  let next := Reader.step softReaderConfig S.softView e (S.softReader, S.softBlocks)
  { S with softReader := next.1, softBlocks := next.2 }

def firmStep (e : ReaderEvent ReconstructedBlock) (S : System ρ) : System ρ :=
  let next := Reader.step firmReaderConfig S.firmView e (S.firmReader, S.firmBlocks)
  { S with firmReader := next.1, firmBlocks := next.2 }

/-! ### The event loop -/

/-- `is_spread_too_large`. -/
def isSpreadTooLarge : ExecutorM ρ Bool := do
  let level ← reads World.commitLevel
  if level.isWithFirm then do
    let nextFirm ← expectFirmHeight
    let nextSoft ← expectSoftHeight
    reads fun w =>
      w.state.executionSessionParameters.celestiaSearchHeightMaxLookAhead ≤ nextSoft - nextFirm
  else pure false

/-- The error of a task that returned too early; its text for a success differs by one letter. -/
def unexpectedExit (success : String) (context : String) : TaskResult → Report
  | .success => [context, success]
  | .error e => context :: "task exited with error" :: e
  | .panicked e => context :: "task panicked" :: e

/-- The end of a task before its number has reached the stop height. -/
def exitedUnexpectedly (task : ReaderKind) (hasEnd : Bool) (res : TaskResult) : Report :=
  if hasEnd then
    unexpectedExit "task exited with success value"
      s!"task `{task.display}` exited unexpectedly before stop height was reached" res
  else
    unexpectedExit "task exited with sucess value" s!"task `{task.display}` exited unexpectedly" res

/-- The exit of a task that the commit level has no reader for. -/
def neverRan (task : ReaderKind) (level : CommitLevel) : Report :=
  [s!"task `{task.display}` exited but it shouldn't have run in the first place because " ++
    s!"because commit level is set to `{level.display}`"]

/-- `handle_task_exit`. -/
def handleTaskExit (task : ReaderKind) (res : TaskResult) (S : System ρ) :
    Except Report (System ρ) :=
  let s := S.world.state
  let level := S.world.commitLevel
  let hasEnd := s.executionSessionParameters.rollupEndBlockNumber.isSome
  match task with
  | .firm =>
    if level.isWithFirm then
      if hasEnd && s.hasFirmNumberReachedStopHeight then
        .ok { S with
          readersCancelled := true
          firmBlocks := S.firmBlocks.close
          softBlocks := S.softBlocks.close }
      else .error (exitedUnexpectedly .firm hasEnd res)
    else .error (neverRan .firm level)
  | .soft =>
    if level.isWithSoft then
      if hasEnd && s.hasSoftNumberReachedStopHeight then .ok S
      else .error (exitedUnexpectedly .soft hasEnd res)
    else .error (neverRan .soft level)

/-- The result of a task that is ready to be joined. -/
def exitOf (S : System ρ) : ReaderKind → Option TaskResult
  | .firm => match S.firmReader with
    | .exited res => some res
    | _ => none
  | .soft => match S.softReader with
    | .exited res => some res
    | _ => none

/-- Takes a task out of the task set. -/
def remove (task : ReaderKind) (S : System ρ) : System ρ :=
  match task with
  | .firm => { S with firmReader := .joined }
  | .soft => { S with softReader := .joined }

/-- `reader_tasks` is empty. -/
def noTasks (S : System ρ) : Bool :=
  match S.firmReader, S.softReader with
  | .joined, .joined => true
  | _, _ => false

/-- `join_next`: one of the tasks that returned, the given one first. -/
def joinNext (first : ReaderKind) (S : System ρ) : Option (ReaderKind × TaskResult) :=
  let second := match first with
    | .firm => .soft
    | .soft => .firm
  match S.exitOf first with
  | some res => some (first, res)
  | none =>
    match S.exitOf second with
    | some res => some (second, res)
    | none => none

def poll (branch : Branch) (S : System ρ) : System ρ :=
  { S with select := { S.select with branch := branch } }

/-- Polls the next branch of the `select!`, with no block in execution. -/
def pollBranch (first : ReaderKind) (S : System ρ) : System ρ :=
  match S.select.branch with
  | .precondition =>
    match isSpreadTooLarge S.world with
    | .error e w => { S with world := w, outcome := some (.error e) }
    | .ok tooLarge w =>
      { S with
        world := w
        select := { branch := .firm, firmDisabled := false, softDisabled := tooLarge } }
  | .firm =>
    if S.select.firmDisabled then S.poll .soft
    else
      match S.firmBlocks.recv with
      | some (block, c) => { S with firmBlocks := c, executing := some (.firm block) }
      | none =>
        { S with select :=
          { S.select with branch := .soft, firmDisabled := S.firmBlocks.finished } }
  | .soft =>
    if S.select.softDisabled then S.poll .join
    else
      match S.softBlocks.recv with
      | some (block, c) => { S with softBlocks := c, executing := some (.soft block) }
      | none =>
        { S with select :=
          { S.select with branch := .join, softDisabled := S.softBlocks.finished } }
  | .join =>
    match S.joinNext first with
    | some (task, res) =>
      match handleTaskExit task res (S.remove task) with
      | .ok S' => { S' with select := Select.start }
      | .error e => { S.remove task with outcome := some (.error e) }
    | none =>
      if S.noTasks && S.select.firmDisabled && S.select.softDisabled then
        { S with outcome := some (.ok S.world.state) }
      else S.poll .firm

variable [codec : BlockCodec] [dataCodec : RollupDataCodec] [rollup : Rollup ρ]

/-- Executes the block that was received. -/
def execute (d : Delivery) (S : System ρ) : System ρ :=
  match deliver d S.world with
  | .ok _ w => { S with world := w, executing := none, select := Select.start }
  | .error e w => { S with world := w, executing := none, outcome := some (.error e) }

/-- One step of `run_event_loop`. -/
def executorStep (first : ReaderKind) (S : System ρ) : System ρ :=
  if S.outcome.isSome then S
  else
    match S.executing with
    | some d => S.execute d
    | none => S.pollBranch first

end System

/-- An event: a reader goes on, or the executor does. -/
inductive Event where
  | firm (e : ReaderEvent ReconstructedBlock)
  | soft (e : ReaderEvent FilteredSequencerBlock)
  | executor (first : ReaderKind)

section

variable {ρ : Type} [codec : BlockCodec] [dataCodec : RollupDataCodec] [rollup : Rollup ρ]

def System.step (S : System ρ) : Event → System ρ
  | .firm e => S.firmStep e
  | .soft e => S.softStep e
  | .executor first => S.executorStep first

/-- The system after a list of events. -/
def System.run (S : System ρ) (es : List Event) : System ρ := es.foldl System.step S

theorem System.run_cons (S : System ρ) (e : Event) (es : List Event) :
    S.run (e :: es) = (S.step e).run es := rfl

end

/-! ## What an event does to a reader -/

section

variable {T : Type} [GetSequencerHeight T]

/-- The blocks that an event brings. -/
def ReaderEvent.blocks : ReaderEvent T → List T
  | .fetched blocks => blocks
  | _ => []

/-- A reader that has not returned. -/
def Reader.isLive : Reader T → Bool
  | .initializing | .running _ => true
  | .exited _ | .joined => false

/-- The block that waits for the executor outside of the channel. -/
def Reader.enqueued : Reader T → List T
  | .running r => r.enqueuedBlock.toList
  | _ => []

/-- Everything that an event does to a reader and its channel. -/
inductive Reader.Stepped (config : ReaderConfig) (view : ReaderView) (e : ReaderEvent T) :
    ReaderAndChannel T → ReaderAndChannel T → Prop
  | idle (rc : ReaderAndChannel T) : Stepped config view e rc rc
  | started {c : Channel T} {cache : BlockCache T}
      (next : view.nextExpectedHeight = some cache.nextHeight)
      (empty : ∀ height, cache.inner height = none) :
      Stepped config view e (.initializing, c) (.running ⟨cache, none⟩, c)
  | stopped {r : RunningReader T} {c : Channel T} {stop : ℕ} (stopHeight : view.stopHeight = some stop)
      (lt : stop < r.blockCache.nextHeight) (enqueued : r.enqueuedBlock = none) :
      Stepped config view e (.running r, c) (exit .success c)
  | cancelled {reader : Reader T} {c : Channel T} (live : reader.isLive = true)
      (cancelled : view.cancelled = true) : Stepped config view e (reader, c) (exit .success c)
  | failed {reader : Reader T} {c : Channel T} {res : TaskResult} (live : reader.isLive = true)
      (res_ne : res ≠ .success) : Stepped config view e (reader, c) (exit res c)
  | cached {r : RunningReader T} {c : Channel T} {cache : BlockCache T}
      (next : cache.nextHeight = r.blockCache.nextHeight ∨ config.followsState = true ∧
        ∃ height, view.nextExpectedHeight = some height ∧
          cache.nextHeight = max r.blockCache.nextHeight height)
      (blocks : ∀ height block, cache.inner height = some block →
        r.blockCache.inner height = some block ∨ block ∈ e.blocks) :
      Stepped config view e (.running r, c) (.running ⟨cache, r.enqueuedBlock⟩, c)
  | forwarded {r : RunningReader T} {c c' : Channel T} {block : T}
      (below : ∀ stop, view.stopHeight = some stop → r.blockCache.nextHeight ≤ stop)
      (enqueued : r.enqueuedBlock = none)
      (block_eq : r.blockCache.inner r.blockCache.nextHeight = some block)
      (sent : c.trySend block = .ok c') :
      Stepped config view e (.running r, c) (.running ⟨r.blockCache.advance, none⟩, c')
  | enqueued {r : RunningReader T} {c : Channel T} {block : T}
      (below : ∀ stop, view.stopHeight = some stop → r.blockCache.nextHeight ≤ stop)
      (enqueued : r.enqueuedBlock = none)
      (block_eq : r.blockCache.inner r.blockCache.nextHeight = some block) :
      Stepped config view e (.running r, c) (.running ⟨r.blockCache.advance, some block⟩, c)
  | sent {r : RunningReader T} {c c' : Channel T} {block : T}
      (enqueued : r.enqueuedBlock = some block) (sent : c.trySend block = .ok c') :
      Stepped config view e (.running r, c) (.running ⟨r.blockCache, none⟩, c')

variable {config : ReaderConfig} {view : ReaderView} {e : ReaderEvent T}

theorem BlockCache.inner_foldl {cache : BlockCache T} {blocks : List T} {height : ℕ} {block : T}
    (h : (blocks.foldl BlockCache.insertOrDrop cache).inner height = some block) :
    cache.inner height = some block ∨ block ∈ blocks := by
  induction blocks generalizing cache with
  | nil => exact Or.inl h
  | cons b blocks ih =>
    rw [List.foldl_cons] at h
    obtain h | h := ih h
    · obtain h | rfl := BlockCache.inner_insertOrDrop h
      · exact Or.inl h
      · exact Or.inr (List.mem_cons_self ..)
    · exact Or.inr (List.mem_cons_of_mem _ h)

section

variable {r : RunningReader T} {c : Channel T}

theorem RunningReader.sendEnqueued_cases :
    Reader.Stepped config view e (.running r, c) (r.sendEnqueued c) := by
  unfold sendEnqueued
  split
  · exact .idle _
  next block henqueued =>
    split
    next c' hsend => exact .sent henqueued hsend
    · exact .idle _
    · exact .failed rfl TaskResult.noConfusion

theorem RunningReader.updateNextExpectedHeight_cases (hfollows : config.followsState = true) :
    Reader.Stepped config view e (.running r, c) (r.updateNextExpectedHeight view c) := by
  unfold updateNextExpectedHeight
  split
  · exact .failed rfl TaskResult.noConfusion
  next height hnext =>
    refine .cached (Or.inr ⟨hfollows, height, hnext, rfl⟩) ?_
    intro k block hblock
    exact Or.inl (BlockCache.inner_dropObsolete hblock)

theorem RunningReader.forwardNext_cases
    (hbelow : r.enqueuedBlock = none → ∀ stop, view.stopHeight = some stop →
      r.blockCache.nextHeight ≤ stop) :
    Reader.Stepped config view e (.running r, c) (r.forwardNext config c) := by
  unfold forwardNext
  split
  · exact .idle _
  next henqueued =>
    rw [Option.not_isSome_iff_eq_none] at henqueued
    split
    · exact .idle _
    next block cache hpop =>
      obtain ⟨hblock, rfl⟩ := BlockCache.pop_eq_some.mp hpop
      rw [henqueued]
      unfold sendToExecutor
      split
      next c' hsend => exact .forwarded (hbelow henqueued) henqueued hblock hsend
      · exact .enqueued (hbelow henqueued) henqueued hblock
      · exact .failed rfl TaskResult.noConfusion

/-- A reader that has not reached its stop height handles its event. -/
theorem RunningReader.handle_cases (hstop : r.hasReachedStopHeight view.stopHeight = false) :
    Reader.Stepped config view e (.running r, c) (r.handle config view c e) := by
  have hbelow (henqueued : r.enqueuedBlock = none) (stop : ℕ) (h : view.stopHeight = some stop) :
      r.blockCache.nextHeight ≤ stop := by
    unfold hasReachedStopHeight at hstop
    rw [h, henqueued] at hstop
    simpa using hstop
  cases e with
  | initialized => exact .idle _
  | initializationFailed e => exact .idle _
  | latestHeight => exact .idle _
  | cancelled =>
    show Reader.Stepped _ _ _ _ (if view.cancelled then exit .success c else (.running r, c))
    split_ifs with hcancelled
    · exact .cancelled rfl hcancelled
    · exact .idle _
  | enqueuedSent => exact sendEnqueued_cases
  | stateChanged =>
    show Reader.Stepped _ _ _ _
      (if config.followsState then r.updateNextExpectedHeight view c else (.running r, c))
    split_ifs with hfollows
    · exact updateNextExpectedHeight_cases hfollows
    · exact .idle _
  | forward => exact forwardNext_cases hbelow
  | fetched blocks =>
    exact .cached (Or.inl (BlockCache.nextHeight_foldl ..)) fun _ _ h => BlockCache.inner_foldl h
  | fetchFailed e => exact .failed rfl TaskResult.noConfusion

theorem Reader.enterRunLoop_cases :
    Reader.Stepped config view e (.initializing, c) (Reader.enterRunLoop view c) := by
  unfold enterRunLoop
  split
  · exact .failed rfl TaskResult.noConfusion
  next height hnext =>
    split
    · exact .failed rfl TaskResult.noConfusion
    next cache hcache =>
      obtain ⟨-, rfl, hempty⟩ := BlockCache.withNextHeight_eq_ok.mp hcache
      exact .started hnext hempty

end

theorem Reader.step_cases (rc : ReaderAndChannel T) :
    Reader.Stepped config view e rc (Reader.step config view e rc) := by
  obtain ⟨reader, c⟩ := rc
  cases reader with
  | exited res => exact .idle _
  | joined => exact .idle _
  | running r =>
    show Reader.Stepped _ _ _ _ (if r.hasReachedStopHeight view.stopHeight then exit .success c
      else r.handle config view c e)
    split_ifs with hreached
    · unfold RunningReader.hasReachedStopHeight at hreached
      cases hstop : view.stopHeight with
      | none =>
        rw [hstop] at hreached
        cases hreached
      | some stop =>
        rw [hstop] at hreached
        simp only [Bool.and_eq_true, decide_eq_true_iff, Option.isNone_iff_eq_none] at hreached
        exact .stopped hstop hreached.1 hreached.2
    · exact RunningReader.handle_cases (by simpa using hreached)
  | initializing =>
    cases e with
    | cancelled =>
      show Reader.Stepped _ _ _ _ (if view.cancelled then exit .success c else (.initializing, c))
      split_ifs with hcancelled
      · exact .cancelled rfl hcancelled
      · exact .idle _
    | initializationFailed e => exact .failed rfl TaskResult.noConfusion
    | initialized => exact Reader.enterRunLoop_cases
    | enqueuedSent => exact .idle _
    | stateChanged => exact .idle _
    | forward => exact .idle _
    | fetched blocks => exact .idle _
    | fetchFailed e => exact .idle _
    | latestHeight => exact .idle _

theorem Reader.Stepped.sent_subset {rc rc' : ReaderAndChannel T}
    (hs : Reader.Stepped config view e rc rc') {block : T} (h : block ∈ rc.2.sent) :
    block ∈ rc'.2.sent := by
  have hsend {c c' : Channel T} {b : T} (hsent : c.trySend b = .ok c') (h : block ∈ c.sent) :
      block ∈ c'.sent := by
    rw [Channel.sent_of_trySend hsent]
    exact List.mem_append_left _ h
  cases hs with
  | idle => exact h
  | started => exact h
  | stopped => exact h
  | cancelled => exact h
  | failed => exact h
  | cached => exact h
  | forwarded _ _ _ hsent => exact hsend hsent h
  | enqueued => exact h
  | sent _ hsent => exact hsend hsent h

/-- Only the executor joins a reader. -/
theorem Reader.Stepped.joined {rc rc' : ReaderAndChannel T}
    (hs : Reader.Stepped config view e rc rc') (h : rc'.1 = .joined) : rc.1 = .joined := by
  cases hs with
  | idle => exact h
  | started => cases h
  | stopped => cases h
  | cancelled => cases h
  | failed => cases h
  | cached => cases h
  | forwarded => cases h
  | enqueued => cases h
  | sent => cases h

end

/-! ## What a step of the executor does -/

namespace System

section

variable {ρ : Type} {w w' : World ρ} {S S' : System ρ}

/-- The panic of `StateSender`. -/
def unmappableStatePanic : Report :=
  ["the tracked state must never be set to a genesis/commitment state that cannot be mapped to " ++
    "a cometbft Sequencer height"]

theorem isSpreadTooLarge_ok {tooLarge : Bool} (h : isSpreadTooLarge w = .ok tooLarge w') : w' = w := by
  simp only [isSpreadTooLarge, bind_eq_ok, reads_eq_ok] at h
  obtain ⟨_, w, ⟨rfl, rfl⟩, h⟩ := h
  split_ifs at h with hfirm
  · simp only [bind_eq_ok, reads_eq_ok] at h
    obtain ⟨_, _, hnext, _, _, hsoft, -, rfl⟩ := h
    obtain ⟨-, rfl⟩ := expectFirmHeight_eq_ok.mp hnext
    exact (expectSoftHeight_eq_ok.mp hsoft).2
  · exact (pure_eq_ok.mp h).2

/-- The spread panics only where a number has no next height. -/
theorem isSpreadTooLarge_error {e : Report} (h : isSpreadTooLarge w = .error e w') :
    w' = w ∧ e = unmappableStatePanic ∧ w.commitLevel.isWithFirm = true ∧
      (w.state.nextExpectedFirmSequencerHeight = none ∨
        w.state.nextExpectedSoftSequencerHeight = none) := by
  simp only [isSpreadTooLarge, bind_eq_error, reads_eq_error, false_or, reads_eq_ok] at h
  obtain ⟨_, w, ⟨rfl, rfl⟩, h⟩ := h
  split_ifs at h with hfirm
  · simp only [bind_eq_error, reads_eq_error, and_false, exists_false, or_false] at h
    obtain hpanic | ⟨_, _, hnext, hpanic⟩ := h
    · simp only [expectFirmHeight, bind_eq_error, reads_eq_error, false_or, reads_eq_ok,
        require_eq_error] at hpanic
      obtain ⟨_, w, ⟨rfl, rfl⟩, hnone, rfl, rfl⟩ := hpanic
      exact ⟨rfl, rfl, hfirm, Or.inl hnone⟩
    · obtain ⟨-, rfl⟩ := expectFirmHeight_eq_ok.mp hnext
      simp only [expectSoftHeight, bind_eq_error, reads_eq_error, false_or, reads_eq_ok,
        require_eq_error] at hpanic
      obtain ⟨_, w, ⟨rfl, rfl⟩, hnone, rfl, rfl⟩ := hpanic
      exact ⟨rfl, rfl, hfirm, Or.inr hnone⟩
  · exact absurd (pure_eq_error.mp h) id

theorem hasFirmNumberReachedStopHeight_eq_true {s : State} :
    s.hasFirmNumberReachedStopHeight = true ↔
      ∃ last, s.executionSessionParameters.rollupEndBlockNumber = some last ∧ last ≤ s.firmNumber := by
  unfold State.hasFirmNumberReachedStopHeight
  cases s.executionSessionParameters.rollupEndBlockNumber <;> simp

theorem hasSoftNumberReachedStopHeight_eq_true {s : State} :
    s.hasSoftNumberReachedStopHeight = true ↔
      ∃ last, s.executionSessionParameters.rollupEndBlockNumber = some last ∧ last ≤ s.softNumber := by
  unfold State.hasSoftNumberReachedStopHeight
  cases s.executionSessionParameters.rollupEndBlockNumber <;> simp

/-- The exit of the firm reader is fine once the firm number has reached the end. -/
theorem handleTaskExit_firm {res : TaskResult} :
    handleTaskExit .firm res S = .ok S' ↔
      S.world.commitLevel.isWithFirm = true ∧
        S.world.state.hasFirmNumberReachedStopHeight = true ∧
        S' = { S with
          readersCancelled := true
          firmBlocks := S.firmBlocks.close
          softBlocks := S.softBlocks.close } := by
  simp only [handleTaskExit]
  constructor
  · intro h
    split_ifs at h with hlevel hreached
    rw [Bool.and_eq_true] at hreached
    exact ⟨hlevel, hreached.2, (Except.ok.inj h).symm⟩
  · rintro ⟨hlevel, hreached, rfl⟩
    obtain ⟨last, hlast, -⟩ := hasFirmNumberReachedStopHeight_eq_true.mp hreached
    rw [if_pos hlevel, if_pos (Bool.and_eq_true_iff.mpr ⟨by rw [hlast]; rfl, hreached⟩)]

/-- The exit of the soft reader is fine once the soft number has reached the end. -/
theorem handleTaskExit_soft {res : TaskResult} :
    handleTaskExit .soft res S = .ok S' ↔
      S.world.commitLevel.isWithSoft = true ∧
        S.world.state.hasSoftNumberReachedStopHeight = true ∧ S' = S := by
  simp only [handleTaskExit]
  constructor
  · intro h
    split_ifs at h with hlevel hreached
    rw [Bool.and_eq_true] at hreached
    exact ⟨hlevel, hreached.2, (Except.ok.inj h).symm⟩
  · rintro ⟨hlevel, hreached, rfl⟩
    obtain ⟨last, hlast, -⟩ := hasSoftNumberReachedStopHeight_eq_true.mp hreached
    rw [if_pos hlevel, if_pos (Bool.and_eq_true_iff.mpr ⟨by rw [hlast]; rfl, hreached⟩)]

theorem noTasks_eq_true : S.noTasks = true ↔ S.firmReader = .joined ∧ S.softReader = .joined := by
  unfold noTasks
  cases S.firmReader <;> cases S.softReader <;> simp

theorem joinNext_eq_some {first task : ReaderKind} {res : TaskResult}
    (h : S.joinNext first = some (task, res)) : S.exitOf task = some res := by
  unfold joinNext at h
  cases hfirst : S.exitOf first with
  | some res' =>
    rw [hfirst] at h
    obtain ⟨rfl, rfl⟩ := h
    exact hfirst
  | none =>
    rw [hfirst] at h
    dsimp only at h
    split at h
    next res' hsecond =>
      obtain ⟨rfl, rfl⟩ := h
      exact hsecond
    · cases h

end

section

variable {ρ : Type} [codec : BlockCodec] [dataCodec : RollupDataCodec] [rollup : Rollup ρ]

/-- Everything that a step of the executor does while the event loop runs. -/
inductive ExecutorStepped (first : ReaderKind) (S : System ρ) : System ρ → Prop
  | delivered {d : Delivery} {w : World ρ} (executing : S.executing = some d)
      (deliver : deliver d S.world = .ok () w) :
      ExecutorStepped first S { S with world := w, executing := none, select := Select.start }
  | deliveryFailed {d : Delivery} {e : Report} {w : World ρ} (executing : S.executing = some d)
      (deliver : deliver d S.world = .error e w) :
      ExecutorStepped first S { S with world := w, executing := none, outcome := some (.error e) }
  | panicked {e : Report} (executing : S.executing = none)
      (spread : isSpreadTooLarge S.world = .error e S.world) :
      ExecutorStepped first S { S with outcome := some (.error e) }
  | polled (select : Select) (executing : S.executing = none) :
      ExecutorStepped first S { S with select := select }
  | receivedFirm {block : ReconstructedBlock} {c : Channel ReconstructedBlock}
      (executing : S.executing = none) (recv : S.firmBlocks.recv = some (block, c)) :
      ExecutorStepped first S { S with firmBlocks := c, executing := some (.firm block) }
  | receivedSoft {block : FilteredSequencerBlock} {c : Channel FilteredSequencerBlock}
      (executing : S.executing = none) (recv : S.softBlocks.recv = some (block, c)) :
      ExecutorStepped first S { S with softBlocks := c, executing := some (.soft block) }
  | joinedFirm {res : TaskResult} (executing : S.executing = none) (branch : S.select.branch = .join)
      (joins : S.joinNext first = some (.firm, res))
      (level : S.world.commitLevel.isWithFirm = true)
      (reached : S.world.state.hasFirmNumberReachedStopHeight = true) :
      ExecutorStepped first S { S with
        firmReader := .joined
        readersCancelled := true
        firmBlocks := S.firmBlocks.close
        softBlocks := S.softBlocks.close
        select := Select.start }
  | joinedSoft {res : TaskResult} (executing : S.executing = none) (branch : S.select.branch = .join)
      (joins : S.joinNext first = some (.soft, res))
      (level : S.world.commitLevel.isWithSoft = true)
      (reached : S.world.state.hasSoftNumberReachedStopHeight = true) :
      ExecutorStepped first S { S with softReader := .joined, select := Select.start }
  | joinFailed {task : ReaderKind} {res : TaskResult} {e : Report} (executing : S.executing = none)
      (branch : S.select.branch = .join) (joins : S.joinNext first = some (task, res))
      (handled : handleTaskExit task res (S.remove task) = .error e) :
      ExecutorStepped first S { S.remove task with outcome := some (.error e) }
  | ended (executing : S.executing = none) (noTasks : S.noTasks = true) :
      ExecutorStepped first S { S with outcome := some (.ok S.world.state) }

theorem pollBranch_cases {first : ReaderKind} {S : System ρ} (hexecuting : S.executing = none) :
    ExecutorStepped first S (S.pollBranch first) := by
  unfold pollBranch
  cases hbranch : S.select.branch with
  | precondition =>
    cases hspread : isSpreadTooLarge S.world with
    | error e w =>
      obtain ⟨rfl, -, -⟩ := isSpreadTooLarge_error hspread
      exact .panicked hexecuting hspread
    | ok tooLarge w =>
      obtain rfl := isSpreadTooLarge_ok hspread
      exact .polled _ hexecuting
  | firm =>
    dsimp only
    split_ifs
    · exact .polled _ hexecuting
    · cases hrecv : S.firmBlocks.recv with
      | none => exact .polled _ hexecuting
      | some received => exact .receivedFirm hexecuting hrecv
  | soft =>
    dsimp only
    split_ifs
    · exact .polled _ hexecuting
    · cases hrecv : S.softBlocks.recv with
      | none => exact .polled _ hexecuting
      | some received => exact .receivedSoft hexecuting hrecv
  | join =>
    dsimp only
    cases hjoin : S.joinNext first with
    | none =>
      dsimp only
      split_ifs with hdone
      · simp only [Bool.and_eq_true] at hdone
        exact .ended hexecuting hdone.1.1
      · exact .polled _ hexecuting
    | some joined =>
      obtain ⟨task, res⟩ := joined
      dsimp only
      cases hhandled : handleTaskExit task res (S.remove task) with
      | error e => exact .joinFailed hexecuting hbranch hjoin hhandled
      | ok S' =>
        cases task with
        | firm =>
          obtain ⟨hlevel, hreached, rfl⟩ := handleTaskExit_firm.mp hhandled
          exact .joinedFirm hexecuting hbranch hjoin hlevel hreached
        | soft =>
          obtain ⟨hlevel, hreached, rfl⟩ := handleTaskExit_soft.mp hhandled
          exact .joinedSoft hexecuting hbranch hjoin hlevel hreached

theorem executorStep_cases (first : ReaderKind) {S : System ρ} (houtcome : S.outcome = none) :
    ExecutorStepped first S (S.executorStep first) := by
  unfold executorStep
  rw [if_neg (by simp [houtcome])]
  cases hexecuting : S.executing with
  | none => exact pollBranch_cases hexecuting
  | some d =>
    show ExecutorStepped first S (S.execute d)
    unfold execute
    split
    next w hdeliver => exact .delivered hexecuting hdeliver
    next e w hdeliver => exact .deliveryFailed hexecuting hdeliver

/-- An event loop that has returned does nothing. -/
theorem executorStep_of_outcome {first : ReaderKind} {S : System ρ} (h : S.outcome ≠ none) :
    S.executorStep first = S :=
  if_pos (Option.isSome_iff_ne_none.mpr h)

end

end System

end Astria.Conductor
