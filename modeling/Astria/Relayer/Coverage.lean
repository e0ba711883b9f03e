import Astria.Relayer.SubmissionState

/-!
# Sequencer heights on Celestia

The relayer over all its sessions (`crates/astria-sequencer-relayer/src/relayer/mod.rs`,
`relayer/read.rs`): blocks are fetched height by height from the last completed one on, forwarded to the
blob submitter and submitted; a session ends with a crash at any time, and the next one starts from the
submission state file.

Results:
* `Submits.turn`, `Submits.exists_ongoing`: the blocks of a submission follow those that were confirmed;
* `Covers.step`, `Covers.run`: what is recorded in the file is on Celestia, after all events;
* `no_gap`: every height up to the recorded one is on Celestia, and what is recorded increases.
-/

namespace Astria.Relayer

open Astria.Core Astria.Lib
open Astria.Sequencer (External)

/-! ## The stream of blocks -/

/-- `Heights` (`read.rs`). -/
structure Heights where
  lastObserved : Option ℕ
  next : ℕ

/-- `next_height_to_fetch`. -/
def Heights.nextHeightToFetch (heights : Heights) : Option ℕ :=
  match heights.lastObserved with
  | none => none
  | some lastObserved => if heights.next ≤ lastObserved then some heights.next else none

/-- `BlockStream`. -/
structure BlockStream where
  heights : Heights
  heightInFlight : Option ℕ
  paused : Bool

/-- `fetch_block`, of what the sequencer answered in the end. -/
def fetchBlock (height : ℕ) (answer : Except Report SequencerBlock) : Except Report SequencerBlock := do
  let block ← answer
  if height = block.header.height then .ok block
  else
    .error
      [s!"requested block at height `{height}` but received a block at height `{block.header.height}`"]

namespace BlockStream

/-- `BlockStreamBuilder::build`. -/
def build (lastFetchedHeight : Option ℕ) : BlockStream :=
  { heights :=
      { lastObserved := none
        next :=
          match lastFetchedHeight with
          | none => 1
          | some lastFetched => lastFetched + 1 }
    heightInFlight := none
    paused := false }

/-- `set_latest_sequencer_height`. -/
def setLatestSequencerHeight (height : ℕ) (stream : BlockStream) : BlockStream :=
  { stream with heights := { stream.heights with lastObserved := some height } }

/-- The poll of the future in flight, which has been answered or not. -/
def pollFuture (answer : Option (Except Report SequencerBlock)) (height : ℕ) (stream : BlockStream) :
    Option (Except Report SequencerBlock) × BlockStream :=
  match answer with
  | none => (none, stream)
  | some answer => (some (fetchBlock height answer), { stream with heightInFlight := none })

/-- `poll_next`: nothing is yielded, or what came of the fetch of a height. -/
def pollNext (answer : Option (Except Report SequencerBlock)) (stream : BlockStream) :
    Option (Except Report SequencerBlock) × BlockStream :=
  match stream.heightInFlight with
  | some height => stream.pollFuture answer height
  | none =>
    if stream.paused then (none, stream)
    else
      match stream.heights.nextHeightToFetch with
      | none => (none, stream)
      | some height =>
        pollFuture answer height
          { stream with
            heightInFlight := some height
            heights := { stream.heights with next := stream.heights.next + 1 } }

end BlockStream

/-! ## Sessions -/

/-- A session of the relayer. -/
structure Session where
  blockStream : BlockStream
  /-- A block that is forwarded once the channel is free. -/
  forwardOnceFree : Option SequencerBlock
  /-- The loop of the relayer has ended. -/
  stopped : Bool
  /-- `try_confirm_submission_from_last_session`, until it returns. -/
  fromLastSession : Option PreparedSubmission
  submitter : BlobSubmitter
  /-- The future of the submission in flight, until it is ready, and then its result. -/
  ongoing : Option SubmitWithRetry
  ready : Option (Except Report StartedSubmission)

/-- The relayer with its file, and Celestia.  What was signed and what was confirmed is kept beside the
state. -/
structure System where
  file : SubmissionState
  session : Option Session
  included : List BlobTx
  signed : List BlobTx
  confirmed : List ℕ

/-- The capacity of the channel to the submitter. -/
def channelSize : ℕ := 128

namespace Session

/-- `Relayer::run`, when its loop begins. -/
def new (rollupFilter : IncludeRollup) (atStartup : SubmissionStateAtStartup) : Session :=
  { blockStream := .build atStartup.lastCompletedSequencerHeight
    forwardOnceFree := none
    stopped := false
    fromLastSession :=
      match atStartup with
      | .prepared preparedSubmission => some preparedSubmission
      | _ => none
    submitter := .new rollupFilter
      (match atStartup with
      | .fresh => freshIntoStarted
      | .started startedSubmission => startedSubmission
      -- until the last submission of the last session is confirmed or reverted
      | .prepared preparedSubmission => .of preparedSubmission.lastSubmission)
    ongoing := none
    ready := none }

/-- `forward_block_for_submission`. -/
def forwardBlockForSubmission (block : SequencerBlock) (session : Session) : Session :=
  if session.submitter.blocks.length < channelSize then
    { session with submitter := session.submitter.send [block] }
  else
    { session with
      blockStream := { session.blockStream with paused := true }
      forwardOnceFree := some block }

/-- What the stream has yielded: an error ends the loop. -/
def receiveItem (polled : Option (Except Report SequencerBlock) × BlockStream) (session : Session) :
    Session :=
  let session := { session with blockStream := polled.2 }
  match polled.1 with
  | none => session
  | some (.error _) => { session with stopped := true }
  | some (.ok block) => session.forwardBlockForSubmission block

/-- The branch of the stream. -/
def pollStream (answer : Option (Except Report SequencerBlock)) (session : Session) : Session :=
  session.receiveItem (session.blockStream.pollNext answer)

/-- The branch of the block that is forwarded once the channel is free. -/
def forward (session : Session) : Session :=
  match session.forwardOnceFree with
  | none => session
  | some block =>
    if session.submitter.blocks.length < channelSize then
      { session with
        submitter := session.submitter.send [block]
        blockStream := { session.blockStream with paused := false }
        forwardOnceFree := none }
    else session

/-- What the stream yields does not touch the submissions. -/
theorem receiveItem_submitter (polled : Option (Except Report SequencerBlock) × BlockStream)
    (session : Session) :
    (session.receiveItem polled).fromLastSession = session.fromLastSession ∧
      (session.receiveItem polled).ongoing = session.ongoing ∧
        (session.receiveItem polled).ready = session.ready ∧
          (session.receiveItem polled).submitter =
            { session.submitter with blocks := (session.receiveItem polled).submitter.blocks } := by
  unfold Session.receiveItem
  dsimp only
  split
  · exact ⟨rfl, rfl, rfl, rfl⟩
  · exact ⟨rfl, rfl, rfl, rfl⟩
  · unfold Session.forwardBlockForSubmission
    dsimp only
    split_ifs <;> exact ⟨rfl, rfl, rfl, rfl⟩

theorem forward_submitter (session : Session) :
    session.forward.fromLastSession = session.fromLastSession ∧
      session.forward.ongoing = session.ongoing ∧ session.forward.ready = session.ready ∧
        session.forward.submitter =
          { session.submitter with blocks := session.forward.submitter.blocks } := by
  unfold Session.forward
  split
  · exact ⟨rfl, rfl, rfl, rfl⟩
  · split_ifs <;> exact ⟨rfl, rfl, rfl, rfl⟩

section

variable [ext : External] [times : TimeCodec] [formats : PayloadFormats]

/-- A turn of the submitter, which may start a submission or take the result of one. -/
def turn (cancelled : Bool) (order : HashOrder) (session : Session) : Session :=
  let submitter := session.submitter.turn
    { sent := []
      cancelled := cancelled
      submissionResult :=
        session.ready.map (Except.map (·.lastSubmissionCelestiaHeight))
      order := order }
  match session.submitter.ongoingSubmission, submitter.ongoingSubmission with
  | none, some submission =>
    { session with
      submitter := submitter
      ongoing := some (.new submission session.submitter.startedSubmission) }
  | some _, none => { session with submitter := submitter, ready := none }
  | _, _ => { session with submitter := submitter }

end

end Session

/-! ## Events -/

/-- What happens: the relayer starts or crashes, Celestia includes a transaction, and what the branches of
a session wait for. -/
inductive Event where
  | start (rollupFilter : IncludeRollup) (path : String) (written : Bool)
  | crash
  | includes (blobTx : BlobTx)
  | latestHeight (height : ℕ)
  | pollStream (answer : Option (Except Report SequencerBlock))
  | forward
  | turn (cancelled : Bool) (order : HashOrder)
  | answer (answer : Answer)
  | confirmFromLastSession (celestiaHeight : ℕ) (written : Bool)
  | revertFromLastSession (written : Bool)

namespace System

/-- A fresh file. -/
def fresh : System :=
  { file := .fresh, session := none, included := [], signed := [], confirmed := [] }

section

variable [ext : External] [times : TimeCodec] [formats : PayloadFormats]

/-- The relayer starts, if the file is valid and can be written. -/
def start (rollupFilter : IncludeRollup) (path : String) (written : Bool) (s : System) : System :=
  match s.session, SubmissionStateAtStartup.newFromPath path written s.file with
  | none, .ok atStartup => { s with session := some (.new rollupFilter atStartup) }
  | _, _ => s

/-- What a branch of the loop of the relayer does, as long as the loop runs. -/
def inLoop (branch : Session → Session) (s : System) : System :=
  match s.session with
  | none => s
  | some session =>
    if session.stopped then s else { s with session := some (branch session) }

/-- The submitter starts its loop when the last submission of the last session is settled; an error is that
of its task, with which the relayer ends. -/
def settle (result : Except Report StartedSubmission) (session : Session) (s : System) : System :=
  match result with
  | .error _ => { s with session := none }
  | .ok startedSubmission =>
    { s with
      session := some
        { session with
          fromLastSession := none
          submitter := { session.submitter with startedSubmission := startedSubmission } } }

/-- `try_confirm_submission_from_last_session`, if Celestia confirms. -/
def confirmFromLastSession (celestiaHeight : ℕ) (written : Bool) (s : System) : System :=
  match s.session with
  | none => s
  | some session =>
    match session.fromLastSession with
    | none => s
    | some prepared =>
      if Includes s.included prepared.blobTxHash then
        let (result, file) := prepared.intoStarted written celestiaHeight s.file
        let s := { s with file := file }
        match result with
        | .error _ => s.settle result session
        | .ok startedSubmission =>
          { s with confirmed := s.confirmed ++ [startedSubmission.lastSubmissionSequencerHeight] }.settle
            result session
      else s

/-- `try_confirm_submission_from_last_session`, if the time is over. -/
def revertFromLastSession (written : Bool) (s : System) : System :=
  match s.session with
  | none => s
  | some session =>
    match session.fromLastSession with
    | none => s
    | some prepared =>
      let (result, file) := prepared.revert written s.file
      { s with file := file }.settle result session

/-- An answer to the submission in flight. -/
def answer (a : Answer) (s : System) : System :=
  match s.session with
  | none => s
  | some session =>
    match session.ongoing with
    | none => s
    | some submission =>
      let (progress, file) := submission.answer s.included s.file a
      let s := { s with file := file, signed := s.signed ++ submission.signs a }
      match progress with
      | .ongoing submission => { s with session := some { session with ongoing := some submission } }
      | .ready result =>
        let s := { s with session := some { session with ongoing := none, ready := some result } }
        match result with
        | .error _ => s
        | .ok startedSubmission =>
          { s with confirmed := s.confirmed ++ [startedSubmission.lastSubmissionSequencerHeight] }

def step (s : System) : Event → System
  | .start rollupFilter path written => s.start rollupFilter path written
  | .crash => { s with session := none }
  | .includes blobTx => { s with included := s.included ++ [blobTx] }
  | .latestHeight height => s.inLoop fun session =>
    { session with blockStream := session.blockStream.setLatestSequencerHeight height }
  | .pollStream answer => s.inLoop (·.pollStream answer)
  | .forward => s.inLoop Session.forward
  | .turn cancelled order =>
    match s.session with
    | none => s
    | some session =>
      if session.fromLastSession.isSome then s
      else { s with session := some (session.turn cancelled order) }
  | .answer answer => s.answer answer
  | .confirmFromLastSession celestiaHeight written => s.confirmFromLastSession celestiaHeight written
  | .revertFromLastSession written => s.revertFromLastSession written

/-- The state after some events. -/
def run (s : System) (events : List Event) : System := events.foldl step s

/-- Celestia reports the hash of the transaction that was broadcast. -/
def reports (s : System) : Event → Bool
  | .answer answer => s.session.all fun session => session.ongoing.all (·.reports answer)
  | _ => true

/-- Celestia does so in all of some events. -/
def reportsAll (s : System) : List Event → Bool
  | [] => true
  | event :: events => s.reports event && (s.step event).reportsAll events

end

end System

/-! ## Consecutive heights -/

/-- The heights of blocks are consecutive. -/
def ConsecutiveFrom (first : ℕ) (blocks : List SequencerBlock) : Prop :=
  blocks.map (·.header.height) = List.range' first blocks.length

namespace ConsecutiveFrom

variable {first : ℕ} {block : SequencerBlock} {blocks blocks' : List SequencerBlock}

theorem append_iff : ConsecutiveFrom first (blocks ++ blocks') ↔
    ConsecutiveFrom first blocks ∧ ConsecutiveFrom (first + blocks.length) blocks' := by
  unfold ConsecutiveFrom
  rw [List.map_append, List.length_append, ← List.range'_append_1]
  constructor
  · intro h
    exact List.append_inj h (by rw [List.length_map, List.length_range'])
  · rintro ⟨h, h'⟩
    rw [h, h']

theorem cons_iff : ConsecutiveFrom first (block :: blocks) ↔
    block.header.height = first ∧ ConsecutiveFrom (first + 1) blocks := by
  unfold ConsecutiveFrom
  rw [List.map_cons, List.length_cons, List.range'_succ, List.cons.injEq]

theorem singleton : ConsecutiveFrom block.header.height [block] := rfl

theorem mem_height (h : ConsecutiveFrom first blocks) {height : ℕ} :
    (∃ block ∈ blocks, block.header.height = height) ↔
      first ≤ height ∧ height < first + blocks.length := by
  rw [← List.mem_map, h, List.mem_range'_1]

theorem increasing (h : ConsecutiveFrom first blocks) : Increasing blocks := by
  have hpairwise : (blocks.map (·.header.height)).Pairwise (· < ·) := by
    rw [h]
    exact List.pairwise_lt_range'
  exact List.pairwise_map.mp hpairwise

/-- The blocks above a height. -/
theorem filter_lt (h : ConsecutiveFrom (first + 1) blocks) {start : ℕ} (hle : first ≤ start) :
    ConsecutiveFrom (start + 1) (blocks.filter (start < ·.header.height)) := by
  induction blocks generalizing first with
  | nil => rfl
  | cons block blocks ih =>
    have hall := h
    obtain ⟨hheight, hrest⟩ := cons_iff.mp h
    rcases hle.eq_or_lt with rfl | hlt
    · have hself : (block :: blocks).filter (first < ·.header.height) = block :: blocks := by
        refine List.filter_eq_self.mpr ?_
        intro b hb
        have hb := (hall.mem_height).mp ⟨b, hb, rfl⟩
        exact decide_eq_true (by omega)
      rw [hself]
      exact hall
    · rw [List.filter_cons_of_neg (by simp; omega)]
      exact ih hrest hlt

end ConsecutiveFrom

/-! ## The blocks that are fetched -/

/-- The blocks that were fetched in a session. -/
def Session.fetched (session : Session) : List SequencerBlock :=
  session.submitter.received ++ session.submitter.blocks ++ session.forwardOnceFree.toList

/-- The blocks are fetched one height after the other, and the stream is paused while one of them waits for
the channel. -/
structure Feeds (last : ℕ) (session : Session) : Prop where
  consecutive : ConsecutiveFrom (last + 1) session.fetched
  next : session.stopped = false → session.blockStream.heights.next =
    last + 1 + session.fetched.length + session.blockStream.heightInFlight.toList.length
  inFlight : session.stopped = false → ∀ height, session.blockStream.heightInFlight = some height →
    height = last + 1 + session.fetched.length
  parked : session.forwardOnceFree.isSome →
    session.blockStream.paused = true ∧ session.blockStream.heightInFlight = none

theorem fetchBlock_eq_ok {height : ℕ} {answer : Except Report SequencerBlock} {block : SequencerBlock}
    (h : fetchBlock height answer = .ok block) : block.header.height = height := by
  obtain ⟨block', -, h⟩ := Codec.bind_eq_ok.mp h
  split_ifs at h with hheight
  cases h
  exact hheight.symm

/-- A block that is sent comes behind the others. -/
theorem fetched_send {session : Session} {block : SequencerBlock}
    (hnone : session.forwardOnceFree = none) :
    ({ session with submitter := session.submitter.send [block] } : Session).fetched =
      session.fetched ++ [block] := by
  unfold Session.fetched BlobSubmitter.send
  simp only [hnone, Option.toList_none, List.append_nil, List.append_assoc]

theorem Feeds.latestHeight {last : ℕ} {session : Session} (h : Feeds last session) (height : ℕ) :
    Feeds last
      { session with blockStream := session.blockStream.setLatestSequencerHeight height } :=
  ⟨h.consecutive, h.next, h.inFlight, h.parked⟩

/-! ## The submissions of a session -/

section

variable [ext : External] [times : TimeCodec] [formats : PayloadFormats]

/-- The greatest height of a submission of consecutive blocks. -/
theorem greatest_of_consecutive {rollupFilter : IncludeRollup} {submission : Submission}
    {blocks : List SequencerBlock} (hcarries : NextSubmission.Carries rollupFilter submission blocks)
    {last : ℕ} (h : ConsecutiveFrom (last + 1) blocks) :
    submission.input.greatestSequencerHeight.getD 0 = last + submission.input.numBlocks := by
  have hpos : 0 < blocks.length := List.length_pos_of_ne_nil hcarries.ne_nil
  rw [hcarries.input, Input.numBlocks_ofBlocks]
  obtain ⟨block, hblock, hgreatest⟩ : ∃ block ∈ blocks,
      (Input.ofBlocks rollupFilter blocks).greatestSequencerHeight = some block.header.height :=
    Input.greatestSequencerHeight_ofBlocks hcarries.ne_nil
  have hheight := h.mem_height.mp ⟨block, hblock, rfl⟩
  obtain ⟨b, hb, hlast⟩ := h.mem_height.mpr
    (show last + 1 ≤ last + blocks.length ∧ last + blocks.length < last + 1 + blocks.length by omega)
  have hmem : last + blocks.length ∈ (Input.ofBlocks rollupFilter blocks).sequencerHeights :=
    Input.mem_sequencerHeights_ofBlocks.mpr ⟨b, hb, hlast⟩
  have hle := Finset.le_max_of_eq hmem hgreatest
  rw [hgreatest, Option.getD_some]
  omega

/-- The submitter of a session whose blocks come from the height `last` on, and that started at the height
`start`: the submissions that were confirmed are all but the one in flight, and what they carry follows the
starting height. -/
structure Submits (rollupFilter : IncludeRollup) (last start : ℕ) (s : BlobSubmitter) : Prop where
  le : last ≤ start
  consecutive : ConsecutiveFrom (last + 1) (s.received ++ s.blocks)
  relays : ∃ parts waiting lost, Relays rollupFilter start s parts waiting lost
  confirmed : ∃ done, s.taken = done ++ s.ongoingSubmission.toList ∧
    s.startedSubmission.lastSubmissionSequencerHeight = start + (done.map (·.input.numBlocks)).sum

variable {rollupFilter : IncludeRollup} {last start : ℕ} {s : BlobSubmitter}

theorem submits_new (rollupFilter : IncludeRollup) {started : StartedSubmission}
    (hle : last ≤ started.lastSubmissionSequencerHeight) {blocks : List SequencerBlock}
    (hblocks : ConsecutiveFrom (last + 1) blocks) :
    Submits rollupFilter last started.lastSubmissionSequencerHeight
      { BlobSubmitter.new rollupFilter started with blocks := blocks } where
  le := hle
  consecutive := hblocks
  relays := by
    have hnew := relays_new rollupFilter started
    exact ⟨[], [], [], ⟨⟨hnew.sameFilter, hnew.carried, hnew.accumulated, hnew.all, hnew.ongoing,
      hnew.startLe, hnew.confirmed⟩, hnew.ended, hnew.pending⟩⟩
  confirmed := ⟨[], rfl, rfl⟩

/-- The numbers of blocks that submissions carry. -/
theorem sum_numBlocks {submissions : List Submission} {parts : List (List SequencerBlock)}
    (h : List.Forall₂ (NextSubmission.Carries rollupFilter) submissions parts) :
    (submissions.map (·.input.numBlocks)).sum = parts.flatten.length := by
  induction h with
  | nil => rfl
  | @cons submission part submissions parts hcarries _ ih =>
    rw [List.map_cons, List.sum_cons, List.flatten_cons, List.length_append, ih, hcarries.input,
      Input.numBlocks_ofBlocks]

/-- The submission in flight carries the blocks that follow those that were confirmed. -/
theorem Submits.exists_ongoing (h : Submits rollupFilter last start s) {submission : Submission}
    (hongoing : s.ongoingSubmission = some submission) :
    ∃ blocks, NextSubmission.Carries rollupFilter submission blocks ∧
      ConsecutiveFrom (s.startedSubmission.lastSubmissionSequencerHeight + 1) blocks := by
  obtain ⟨parts, waiting, lost, hrelays⟩ := h.relays
  obtain ⟨done, htaken, hstarted⟩ := h.confirmed
  have hcarried := hrelays.carried
  rw [htaken, hongoing] at hcarried
  obtain ⟨before, rest, hparts, hbefore, hrest⟩ : ∃ before rest, parts = before ++ rest ∧
      List.Forall₂ (NextSubmission.Carries rollupFilter) done before ∧
        List.Forall₂ (NextSubmission.Carries rollupFilter) [submission] rest :=
    ⟨_, _, (List.take_append_drop done.length parts).symm,
      (List.forall₂_take_append _ _ _ hcarried.flip).flip,
      (List.forall₂_drop_append _ _ _ hcarried.flip).flip⟩
  obtain ⟨blocks, tail, hcarries, htail, rfl⟩ := List.forall₂_cons_left_iff.mp hrest
  obtain rfl := List.forall₂_nil_left_iff.mp htail
  have hreceived := (ConsecutiveFrom.append_iff.mp h.consecutive).1.filter_lt h.le
  rw [hrelays.all, hparts, List.flatten_append, List.flatten_cons, List.flatten_nil, List.append_nil,
    List.append_assoc, List.append_assoc] at hreceived
  have hblocks := (ConsecutiveFrom.append_iff.mp (ConsecutiveFrom.append_iff.mp hreceived).2).1
  refine ⟨blocks, hcarries, ?_⟩
  rw [hstarted, sum_numBlocks hbefore, Nat.add_right_comm]
  exact hblocks

namespace BlobSubmitter

/-- Adding a block leaves what is submitted as it is. -/
theorem add_ongoing (order : HashOrder) (block : SequencerBlock) (s : BlobSubmitter) :
    (s.addSequencerBlockToNextSubmission order block).ongoingSubmission = s.ongoingSubmission ∧
      (s.addSequencerBlockToNextSubmission order block).startedSubmission = s.startedSubmission := by
  unfold addSequencerBlockToNextSubmission
  dsimp only
  split <;> exact ⟨rfl, rfl⟩

theorem receiveBlock_ongoing (order : HashOrder) (s : BlobSubmitter) :
    (s.receiveBlock order).taken = s.taken ∧
      (s.receiveBlock order).ongoingSubmission = s.ongoingSubmission ∧
        (s.receiveBlock order).startedSubmission = s.startedSubmission := by
  unfold receiveBlock
  split_ifs
  · cases s.blocks with
    | nil => exact ⟨rfl, rfl, rfl⟩
    | cons block blocks =>
      dsimp only
      split_ifs
      · exact ⟨rfl, rfl, rfl⟩
      · exact ⟨add_taken .., add_ongoing ..⟩
  · exact ⟨rfl, rfl, rfl⟩

theorem startSubmission_ongoing (order : HashOrder) (submission : Submission) (s : BlobSubmitter) :
    (s.startSubmission order submission).ongoingSubmission = some submission ∧
      (s.startSubmission order submission).startedSubmission = s.startedSubmission := by
  unfold startSubmission
  dsimp only
  split
  · exact ⟨rfl, rfl⟩
  · exact add_ongoing ..

end BlobSubmitter

/-- A turn keeps what is known of the submissions. -/
theorem Submits.turn (h : Submits rollupFilter last start s) {t : Turn} (hsent : t.sent = []) :
    Submits rollupFilter last start (s.turn t) := by
  have hreceived : (s.turn t).received ++ (s.turn t).blocks = s.received ++ s.blocks := by
    rw [BlobSubmitter.turn_received, hsent, List.append_nil]
  have hincreasing : Increasing (s.received ++ (s.blocks ++ t.sent)) := by
    rw [hsent, List.append_nil]
    exact h.consecutive.increasing
  obtain ⟨parts, waiting, lost, hrelays⟩ := h.relays
  have hsend : s.send t.sent = s := by
    unfold BlobSubmitter.send
    rw [hsent, List.append_nil]
  refine ⟨h.le, hreceived ▸ h.consecutive, hrelays.turn t hincreasing, ?_⟩
  obtain ⟨done, htaken, hstarted⟩ := h.confirmed
  have hturn := s.turns_turn t
  rw [hsend] at hturn
  generalize s.turn t = s' at hturn
  cases hturn with
  | stopped | cancelled | failed => exact ⟨done, htaken, hstarted⟩
  | @confirmed submission celestiaHeight hreason hongoing =>
    obtain ⟨blocks, hcarries, hblocks⟩ := h.exists_ongoing hongoing
    refine ⟨done ++ [submission], ?_, ?_⟩
    · rw [htaken, hongoing]
      exact (List.append_nil _).symm
    · show submission.input.greatestSequencerHeight.getD 0 = _
      rw [greatest_of_consecutive hcarries hblocks, hstarted, List.map_append, List.sum_append,
        List.map_singleton, List.sum_singleton, Nat.add_assoc]
  | inFlight =>
    obtain ⟨htaken', hongoing', hstarted'⟩ := s.receiveBlock_ongoing t.order
    exact ⟨done, by rw [htaken', hongoing', htaken], by rw [hstarted', hstarted]⟩
  | nothingTaken =>
    obtain ⟨htaken', hongoing', hstarted'⟩ :=
      ({ s with nextSubmission := s.nextSubmission.take.2 }).receiveBlock_ongoing t.order
    exact ⟨done, by rw [htaken', hongoing']; exact htaken, by rw [hstarted']; exact hstarted⟩
  | @taken submission hreason hongoing htake =>
    obtain ⟨hongoing', hstarted'⟩ :=
      ({ s with nextSubmission := s.nextSubmission.take.2 }).startSubmission_ongoing t.order submission
    refine ⟨done, ?_, by rw [hstarted']; exact hstarted⟩
    rw [BlobSubmitter.startSubmission_taken, hongoing']
    show s.taken ++ [submission] = _
    rw [htaken, hongoing, Option.toList_none, List.append_nil]
    rfl

/-- A block that follows is sent. -/
theorem Submits.send (h : Submits rollupFilter last start s) {block : SequencerBlock}
    (hblock : ConsecutiveFrom (last + 1) (s.received ++ s.blocks ++ [block])) :
    Submits rollupFilter last start (s.send [block]) := by
  obtain ⟨parts, waiting, lost, hrelays⟩ := h.relays
  refine ⟨h.le, ?_, ⟨parts, waiting, lost, ⟨⟨hrelays.sameFilter, hrelays.carried, hrelays.accumulated,
    hrelays.all, hrelays.ongoing, hrelays.startLe, hrelays.confirmed⟩, hrelays.ended,
    hrelays.pending⟩⟩, h.confirmed⟩
  rw [List.append_assoc] at hblock
  exact hblock

section

variable {session : Session}

/-- What the stream yields is the block that follows. -/
theorem Feeds.receiveItem (h : Feeds last session) (hstopped : session.stopped = false)
    (hsubmits : Submits rollupFilter last start session.submitter) {height : ℕ}
    (hflight : session.blockStream.heightInFlight = some height)
    (answer : Option (Except Report SequencerBlock)) :
    Feeds last (session.receiveItem (session.blockStream.pollFuture answer height)) ∧
      Submits rollupFilter last start
        (session.receiveItem (session.blockStream.pollFuture answer height)).submitter := by
  have hnone : session.forwardOnceFree = none := by
    by_contra hsome
    have hidle := (h.parked (Option.isSome_iff_ne_none.mpr hsome)).2
    rw [hflight] at hidle
    cases hidle
  have hheight := h.inFlight hstopped height hflight
  have hnext := h.next hstopped
  rw [hflight] at hnext
  unfold BlockStream.pollFuture
  cases answer with
  | none => exact ⟨h, hsubmits⟩
  | some answer =>
    unfold Session.receiveItem
    dsimp only
    cases hfetch : fetchBlock height answer with
    | error e =>
      refine ⟨⟨h.consecutive, fun hrun => (by cases hrun), fun hrun => (by cases hrun), ?_⟩, hsubmits⟩
      intro hsome
      rw [hnone] at hsome
      cases hsome
    | ok block =>
      have hblock : ConsecutiveFrom (last + 1) (session.fetched ++ [block]) := by
        refine ConsecutiveFrom.append_iff.mpr ⟨h.consecutive, ?_⟩
        rw [← hheight, ← fetchBlock_eq_ok hfetch]
        exact .singleton
      unfold Session.forwardBlockForSubmission
      dsimp only
      split_ifs with hfree
      · refine ⟨⟨?_, fun _ => ?_, fun _ _ hsome => (by cases hsome), fun hsome => ?_⟩, ?_⟩
        · exact (fetched_send hnone).symm ▸ hblock
        · have hsend : ({ session with submitter := session.submitter.send [block] } : Session).fetched =
              session.fetched ++ [block] := fetched_send hnone
          have hlength := congrArg List.length hsend
          rw [List.length_append, List.length_singleton] at hlength
          show session.blockStream.heights.next = last + 1 + List.length (Session.fetched
            { session with submitter := session.submitter.send [block] }) + 0
          rw [hlength, hnext]
          rfl
        · rw [hnone] at hsome
          cases hsome
        · refine hsubmits.send ?_
          unfold Session.fetched at hblock
          rw [hnone, Option.toList_none, List.append_nil] at hblock
          exact hblock
      · have hfetched : session.fetched ++ [block] =
            session.submitter.received ++ session.submitter.blocks ++ [block] := by
          unfold Session.fetched
          rw [hnone, Option.toList_none, List.append_nil]
        refine ⟨⟨?_, fun _ => ?_, fun _ _ hsome => (by cases hsome), fun _ => ⟨rfl, rfl⟩⟩, hsubmits⟩
        · rw [hfetched] at hblock
          exact hblock
        · show session.blockStream.heights.next = last + 1 +
            (session.submitter.received ++ session.submitter.blocks ++ [block]).length + 0
          rw [← hfetched, List.length_append, hnext]
          rfl

/-- A poll of the stream fetches the next height. -/
theorem Feeds.pollStream (h : Feeds last session) (hstopped : session.stopped = false)
    (hsubmits : Submits rollupFilter last start session.submitter)
    (answer : Option (Except Report SequencerBlock)) :
    Feeds last (session.pollStream answer) ∧
      Submits rollupFilter last start (session.pollStream answer).submitter := by
  unfold Session.pollStream BlockStream.pollNext
  cases hflight : session.blockStream.heightInFlight with
  | some height => exact h.receiveItem hstopped hsubmits hflight answer
  | none =>
    dsimp only
    split_ifs with hpaused
    · exact ⟨h, hsubmits⟩
    · cases hnext : session.blockStream.heights.nextHeightToFetch with
      | none => exact ⟨h, hsubmits⟩
      | some height =>
        have hheight : height = session.blockStream.heights.next := by
          unfold Heights.nextHeightToFetch at hnext
          split at hnext
          · cases hnext
          · split_ifs at hnext
            exact (Option.some.inj hnext).symm
        have hlast := h.next hstopped
        rw [hflight, Option.toList_none, List.length_nil, Nat.add_zero] at hlast
        let flying : Session :=
          { session with
            blockStream :=
              { session.blockStream with
                heightInFlight := some height
                heights :=
                  { session.blockStream.heights with next := session.blockStream.heights.next + 1 } } }
        have hflying : Feeds last flying := by
          refine ⟨h.consecutive, fun _ => ?_, fun _ height' hsome => ?_, fun hsome => ?_⟩
          · show session.blockStream.heights.next + 1 = last + 1 + session.fetched.length + 1
            rw [hlast]
          · obtain rfl := Option.some.inj hsome
            exact hheight.trans hlast
          · exact absurd (h.parked hsome).1 hpaused
        exact hflying.receiveItem hstopped hsubmits rfl answer

/-- The block that waits for the channel is sent. -/
theorem Feeds.forward (h : Feeds last session)
    (hsubmits : Submits rollupFilter last start session.submitter) :
    Feeds last session.forward ∧ Submits rollupFilter last start session.forward.submitter := by
  unfold Session.forward
  cases hforward : session.forwardOnceFree with
  | none => exact ⟨h, hsubmits⟩
  | some block =>
    dsimp only
    split_ifs with hfree
    · have hfetched : session.fetched =
          session.submitter.received ++ session.submitter.blocks ++ [block] := by
        unfold Session.fetched
        rw [hforward]
        rfl
      have hsame : session.fetched = session.submitter.received ++
          (session.submitter.blocks ++ [block]) ++ [] := by
        rw [hfetched, List.append_nil, List.append_assoc]
      have hidle := (h.parked (by rw [hforward]; rfl)).2
      refine ⟨⟨?_, fun hrun => ?_, fun _ height hsome => ?_, fun hsome => (by cases hsome)⟩, ?_⟩
      · have hconsecutive := h.consecutive
        rw [hsame] at hconsecutive
        exact hconsecutive
      · have hnext := h.next hrun
        rw [hsame] at hnext
        exact hnext
      · rw [show session.blockStream.heightInFlight = some height from hsome] at hidle
        cases hidle
      · refine hsubmits.send ?_
        rw [← hfetched]
        exact h.consecutive
    · exact ⟨h, hsubmits⟩

end

/-! ## Heights on Celestia -/

/-- The blobs are those of a submission with a block of a height. -/
def ContainsHeight (blobs : List Blob) (height : ℕ) : Prop :=
  ∃ (rollupFilter : IncludeRollup) (submission : Submission) (blocks : List SequencerBlock),
    NextSubmission.Carries rollupFilter submission blocks ∧ submission.payload.blobs = blobs ∧
      ∃ block ∈ blocks, block.header.height = height

/-- The blobs have all heights above one, and up to another. -/
def Spans (blobs : List Blob) (last height : ℕ) : Prop :=
  ∀ k, last < k → k ≤ height → ContainsHeight blobs k

/-- All heights up to one are in transactions that were included. -/
def Covered (included : List BlobTx) (height : ℕ) : Prop :=
  ∀ k, 1 ≤ k → k ≤ height → ∃ blobTx ∈ included, ContainsHeight blobTx.blobs k

theorem Covered.mono {included included' : List BlobTx} {height : ℕ} (h : Covered included height)
    (hsub : included ⊆ included') : Covered included' height := by
  intro k hpos hle
  obtain ⟨blobTx, hmem, hcontains⟩ := h k hpos hle
  exact ⟨blobTx, hsub hmem, hcontains⟩

/-- A transaction that follows is included. -/
theorem Covered.extend {included : List BlobTx} {last height : ℕ} (h : Covered included last)
    {blobTx : BlobTx} (hmem : blobTx ∈ included) (hspans : Spans blobTx.blobs last height) :
    Covered included height := by
  intro k hpos hle
  by_cases hlast : k ≤ last
  · exact h k hpos hlast
  · exact ⟨blobTx, hmem, hspans k (by omega) hle⟩

/-! ## A session -/

/-- The submission in flight: the file has what it has prepared. -/
structure Flies (file : SubmissionState) (submitter : BlobSubmitter) (flight : SubmitWithRetry) :
    Prop where
  started : flight.startedSubmission = submitter.startedSubmission
  recorded : file.recorded = flight.startedSubmission.lastSubmissionSequencerHeight
  submission : ∃ submission, submitter.ongoingSubmission = some submission ∧
    flight.blobs = submission.payload.blobs ∧
      flight.largestSequencerHeight = submission.input.greatestSequencerHeight.getD 0
  waits : ∀ prepared txHash, SubmitWithRetry.Waits flight.attempt prepared txHash →
    txHash = prepared.blobTxHash ∧ file = prepared.state ∧
      prepared.sequencerHeight = flight.largestSequencerHeight

/-- What holds of a session and of the file: the file has what the submitter started with last, or what is
in flight, or what was confirmed of it. -/
structure InSession (rollupFilter : IncludeRollup) (last start : ℕ) (file : SubmissionState)
    (session : Session) : Prop where
  feeds : Feeds last session
  submits : Submits rollupFilter last start session.submitter
  settling : ∀ prepared, session.fromLastSession = some prepared → file = prepared.state ∧
    last = prepared.lastSubmission.sequencerHeight ∧ session.ongoing = none ∧ session.ready = none ∧
      session.submitter =
        { BlobSubmitter.new rollupFilter (.of prepared.lastSubmission) with
          blocks := session.submitter.blocks }
  idle : session.fromLastSession = none → session.submitter.ongoingSubmission = none →
    file.recorded = session.submitter.startedSubmission.lastSubmissionSequencerHeight
  ongoing : ∀ flight, session.ongoing = some flight → Flies file session.submitter flight
  ready : ∀ started, session.ready = some (.ok started) → ∃ submission,
    session.submitter.ongoingSubmission = some submission ∧
      started.lastSubmissionSequencerHeight = submission.input.greatestSequencerHeight.getD 0 ∧
        file.recorded = started.lastSubmissionSequencerHeight
  busy : session.ongoing.isSome ∨ session.ready.isSome →
    session.submitter.ongoingSubmission.isSome
  exclusive : session.ongoing.isSome → session.ready = none

section

variable {file : SubmissionState} {session : Session}

theorem inSession_new (rollupFilter : IncludeRollup) (atStartup : SubmissionStateAtStartup) :
    InSession rollupFilter (atStartup.lastCompletedSequencerHeight.getD 0)
      (Session.new rollupFilter atStartup).submitter.startedSubmission.lastSubmissionSequencerHeight
      atStartup.file (Session.new rollupFilter atStartup) := by
  have hnil : ConsecutiveFrom (atStartup.lastCompletedSequencerHeight.getD 0 + 1) [] := rfl
  refine
    { feeds :=
        { consecutive := hnil
          next := fun _ => ?_
          inFlight := fun _ _ h => (by cases h)
          parked := fun h => (by cases h) }
      submits := submits_new rollupFilter ?_ hnil
      settling := ?_
      idle := ?_
      ongoing := fun _ h => (by cases h)
      ready := fun _ h => (by cases h)
      busy := fun h => (by rcases h with h | h <;> cases h)
      exclusive := fun h => (by cases h) }
  · cases atStartup <;> rfl
  · cases atStartup <;> exact le_rfl
  · intro prepared h
    cases atStartup with
    | fresh => cases h
    | started => cases h
    | prepared prepared' =>
      obtain rfl := Option.some.inj h
      exact ⟨rfl, rfl, rfl, rfl, rfl⟩
  · intro h _
    cases atStartup with
    | fresh => rfl
    | started => rfl
    | prepared => cases h

/-- What the loop of the relayer does is nothing to the submissions. -/
theorem InSession.inLoop (h : InSession rollupFilter last start file session) {session' : Session}
    (hfeeds : Feeds last session') (hsubmits : Submits rollupFilter last start session'.submitter)
    (hlast : session'.fromLastSession = session.fromLastSession)
    (hongoing : session'.ongoing = session.ongoing) (hready : session'.ready = session.ready)
    (hsubmitter : session'.submitter =
      { session.submitter with blocks := session'.submitter.blocks }) :
    InSession rollupFilter last start file session' where
  feeds := hfeeds
  submits := hsubmits
  settling := by
    intro prepared hsome
    obtain ⟨hfile, hheight, hno, hnr, hnew⟩ := h.settling prepared (hlast ▸ hsome)
    refine ⟨hfile, hheight, hongoing.trans hno, hready.trans hnr, ?_⟩
    rw [hsubmitter, hnew]
  idle := by
    intro hnone hno
    rw [hsubmitter] at hno ⊢
    exact h.idle (hlast ▸ hnone) hno
  ongoing := by
    intro flight hsome
    obtain ⟨hstarted, hrecorded, hsubmission, hwaits⟩ := h.ongoing flight (hongoing ▸ hsome)
    rw [hsubmitter]
    exact ⟨hstarted, hrecorded, hsubmission, hwaits⟩
  ready := by
    intro started hsome
    rw [hsubmitter]
    exact h.ready started (hready ▸ hsome)
  busy := by
    rw [hongoing, hready, hsubmitter]
    exact h.busy
  exclusive := by
    rw [hongoing, hready]
    exact h.exclusive

/-- A submission in flight is of the heights that follow those that are recorded. -/
theorem Flies.spans {flight : SubmitWithRetry} (h : Flies file session.submitter flight)
    (hsubmits : Submits rollupFilter last start session.submitter) :
    Spans flight.blobs file.recorded flight.largestSequencerHeight := by
  obtain ⟨submission, hongoing, hblobs, hlargest⟩ := h.submission
  obtain ⟨blocks, hcarries, hblocks⟩ := hsubmits.exists_ongoing hongoing
  rw [hblobs, hlargest, h.recorded, h.started]
  intro height hlt hle
  refine ⟨rollupFilter, submission, blocks, hcarries, rfl, ?_⟩
  rw [greatest_of_consecutive hcarries hblocks, hcarries.input, Input.numBlocks_ofBlocks] at hle
  exact hblocks.mem_height.mpr (by omega)

/-- What a turn does to the submission in flight. -/
theorem BlobSubmitter.turn_ongoing (s : BlobSubmitter) (t : Turn) :
    (s.turn t).ongoingSubmission = s.ongoingSubmission ∧
        (s.turn t).startedSubmission = s.startedSubmission ∨
      s.ongoingSubmission = none ∧ (∃ submission, (s.turn t).ongoingSubmission = some submission) ∧
        (s.turn t).startedSubmission = s.startedSubmission ∨
      ∃ submission celestiaHeight, s.ongoingSubmission = some submission ∧
        t.submissionResult = some (.ok celestiaHeight) ∧ (s.turn t).ongoingSubmission = none ∧
          (s.turn t).startedSubmission = submitBlobs submission celestiaHeight := by
  unfold BlobSubmitter.turn BlobSubmitter.send
  dsimp only
  split
  case h_1 => exact Or.inl ⟨rfl, rfl⟩
  case h_2 =>
    split_ifs
    · exact Or.inl ⟨rfl, rfl⟩
    · split
      case h_1 submission hongoing =>
        split
        case h_1 celestiaHeight hresult =>
          exact Or.inr (Or.inr ⟨submission, celestiaHeight, hongoing, hresult, rfl, rfl⟩)
        case h_2 => exact Or.inl ⟨rfl, rfl⟩
        case h_3 => exact Or.inl (receiveBlock_ongoing ..).2
      case h_2 hongoing =>
        split
        case h_1 submission htake =>
          obtain ⟨hsome, hstarted⟩ := startSubmission_ongoing t.order submission
            { s with blocks := s.blocks ++ t.sent, nextSubmission := s.nextSubmission.take.2 }
          exact Or.inr (Or.inl ⟨hongoing, ⟨submission, hsome⟩, hstarted⟩)
        case h_2 => exact Or.inl (receiveBlock_ongoing ..).2

/-- The submitter goes on with what the submission in flight has ended with. -/
theorem InSession.takes (h : InSession rollupFilter last start file session) {submission : Submission}
    (hongoing : session.submitter.ongoingSubmission = some submission) {celestiaHeight : ℕ}
    (hresult : session.ready.map (Except.map (·.lastSubmissionCelestiaHeight)) =
      some (.ok celestiaHeight)) :
    ∃ started, session.ready = some (.ok started) ∧
      file.recorded = started.lastSubmissionSequencerHeight ∧
        BlobSubmitter.submitBlobs submission celestiaHeight = started := by
  obtain ⟨result, hready, hmap⟩ := Option.map_eq_some_iff.mp hresult
  cases result with
  | error e => cases hmap
  | ok started =>
    obtain ⟨submission', hongoing', hheight, hrecorded⟩ := h.ready started hready
    obtain rfl := Option.some.inj (hongoing.symm.trans hongoing')
    obtain rfl := Except.ok.inj hmap
    refine ⟨started, hready, hrecorded, ?_⟩
    unfold BlobSubmitter.submitBlobs
    rw [← hheight]

/-- A turn takes what is ready, or puts a submission into flight. -/
theorem InSession.turn (h : InSession rollupFilter last start file session)
    (hsettled : session.fromLastSession = none) (cancelled : Bool) (order : HashOrder) :
    InSession rollupFilter last start file (session.turn cancelled order) := by
  let t : Turn :=
    { sent := []
      cancelled := cancelled
      submissionResult := session.ready.map (Except.map (·.lastSubmissionCelestiaHeight))
      order := order }
  have hsubmits : Submits rollupFilter last start (session.submitter.turn t) := h.submits.turn rfl
  have hreceived : (session.submitter.turn t).received ++ (session.submitter.turn t).blocks =
      session.submitter.received ++ session.submitter.blocks := by
    rw [BlobSubmitter.turn_received]
    exact congrArg _ (List.append_nil _)
  -- the blocks that were fetched are the same
  have hfeeds {ongoing : Option SubmitWithRetry} {ready : Option (Except Report StartedSubmission)} :
      Feeds last
        { session with
          submitter := session.submitter.turn t
          ongoing := ongoing
          ready := ready } := by
    have hfetched : ({ session with
        submitter := session.submitter.turn t
        ongoing := ongoing
        ready := ready } : Session).fetched = session.fetched := by
      unfold Session.fetched
      exact congrArg (· ++ session.forwardOnceFree.toList) hreceived
    refine ⟨?_, ?_, ?_, h.feeds.parked⟩
    · rw [hfetched]
      exact h.feeds.consecutive
    · rw [hfetched]
      exact h.feeds.next
    · rw [hfetched]
      exact h.feeds.inFlight
  have hsettling {ongoing : Option SubmitWithRetry}
      {ready : Option (Except Report StartedSubmission)} : ∀ prepared, session.fromLastSession =
      some prepared → file = prepared.state ∧ last = prepared.lastSubmission.sequencerHeight ∧
        ongoing = none ∧ ready = none ∧ session.submitter.turn t =
          { BlobSubmitter.new rollupFilter (.of prepared.lastSubmission) with
            blocks := (session.submitter.turn t).blocks } := by
    intro prepared hsome
    rw [hsettled] at hsome
    cases hsome
  rcases session.submitter.turn_ongoing t with ⟨hongoing, hstarted⟩ |
    ⟨hnone, ⟨submission, hsome⟩, hstarted⟩ | ⟨submission, celestiaHeight, hsome, hresult, hnone, hstarted⟩
  · -- what is in flight is the same
    have hturn : session.turn cancelled order =
        { session with submitter := session.submitter.turn t } := by
      unfold Session.turn
      dsimp only
      rw [show (session.submitter.turn _).ongoingSubmission = _ from hongoing]
      cases session.submitter.ongoingSubmission <;> rfl
    rw [hturn]
    refine ⟨hfeeds, hsubmits, hsettling, ?_, ?_, ?_, ?_, h.exclusive⟩
    · intro hlast hno
      rw [hongoing] at hno
      rw [hstarted]
      exact h.idle hlast hno
    · intro flight hflight
      obtain ⟨hstarted', hrecorded, hsubmission, hwaits⟩ := h.ongoing flight hflight
      refine ⟨hstarted'.trans hstarted.symm, hrecorded, ?_, hwaits⟩
      rw [hongoing]
      exact hsubmission
    · intro started hready
      rw [hongoing]
      exact h.ready started hready
    · intro hbusy
      rw [hongoing]
      exact h.busy hbusy
  · -- a submission starts
    have hturn : session.turn cancelled order =
        { session with
          submitter := session.submitter.turn t
          ongoing := some (.new submission session.submitter.startedSubmission) } := by
      unfold Session.turn
      dsimp only
      rw [show (session.submitter.turn _).ongoingSubmission = _ from hsome, hnone]
    have hready : session.ready = none := by
      by_contra hready
      have hbusy := h.busy (Or.inr (Option.isSome_iff_ne_none.mpr hready))
      rw [hnone] at hbusy
      cases hbusy
    rw [hturn]
    refine ⟨hfeeds, hsubmits, hsettling, ?_, ?_, ?_, ?_, fun _ => hready⟩
    · intro _ hno
      rw [hsome] at hno
      cases hno
    · rintro _ ⟨⟩
      refine ⟨hstarted.symm, h.idle hsettled hnone, ⟨submission, hsome, rfl, rfl⟩, ?_⟩
      intro prepared txHash hwaits
      cases hwaits
    · intro started hok
      rw [show session.ready = some (.ok started) from hok] at hready
      cases hready
    · intro _
      rw [hsome]
      rfl
  · -- the result is taken
    have hturn : session.turn cancelled order =
        { session with submitter := session.submitter.turn t, ready := none } := by
      unfold Session.turn
      dsimp only
      rw [show (session.submitter.turn _).ongoingSubmission = _ from hnone, hsome]
    obtain ⟨started, hready, hrecorded, htakes⟩ := h.takes hsome hresult
    have hongoing : session.ongoing = none := by
      by_contra hongoing
      have hexclusive := h.exclusive (Option.isSome_iff_ne_none.mpr hongoing)
      rw [hready] at hexclusive
      cases hexclusive
    rw [hturn]
    refine ⟨hfeeds, hsubmits, hsettling, ?_, ?_, fun _ hnot => (by cases hnot), ?_, fun _ => rfl⟩
    · intro _ _
      rw [hstarted, htakes]
      exact hrecorded
    · intro flight hflight
      rw [show session.ongoing = some flight from hflight] at hongoing
      cases hongoing
    · intro hbusy
      rcases hbusy with hbusy | hbusy
      · replace hbusy : session.ongoing.isSome := hbusy
        rw [hongoing] at hbusy
        cases hbusy
      · cases hbusy

/-- The submitter starts its loop with what was confirmed, or reverted. -/
theorem InSession.settle (h : InSession rollupFilter last start file session)
    {prepared : PreparedSubmission} (hprepared : session.fromLastSession = some prepared)
    {file' : SubmissionState} {started : StartedSubmission}
    (hrecorded : file'.recorded = started.lastSubmissionSequencerHeight)
    (hle : last ≤ started.lastSubmissionSequencerHeight) :
    InSession rollupFilter last started.lastSubmissionSequencerHeight file'
      { session with
        fromLastSession := none
        submitter := { session.submitter with startedSubmission := started } } := by
  obtain ⟨-, -, hongoing, hready, hnew⟩ := h.settling prepared hprepared
  have hreceived : session.submitter.received = [] := by
    rw [hnew]
    rfl
  have hblocks := (ConsecutiveFrom.append_iff.mp h.feeds.consecutive).1
  rw [hreceived, List.nil_append] at hblocks
  have hsubmitter : ({ session.submitter with startedSubmission := started } : BlobSubmitter) =
      { BlobSubmitter.new rollupFilter started with blocks := session.submitter.blocks } := by
    rw [hnew]
    rfl
  refine
    { feeds := ⟨h.feeds.consecutive, h.feeds.next, h.feeds.inFlight, h.feeds.parked⟩
      submits := ?_
      settling := fun _ hnot => (by cases hnot)
      idle := fun _ _ => hrecorded
      ongoing := ?_
      ready := ?_
      busy := h.busy
      exclusive := h.exclusive }
  · show Submits rollupFilter last _ { session.submitter with startedSubmission := started }
    rw [hsubmitter]
    exact submits_new rollupFilter hle hblocks
  · intro flight hflight
    rw [show session.ongoing = some flight from hflight] at hongoing
    cases hongoing
  · intro result hresult
    rw [show session.ready = some (.ok result) from hresult] at hready
    cases hready

/-- A session in which the submission goes on, with what the file has of it. -/
theorem InSession.flies (h : InSession rollupFilter last start file session)
    {flight flight' : SubmitWithRetry} (hflight : session.ongoing = some flight)
    {file' : SubmissionState} (hflies : Flies file' session.submitter flight') :
    InSession rollupFilter last start file' { session with ongoing := some flight' } := by
  have hsome : session.ongoing.isSome := by rw [hflight]; rfl
  have hongoing := h.busy (Or.inl hsome)
  refine
    { feeds := ⟨h.feeds.consecutive, h.feeds.next, h.feeds.inFlight, h.feeds.parked⟩
      submits := h.submits
      settling := ?_
      idle := ?_
      ongoing := ?_
      ready := ?_
      busy := fun _ => hongoing
      exclusive := fun _ => h.exclusive hsome }
  · intro prepared hprepared
    have hnone := (h.settling prepared hprepared).2.2.1
    rw [hflight] at hnone
    cases hnone
  · intro _ hnone
    rw [show session.submitter.ongoingSubmission = none from hnone] at hongoing
    cases hongoing
  · rintro _ ⟨⟩
    exact hflies
  · intro started hready
    have hnone := h.exclusive hsome
    rw [show session.ready = some (.ok started) from hready] at hnone
    cases hnone

/-- A session in which the submission is over: what was confirmed is recorded. -/
theorem InSession.lands (h : InSession rollupFilter last start file session)
    {flight : SubmitWithRetry} (hflight : session.ongoing = some flight) {file' : SubmissionState}
    {result : Except Report StartedSubmission}
    (hresult : ∀ started, result = .ok started →
      started.lastSubmissionSequencerHeight = flight.largestSequencerHeight ∧
        file'.recorded = started.lastSubmissionSequencerHeight) :
    InSession rollupFilter last start file' { session with ongoing := none, ready := some result } := by
  have hongoing := h.busy (Or.inl (by rw [hflight]; rfl))
  obtain ⟨submission, hsubmission, -, hlargest⟩ := (h.ongoing flight hflight).submission
  refine
    { feeds := ⟨h.feeds.consecutive, h.feeds.next, h.feeds.inFlight, h.feeds.parked⟩
      submits := h.submits
      settling := ?_
      idle := ?_
      ongoing := fun _ hnot => (by cases hnot)
      ready := ?_
      busy := fun _ => hongoing
      exclusive := fun hnot => (by cases hnot) }
  · intro prepared hprepared
    have hnone := (h.settling prepared hprepared).2.2.1
    rw [hflight] at hnone
    cases hnone
  · intro _ hnone
    rw [show session.submitter.ongoingSubmission = none from hnone] at hongoing
    cases hongoing
  · intro started hready
    exact ⟨submission, hsubmission, hlargest ▸ hresult started (Option.some.inj hready)⟩

/-! ### The branches of the loop -/

theorem InSession.latestHeight (h : InSession rollupFilter last start file session) (height : ℕ) :
    InSession rollupFilter last start file
      { session with blockStream := session.blockStream.setLatestSequencerHeight height } :=
  h.inLoop (h.feeds.latestHeight height) h.submits rfl rfl rfl rfl

theorem InSession.pollStream (h : InSession rollupFilter last start file session)
    (hstopped : session.stopped = false) (answer : Option (Except Report SequencerBlock)) :
    InSession rollupFilter last start file (session.pollStream answer) := by
  obtain ⟨hfeeds, hsubmits⟩ := h.feeds.pollStream hstopped h.submits answer
  obtain ⟨hlast, hongoing, hready, hsubmitter⟩ :=
    session.receiveItem_submitter (session.blockStream.pollNext answer)
  exact h.inLoop hfeeds hsubmits hlast hongoing hready hsubmitter

theorem InSession.forward (h : InSession rollupFilter last start file session) :
    InSession rollupFilter last start file session.forward := by
  obtain ⟨hfeeds, hsubmits⟩ := h.feeds.forward h.submits
  obtain ⟨hlast, hongoing, hready, hsubmitter⟩ := session.forward_submitter
  exact h.inLoop hfeeds hsubmits hlast hongoing hready hsubmitter

end

end

/-! ## All sessions -/

/-- What was confirmed, up to what is recorded. -/
structure Confirms (confirmed : List ℕ) (recorded : ℕ) : Prop where
  increasing : confirmed.Pairwise (· < ·)
  le : ∀ height ∈ confirmed, height ≤ recorded
  last : confirmed.getLastD 0 = recorded

theorem Confirms.append {confirmed : List ℕ} {recorded height : ℕ} (h : Confirms confirmed recorded)
    (hlt : recorded < height) : Confirms (confirmed ++ [height]) height where
  increasing := by
    refine List.pairwise_append.mpr ⟨h.increasing, List.pairwise_singleton _ _, ?_⟩
    intro before hbefore after hafter
    rw [List.mem_singleton.mp hafter]
    exact (h.le before hbefore).trans_lt hlt
  le := by
    intro before hbefore
    rcases List.mem_append.mp hbefore with hbefore | hbefore
    · exact (h.le before hbefore).trans hlt.le
    · exact (List.mem_singleton.mp hbefore).le
  last := List.getLastD_concat

section

variable [ext : External] [times : TimeCodec] [formats : PayloadFormats]

/-- What holds after all events: the heights up to the recorded one are on Celestia, a prepared submission
is of a transaction with the heights that follow, and a session goes on from the file. -/
structure Covers (s : System) : Prop where
  covered : Covered s.included s.file.recorded
  prepared : ∀ prepared : PreparedSubmission, s.file = prepared.state → ∃ blobTx ∈ s.signed,
    blobTx.hash = prepared.blobTxHash ∧
      Spans blobTx.blobs prepared.lastSubmission.sequencerHeight prepared.sequencerHeight
  confirmed : Confirms s.confirmed s.file.recorded
  session : ∀ session, s.session = some session →
    ∃ rollupFilter last start, InSession rollupFilter last start s.file session

/-- Transactions with the hash of one that the relayer has signed have the blobs of that one: the signed
transaction commits to them, and its hash has no collision. -/
def Identified (s : System) : Prop :=
  ∀ blobTx ∈ s.included, ∀ blobTx' ∈ s.signed, blobTx.hash = blobTx'.hash →
    blobTx.blobs = blobTx'.blobs

instance (s : System) : Decidable (Identified s) :=
  inferInstanceAs (Decidable (∀ blobTx ∈ s.included, _))

section

variable {s : System}

theorem covers_fresh : Covers System.fresh where
  covered := by
    intro k hpos hle
    exact absurd (hpos.trans hle) (by decide)
  prepared := fun _ h => (by cases h)
  confirmed := ⟨List.Pairwise.nil, fun _ h => (by cases h), rfl⟩
  session := fun _ h => (by cases h)

/-- The session of a state that covers is over, or replaced by another that goes on from the file. -/
theorem Covers.withSession (h : Covers s) {session : Option Session}
    (hsession : ∀ session', session = some session' →
      ∃ rollupFilter last start, InSession rollupFilter last start s.file session') :
    Covers { s with session := session } :=
  ⟨h.covered, h.prepared, h.confirmed, hsession⟩

theorem Covers.start (h : Covers s) (rollupFilter : IncludeRollup) (path : String) (written : Bool) :
    Covers (s.start rollupFilter path written) := by
  unfold System.start
  split
  case h_1 atStartup hsession hstartup =>
    refine h.withSession ?_
    rintro _ ⟨⟩
    rw [← SubmissionStateAtStartup.file_newFromPath hstartup]
    exact ⟨rollupFilter, _, _, inSession_new rollupFilter atStartup⟩
  case h_2 => exact h

theorem Covers.includes (h : Covers s) (blobTx : BlobTx) :
    Covers { s with included := s.included ++ [blobTx] } :=
  ⟨h.covered.mono (List.subset_append_left _ _), h.prepared, h.confirmed, h.session⟩

theorem Covers.inLoop (h : Covers s) {branch : Session → Session}
    (hbranch : ∀ session, session.stopped = false → ∀ {rollupFilter last start},
      InSession rollupFilter last start s.file session →
        InSession rollupFilter last start s.file (branch session)) :
    Covers (s.inLoop branch) := by
  unfold System.inLoop
  cases hsession : s.session with
  | none => exact h
  | some session =>
    obtain ⟨rollupFilter, last, start, hin⟩ := h.session session hsession
    dsimp only
    split_ifs with hstopped
    · exact h
    · refine h.withSession ?_
      rintro _ ⟨⟩
      exact ⟨rollupFilter, last, start, hbranch session (Bool.eq_false_of_not_eq_true hstopped) hin⟩

/-- A transaction with the hash of the prepared submission is included, so that its heights are on
Celestia. -/
theorem Covers.confirms (h : Covers s) (hidentified : Identified s) {prepared : PreparedSubmission}
    (hfile : s.file = prepared.state) (hincludes : Includes s.included prepared.blobTxHash) :
    Covered s.included prepared.sequencerHeight ∧
      Confirms (s.confirmed ++ [prepared.sequencerHeight]) prepared.sequencerHeight := by
  obtain ⟨blobTx, hsigned, hhash, hspans⟩ := h.prepared prepared hfile
  obtain ⟨blobTx', hincluded, hhash'⟩ := hincludes
  have hblobs := hidentified blobTx' hincluded blobTx hsigned (hhash'.trans hhash.symm)
  have hcovered := h.covered
  have hconfirmed := h.confirmed
  rw [hfile] at hcovered hconfirmed
  exact ⟨hcovered.extend hincluded (hblobs ▸ hspans), hconfirmed.append prepared.increases⟩

/-- What was confirmed is written to the file. -/
theorem Covers.started (h : Covers s) (hidentified : Identified s) {prepared : PreparedSubmission}
    (hfile : s.file = prepared.state) (hincludes : Includes s.included prepared.blobTxHash)
    {celestiaHeight : ℕ} {session : Option Session} {signed : List BlobTx}
    (hsession : ∀ session', session = some session' → ∃ rollupFilter last start,
      InSession rollupFilter last start
        (.started { celestiaHeight := celestiaHeight, sequencerHeight := prepared.sequencerHeight })
        session') :
    Covers
      { file := .started
          { celestiaHeight := celestiaHeight, sequencerHeight := prepared.sequencerHeight }
        session := session
        included := s.included
        signed := signed
        confirmed := s.confirmed ++ [prepared.sequencerHeight] } := by
  obtain ⟨hcovered, hconfirmed⟩ := h.confirms hidentified hfile hincludes
  exact ⟨hcovered, fun _ hnot => (by cases hnot), hconfirmed, hsession⟩

theorem Covers.confirmFromLastSession (h : Covers s) (hidentified : Identified s)
    (celestiaHeight : ℕ) (written : Bool) : Covers (s.confirmFromLastSession celestiaHeight written) := by
  unfold System.confirmFromLastSession
  cases hsession : s.session with
  | none => exact h
  | some session =>
    dsimp only
    cases hprepared : session.fromLastSession with
    | none => exact h
    | some prepared =>
      obtain ⟨rollupFilter, last, start, hin⟩ := h.session session hsession
      obtain ⟨hfile, hlast, -⟩ := hin.settling prepared hprepared
      dsimp only
      split_ifs with hincludes
      · cases written with
        | false => exact h.withSession fun _ hnot => (by cases hnot)
        | true =>
          refine h.started hidentified hfile hincludes ?_
          rintro _ ⟨⟩
          exact ⟨rollupFilter, last, _, hin.settle hprepared rfl (hlast ▸ prepared.increases.le)⟩
      · exact h

theorem Covers.revertFromLastSession (h : Covers s) (written : Bool) :
    Covers (s.revertFromLastSession written) := by
  unfold System.revertFromLastSession
  cases hsession : s.session with
  | none => exact h
  | some session =>
    dsimp only
    cases hprepared : session.fromLastSession with
    | none => exact h
    | some prepared =>
      obtain ⟨rollupFilter, last, start, hin⟩ := h.session session hsession
      obtain ⟨hfile, hlast, -⟩ := hin.settling prepared hprepared
      have hcovered := h.covered
      have hconfirmed := h.confirmed
      rw [hfile] at hcovered hconfirmed
      cases written with
      | false => exact h.withSession fun _ hnot => (by cases hnot)
      | true =>
        refine ⟨hcovered, fun _ hnot => (by cases hnot), hconfirmed, ?_⟩
        rintro _ ⟨⟩
        exact ⟨rollupFilter, last, _, hin.settle hprepared rfl hlast.le⟩

theorem Covers.answer (h : Covers s) (hidentified : Identified s) {a : Answer}
    (hreports : s.reports (.answer a)) : Covers (s.answer a) := by
  unfold System.answer
  cases hsession : s.session with
  | none => exact h
  | some session =>
    dsimp only
    cases hflight : session.ongoing with
    | none => exact h
    | some flight =>
      obtain ⟨rollupFilter, last, start, hin⟩ := h.session session hsession
      have hflies := hin.ongoing flight hflight
      have hreports : flight.reports a := by
        unfold System.reports at hreports
        rw [hsession] at hreports
        dsimp only [Option.all_some] at hreports
        rw [hflight] at hreports
        exact hreports
      have hanswers := flight.answers_answer s.included s.file a
      dsimp only
      generalize flight.answer s.included s.file a = result at hanswers ⊢
      obtain ⟨progress, file⟩ := result
      cases hanswers with
      | @keeps attempt hwaits =>
        refine ⟨h.covered, ?_, h.confirmed, ?_⟩
        · intro prepared hfile
          obtain ⟨blobTx, hsigned, hspans⟩ := h.prepared prepared hfile
          exact ⟨blobTx, List.mem_append_left _ hsigned, hspans⟩
        · rintro _ ⟨⟩
          refine ⟨rollupFilter, last, start, hin.flies hflight ?_⟩
          refine ⟨hflies.started, hflies.recorded, hflies.submission, ?_⟩
          intro prepared txHash hwaiting
          rcases hwaits prepared txHash hwaiting with hwaiting | ⟨hhash, txHash', hwaiting⟩
          · exact hflies.waits prepared txHash hwaiting
          · exact ⟨hhash, (hflies.waits prepared txHash' hwaiting).2⟩
      | @prepares tx prepared hsigns hheight hlast hhash =>
        have hrecorded : prepared.state.recorded = s.file.recorded := by
          rw [hflies.recorded]
          show prepared.lastSubmission.sequencerHeight = _
          rw [hlast]
          rfl
        have hspans := hflies.spans hin.submits
        rw [← hheight, ← hrecorded] at hspans
        refine ⟨hrecorded ▸ h.covered, ?_, hrecorded ▸ h.confirmed, ?_⟩
        · intro prepared' hfile
          obtain rfl := PreparedSubmission.state_injective hfile
          refine ⟨flight.blobTx tx, ?_, hhash.symm, hspans⟩
          rw [hsigns]
          exact List.mem_append_right _ (List.mem_singleton_self _)
        · rintro _ ⟨⟩
          refine ⟨rollupFilter, last, start, hin.flies hflight ?_⟩
          refine ⟨hflies.started, hrecorded.trans hflies.recorded, hflies.submission, ?_⟩
          rintro _ _ ⟨⟩
          exact ⟨hhash.symm, rfl, hheight⟩
      | @reports prepared blobTx txHash hattempt ha =>
        have hhash : txHash = blobTx.hash := by
          unfold SubmitWithRetry.reports at hreports
          rw [hattempt, ha] at hreports
          exact of_decide_eq_true hreports
        refine ⟨h.covered, ?_, h.confirmed, ?_⟩
        · intro prepared hfile
          obtain ⟨blobTx, hsigned, hspans⟩ := h.prepared prepared hfile
          exact ⟨blobTx, List.mem_append_left _ hsigned, hspans⟩
        · rintro _ ⟨⟩
          refine ⟨rollupFilter, last, start, hin.flies hflight ?_⟩
          refine ⟨hflies.started, hflies.recorded, hflies.submission, ?_⟩
          rintro _ _ ⟨⟩
          exact hflies.waits prepared txHash (hattempt ▸ hhash ▸ .broadcasting)
      | @confirms celestiaHeight prepared txHash hwaiting hincludes =>
        obtain ⟨rfl, hfile, hheight⟩ := hflies.waits prepared txHash hwaiting
        refine h.started hidentified hfile hincludes ?_
        rintro _ ⟨⟩
        refine ⟨rollupFilter, last, start, hin.lands hflight ?_⟩
        rintro _ ⟨⟩
        exact ⟨hheight, rfl⟩
      | breaks =>
        refine ⟨h.covered, ?_, h.confirmed, ?_⟩
        · intro prepared hfile
          obtain ⟨blobTx, hsigned, hspans⟩ := h.prepared prepared hfile
          exact ⟨blobTx, List.mem_append_left _ hsigned, hspans⟩
        · rintro _ ⟨⟩
          exact ⟨rollupFilter, last, start, hin.lands hflight fun _ hnot => (by cases hnot)⟩

/-- Every event keeps what is on Celestia. -/
theorem Covers.step (h : Covers s) (hidentified : Identified s) {event : Event}
    (hreports : s.reports event) : Covers (s.step event) := by
  cases event with
  | start rollupFilter path written => exact h.start rollupFilter path written
  | crash => exact h.withSession fun _ hnot => (by cases hnot)
  | includes blobTx => exact h.includes blobTx
  | latestHeight height => exact h.inLoop fun _ _ _ _ _ hin => hin.latestHeight height
  | pollStream answer => exact h.inLoop fun _ hrun _ _ _ hin => hin.pollStream hrun answer
  | forward => exact h.inLoop fun _ _ _ _ _ hin => hin.forward
  | turn cancelled order =>
    unfold System.step
    cases hsession : s.session with
    | none => exact h
    | some session =>
      dsimp only
      split_ifs with hlast
      · exact h
      · obtain ⟨rollupFilter, last, start, hin⟩ := h.session session hsession
        refine h.withSession ?_
        rintro _ ⟨⟩
        exact ⟨rollupFilter, last, start, hin.turn (Option.not_isSome_iff_eq_none.mp hlast) cancelled order⟩
  | answer answer => exact h.answer hidentified hreports
  | confirmFromLastSession celestiaHeight written =>
    exact h.confirmFromLastSession hidentified celestiaHeight written
  | revertFromLastSession written => exact h.revertFromLastSession written

/-- What was included and what was signed stays so. -/
theorem grows_step (s : System) (event : Event) :
    s.included ⊆ (s.step event).included ∧ s.signed ⊆ (s.step event).signed := by
  have hsame : s.included ⊆ s.included ∧ s.signed ⊆ s.signed :=
    ⟨List.Subset.refl _, List.Subset.refl _⟩
  have hinLoop (branch : Session → Session) : s.included ⊆ (s.inLoop branch).included ∧
      s.signed ⊆ (s.inLoop branch).signed := by
    unfold System.inLoop
    split
    · exact hsame
    · split_ifs <;> exact hsame
  have hsettle (result : Except Report StartedSubmission) (session : Session) (s : System) :
      (s.settle result session).included = s.included ∧
        (s.settle result session).signed = s.signed := by
    cases result <;> exact ⟨rfl, rfl⟩
  cases event with
  | start rollupFilter path written =>
    show s.included ⊆ (s.start rollupFilter path written).included ∧
      s.signed ⊆ (s.start rollupFilter path written).signed
    unfold System.start
    split <;> exact hsame
  | crash => exact hsame
  | includes blobTx => exact ⟨List.subset_append_left _ _, hsame.2⟩
  | latestHeight | pollStream | forward => exact hinLoop _
  | turn cancelled order =>
    unfold System.step
    dsimp only
    split
    · exact hsame
    · split_ifs <;> exact hsame
  | answer answer =>
    show s.included ⊆ (s.answer answer).included ∧ s.signed ⊆ (s.answer answer).signed
    unfold System.answer
    split
    · exact hsame
    · split
      · exact hsame
      · dsimp only
        split
        · exact ⟨hsame.1, List.subset_append_left _ _⟩
        · split <;> exact ⟨hsame.1, List.subset_append_left _ _⟩
  | confirmFromLastSession celestiaHeight written =>
    show s.included ⊆ (s.confirmFromLastSession celestiaHeight written).included ∧
      s.signed ⊆ (s.confirmFromLastSession celestiaHeight written).signed
    unfold System.confirmFromLastSession
    split
    · exact hsame
    · split
      · exact hsame
      · split_ifs
        · dsimp only
          split <;> rw [(hsettle _ _ _).1, (hsettle _ _ _).2] <;> exact hsame
        · exact hsame
  | revertFromLastSession written =>
    show s.included ⊆ (s.revertFromLastSession written).included ∧
      s.signed ⊆ (s.revertFromLastSession written).signed
    unfold System.revertFromLastSession
    split
    · exact hsame
    · split
      · exact hsame
      · dsimp only
        rw [(hsettle _ _ _).1, (hsettle _ _ _).2]
        exact hsame

theorem Identified.of_step {event : Event} (h : Identified (s.step event)) : Identified s := by
  obtain ⟨hincluded, hsigned⟩ := grows_step s event
  intro blobTx hblobTx blobTx' hblobTx'
  exact h blobTx (hincluded hblobTx) blobTx' (hsigned hblobTx')

theorem Identified.of_run {events : List Event} (h : Identified (s.run events)) : Identified s := by
  induction events generalizing s with
  | nil => exact h
  | cons event events ih => exact (ih h).of_step

/-- All events keep what is on Celestia. -/
theorem Covers.run (h : Covers s) {events : List Event} (hidentified : Identified (s.run events))
    (hreports : s.reportsAll events) : Covers (s.run events) := by
  induction events generalizing s with
  | nil => exact h
  | cons event events ih =>
    obtain ⟨hevent, hevents⟩ := (Bool.and_eq_true _ _).mp hreports
    have hstep : Covers (s.step event) := h.step hidentified.of_run hevent
    exact ih hstep hidentified hevents

/-- A prepared submission is above the last one. -/
def SubmissionState.Ascends : SubmissionState → Prop
  | .prepared sequencerHeight lastSubmission _ => lastSubmission.sequencerHeight < sequencerHeight
  | _ => True

omit ext times formats in
theorem SubmissionState.Ascends.constructAndWrite {file : SubmissionState} (h : file.Ascends) (written : Bool)
    (lastSubmission : CompletedSubmission) :
    (StartedSubmission.constructAndWrite written lastSubmission file).2.Ascends := by
  cases written with
  | true => trivial
  | false => exact h

omit times formats in
theorem SubmissionState.Ascends.answer {file : SubmissionState} (h : file.Ascends)
    (flight : SubmitWithRetry) (included : List BlobTx) (a : Answer) :
    (flight.answer included file a).2.Ascends := by
  have hanswers := flight.answers_answer included file a
  generalize flight.answer included file a = result at hanswers ⊢
  obtain ⟨progress, file'⟩ := result
  cases hanswers with
  | @prepares tx prepared _ _ _ _ => exact prepared.increases
  | confirms => trivial
  | _ => exact h

/-- Every event keeps the order of the heights in the file. -/
theorem ascends_step (h : s.file.Ascends) (event : Event) : (s.step event).file.Ascends := by
  have hinLoop (branch : Session → Session) : (s.inLoop branch).file = s.file := by
    unfold System.inLoop
    split
    · rfl
    · split_ifs <;> rfl
  have hsettle (result : Except Report StartedSubmission) (session : Session) (s : System) :
      (s.settle result session).file = s.file := by
    cases result <;> rfl
  cases event with
  | start rollupFilter path written =>
    show (s.start rollupFilter path written).file.Ascends
    unfold System.start
    split <;> exact h
  | crash => exact h
  | includes blobTx => exact h
  | latestHeight height => exact hinLoop _ ▸ h
  | pollStream answer => exact hinLoop _ ▸ h
  | forward => exact hinLoop _ ▸ h
  | turn cancelled order =>
    unfold System.step
    dsimp only
    split
    · exact h
    · split_ifs <;> exact h
  | answer answer =>
    show (s.answer answer).file.Ascends
    unfold System.answer
    split
    · exact h
    · split
      · exact h
      · rename_i flight _
        have hfile := h.answer flight s.included answer
        dsimp only
        split
        · exact hfile
        · split <;> exact hfile
  | confirmFromLastSession celestiaHeight written =>
    show (s.confirmFromLastSession celestiaHeight written).file.Ascends
    unfold System.confirmFromLastSession
    split
    · exact h
    · split
      · exact h
      · split_ifs
        · dsimp only
          split <;> rw [hsettle] <;> exact h.constructAndWrite _ _
        · exact h
  | revertFromLastSession written =>
    show (s.revertFromLastSession written).file.Ascends
    unfold System.revertFromLastSession
    split
    · exact h
    · split
      · exact h
      · dsimp only
        rw [hsettle]
        exact h.constructAndWrite _ _

theorem ascends_run (h : s.file.Ascends) (events : List Event) : (s.run events).file.Ascends := by
  induction events generalizing s with
  | nil => exact h
  | cons event events ih => exact ih (ascends_step h event)

/-- All sequencer heights up to the recorded one are in transactions on Celestia, what is recorded
increases with every submission that is confirmed, and a prepared submission is above the last one. -/
theorem no_gap (events : List Event) (hidentified : Identified (System.fresh.run events))
    (hreports : System.fresh.reportsAll events) :
    Covered (System.fresh.run events).included (System.fresh.run events).file.recorded ∧
      ((System.fresh.run events).confirmed.Pairwise (· < ·) ∧
        (System.fresh.run events).confirmed.getLastD 0 = (System.fresh.run events).file.recorded) ∧
      ∀ height last txHash, (System.fresh.run events).file = .prepared height last txHash →
        last.sequencerHeight < height := by
  have hcovers := covers_fresh.run hidentified hreports
  have hascends : (System.fresh.run events).file.Ascends :=
    ascends_run (s := System.fresh) trivial events
  refine ⟨hcovers.covered, ⟨hcovers.confirmed.increasing, hcovers.confirmed.last⟩, ?_⟩
  intro height last txHash hfile
  rw [hfile] at hascends
  exact hascends

/-- The relayer can start again whenever it has ended: it accepts the file that it finds, and goes on behind
what is recorded there. -/
theorem startsAgain (events : List Event) (hended : (System.fresh.run events).session = none)
    (rollupFilter : IncludeRollup) (path : String) :
    ∃ session, ((System.fresh.run events).start rollupFilter path true).session = some session ∧
      session.blockStream.heights.next = (System.fresh.run events).file.recorded + 1 ∧
        session.submitter.startedSubmission.lastSubmissionSequencerHeight =
          (System.fresh.run events).file.recorded := by
  have hascends : (System.fresh.run events).file.Ascends :=
    ascends_run (s := System.fresh) trivial events
  generalize System.fresh.run events = s at hended hascends ⊢
  unfold System.start SubmissionStateAtStartup.newFromPath
  rw [hended]
  cases hfile : s.file with
  | fresh => exact ⟨_, rfl, rfl, rfl⟩
  | started lastSubmission => exact ⟨_, rfl, rfl, rfl⟩
  | prepared sequencerHeight lastSubmission blobTxHash =>
    rw [hfile] at hascends
    have hlt : lastSubmission.sequencerHeight < sequencerHeight := hascends
    dsimp only
    rw [dif_pos hlt]
    exact ⟨_, rfl, rfl, rfl⟩

end

end

/-! ### Two sessions -/

section

open Astria.Sequencer.TestUtils

/-- Some blocks are fetched, and taken by the submitter. -/
def testFetch (heights : List ℕ) : List Event :=
  .latestHeight 2 :: heights.map (fun height => .pollStream (some (.ok (testBlock height)))) ++
    List.replicate 3 (.turn false (testTurn []).order)

/-- Celestia includes what was signed. -/
def testInclude (events : List Event) : List Event :=
  events ++ (System.fresh.run events).signed.map .includes

/-- The broadcast of block 1 times out and the relayer crashes; it finds the transaction on Celestia when
it starts again, and submits block 2. -/
def testEvents : List Event :=
  let start := Event.start { rollupIds := [] } "submission_state.json" true
  let crashed := [start] ++ testFetch [1] ++ [.answer (.signed [1] true), .answer .timedOut, .crash]
  let restarted := testInclude crashed ++ [start, .confirmFromLastSession 10 true] ++ testFetch [1, 2] ++
    [.answer (.signed [2] true), .answer (.broadcast (BlobTx.hash { tx := [2], blobs := [] }))]
  testInclude restarted ++ [.answer (.confirmed 12 true)]

/-- Blocks 1 and 2 are on Celestia after both sessions. -/
theorem no_gap_restart :
    (System.fresh.run testEvents).file.recorded = 2 ∧
      Covered (System.fresh.run testEvents).included (System.fresh.run testEvents).file.recorded :=
  ⟨by decide +kernel, (no_gap testEvents (by decide +kernel) (by decide +kernel)).1⟩

/-- After the first crash. -/
theorem startsAgain_crashed :
    ∃ session, ((System.fresh.run (testEvents.take 9)).start { rollupIds := [] } "" true).session =
        some session ∧
      session.blockStream.heights.next = (System.fresh.run (testEvents.take 9)).file.recorded + 1 ∧
        session.submitter.startedSubmission.lastSubmissionSequencerHeight =
          (System.fresh.run (testEvents.take 9)).file.recorded :=
  startsAgain (testEvents.take 9) (by decide +kernel) _ _

end

end Astria.Relayer
