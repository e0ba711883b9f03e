import Astria.Relayer.Conversion
import Astria.Sequencer.TestUtils

/-!
# The blob submitter

The loop that takes sequencer blocks from a channel and submits them to Celestia
(`crates/astria-sequencer-relayer/src/relayer/write/mod.rs`, lines 140–298).

A turn of the loop is one poll of its `select!`, whose futures are tried in their order.  What they come
to, the blocks that are sent and the order of hash maps are arguments of the turn.  Two logs are kept
beside the state: the blocks received and the submissions taken.

Results:
* `Relays.turn`: what a turn does to the blocks that are on their way;
* `relays_run`: after all turns the submissions taken, the next one and the pending block are the
  blocks received, in their order;
* `submitter_relays`: this and the calls of the next submission, for blocks of increasing heights.
-/

namespace Astria.Relayer

open Astria.Core Astria.Lib
open Astria.Sequencer (External)

/-! ## The loop -/

/-- `StartedSubmission` (`submission.rs`): the heights of the last submission that was confirmed. -/
structure StartedSubmission where
  lastSubmissionSequencerHeight : ℕ
  lastSubmissionCelestiaHeight : ℕ

/-- Why the loop ends. -/
inductive Reason where
  | shutdown
  | failedSubmitting (source : Report)
  | failedAdding (source : TryAddError)

/-- What is ready in a turn of the loop. -/
structure Turn where
  sent : List SequencerBlock
  cancelled : Bool
  /-- The end of the submission in flight: the height at which Celestia has it. -/
  submissionResult : Option (Except Report ℕ)
  order : HashOrder

/-- `BlobSubmitter`, with the variables of `run`. -/
structure BlobSubmitter where
  blocks : List SequencerBlock
  nextSubmission : NextSubmission
  pendingBlock : Option SequencerBlock
  startedSubmission : StartedSubmission
  ongoingSubmission : Option Submission
  reason : Option Reason
  received : List SequencerBlock
  taken : List Submission

namespace BlobSubmitter

/-- `BlobSubmitter::new`, when its loop begins. -/
def new (rollupFilter : IncludeRollup) (startedSubmission : StartedSubmission) : BlobSubmitter :=
  { blocks := []
    nextSubmission := NextSubmission.new rollupFilter
    pendingBlock := none
    startedSubmission := startedSubmission
    ongoingSubmission := none
    reason := none
    received := []
    taken := [] }

/-- `has_capacity`. -/
def hasCapacity (s : BlobSubmitter) : Bool := s.pendingBlock.isNone

section

variable [ext : External] [times : TimeCodec] [formats : PayloadFormats]

/-- `add_sequencer_block_to_next_submission`; an error ends the loop. -/
def addSequencerBlockToNextSubmission (order : HashOrder) (block : SequencerBlock)
    (s : BlobSubmitter) : BlobSubmitter :=
  let (result, nextSubmission) := s.nextSubmission.tryAdd order block
  let s := { s with nextSubmission := nextSubmission }
  match result with
  | .ok () => s
  | .error (.full block) => { s with pendingBlock := some block }
  | .error e => { s with reason := some (.failedAdding e) }

/-- The last branch of the `select!`: a block is received if there is space. -/
def receiveBlock (order : HashOrder) (s : BlobSubmitter) : BlobSubmitter :=
  if s.hasCapacity then
    match s.blocks with
    | [] => s
    | block :: blocks =>
      let s := { s with blocks := blocks, received := s.received ++ [block] }
      if block.header.height ≤ s.startedSubmission.lastSubmissionSequencerHeight then s
      else s.addSequencerBlockToNextSubmission order block
  else s

/-- The branch that starts a submission, and makes the pending block the first of the next one. -/
def startSubmission (order : HashOrder) (submission : Submission) (s : BlobSubmitter) :
    BlobSubmitter :=
  let s := { s with ongoingSubmission := some submission, taken := s.taken ++ [submission] }
  match s.pendingBlock with
  | none => s
  | some block => ({ s with pendingBlock := none }).addSequencerBlockToNextSubmission order block

/-- The state that `submit_blobs` returns; every submission has a greatest height. -/
def submitBlobs (submission : Submission) (celestiaHeight : ℕ) : StartedSubmission :=
  { lastSubmissionSequencerHeight := submission.input.greatestSequencerHeight.getD 0
    lastSubmissionCelestiaHeight := celestiaHeight }

/-- Blocks are sent into the channel. -/
def send (sent : List SequencerBlock) (s : BlobSubmitter) : BlobSubmitter :=
  { s with blocks := s.blocks ++ sent }

/-- A poll of the `select!` of `run`, after some blocks were sent. -/
def turn (s : BlobSubmitter) (t : Turn) : BlobSubmitter :=
  let s := s.send t.sent
  match s.reason with
  | some _ => s
  | none =>
    if t.cancelled then { s with reason := some .shutdown }
    else
      match s.ongoingSubmission with
      | some submission =>
        match t.submissionResult with
        | some (.ok celestiaHeight) =>
          { s with
            startedSubmission := submitBlobs submission celestiaHeight
            ongoingSubmission := none }
        | some (.error source) => { s with reason := some (.failedSubmitting source) }
        | none => s.receiveBlock t.order
      | none =>
        let (submission, nextSubmission) := s.nextSubmission.take
        let s := { s with nextSubmission := nextSubmission }
        match submission with
        | some submission => s.startSubmission t.order submission
        | none => s.receiveBlock t.order

/-- The state after some turns. -/
def run (s : BlobSubmitter) (turns : List Turn) : BlobSubmitter := turns.foldl turn s

end

/-! ### What a turn can do -/

section

variable [ext : External] [times : TimeCodec] [formats : PayloadFormats]

/-- The ways of a turn, after the blocks were sent. -/
inductive Turns (s : BlobSubmitter) (t : Turn) : BlobSubmitter → Prop
  | stopped {reason : Reason} : s.reason = some reason → Turns s t s
  | cancelled : s.reason = none → Turns s t { s with reason := some .shutdown }
  | confirmed {submission : Submission} {celestiaHeight : ℕ} : s.reason = none →
    s.ongoingSubmission = some submission →
    Turns s t
      { s with
        startedSubmission := submitBlobs submission celestiaHeight, ongoingSubmission := none }
  | failed {source : Report} : s.reason = none →
    Turns s t { s with reason := some (.failedSubmitting source) }
  | inFlight : s.reason = none → Turns s t (s.receiveBlock t.order)
  | taken {submission : Submission} : s.reason = none → s.ongoingSubmission = none →
    s.nextSubmission.take.1 = some submission →
    Turns s t (({ s with nextSubmission := s.nextSubmission.take.2 }).startSubmission t.order submission)
  | nothingTaken : s.reason = none → s.nextSubmission.take.1 = none →
    Turns s t (({ s with nextSubmission := s.nextSubmission.take.2 }).receiveBlock t.order)

theorem turns_turn (s : BlobSubmitter) (t : Turn) : Turns (s.send t.sent) t (s.turn t) := by
  unfold turn
  generalize s.send t.sent = s
  dsimp only
  split
  case h_1 reason hreason => exact .stopped hreason
  case h_2 hreason =>
    split_ifs
    · exact .cancelled hreason
    · split
      case h_1 submission hongoing =>
        split
        · exact .confirmed hreason hongoing
        · exact .failed hreason
        · exact .inFlight hreason
      case h_2 hongoing =>
        split
        case h_1 submission htake => exact .taken hreason hongoing htake
        case h_2 htake => exact .nothingTaken hreason htake

end

end BlobSubmitter

/-! ## The blocks on their way -/

section

variable [ext : External] [times : TimeCodec] [formats : PayloadFormats]

/-- The block that ended the loop, if one did: it alone is too large, or it could not be converted. -/
inductive Lost (rollupFilter : IncludeRollup) (waiting : List SequencerBlock) :
    Option Reason → List SequencerBlock → Prop
  | nothing {reason : Option Reason} : (∀ e, reason ≠ some (.failedAdding e)) →
    Lost rollupFilter waiting reason []
  | oversizedBlock {order : HashOrder} {block : SequencerBlock} {payload : Payload} : waiting = [] →
    (Input.ofBlocks rollupFilter [block]).tryIntoPayload order = .ok payload →
    maxPayloadSizeBytes < payload.compressedSize →
    Lost rollupFilter waiting
      (some (.failedAdding (.oversizedBlock block.header.height payload.compressedSize))) [block]
  | intoPayload {order : HashOrder} {block : SequencerBlock} {source : Report} :
    (Input.ofBlocks rollupFilter (waiting ++ [block])).tryIntoPayload order = .error source →
    Lost rollupFilter waiting (some (.failedAdding (.intoPayload source))) [block]

/-- The blocks on their way: `parts` are those of the submissions taken, `waiting` those of the next one.
With the blocks `behind` them they are the blocks received above the starting height, in their order. -/
structure OnTheirWay (rollupFilter : IncludeRollup) (start : ℕ) (s : BlobSubmitter)
    (parts : List (List SequencerBlock)) (waiting behind : List SequencerBlock) : Prop where
  sameFilter : s.nextSubmission.rollupFilter = rollupFilter
  carried : List.Forall₂ (NextSubmission.Carries rollupFilter) s.taken parts
  accumulated : s.nextSubmission.Accumulates waiting
  all : s.received.filter (start < ·.header.height) = parts.flatten ++ waiting ++ behind
  ongoing : ∀ submission, s.ongoingSubmission = some submission → submission ∈ s.taken
  startLe : start ≤ s.startedSubmission.lastSubmissionSequencerHeight
  /-- What is confirmed in this session was received in it. -/
  confirmed : s.startedSubmission.lastSubmissionSequencerHeight = start ∨
    ∃ block ∈ s.received,
      block.header.height = s.startedSubmission.lastSubmissionSequencerHeight

/-- Behind the blocks on their way are only a pending block, which waits behind others, or the block that
ended the loop. -/
structure Relays (rollupFilter : IncludeRollup) (start : ℕ) (s : BlobSubmitter)
    (parts : List (List SequencerBlock)) (waiting lost : List SequencerBlock) : Prop
    extends OnTheirWay rollupFilter start s parts waiting (s.pendingBlock.toList ++ lost) where
  ended : Lost rollupFilter waiting s.reason lost
  pending : s.pendingBlock.isSome → waiting ≠ [] ∧ lost = []

variable {rollupFilter : IncludeRollup} {start : ℕ} {s : BlobSubmitter}
  {parts : List (List SequencerBlock)} {waiting lost : List SequencerBlock}

theorem relays_new (rollupFilter : IncludeRollup) (started : StartedSubmission) :
    Relays rollupFilter started.lastSubmissionSequencerHeight (BlobSubmitter.new rollupFilter started)
      [] [] [] where
  sameFilter := rfl
  carried := List.Forall₂.nil
  accumulated := NextSubmission.accumulates_new rollupFilter
  all := rfl
  ongoing := nofun
  startLe := le_rfl
  confirmed := Or.inl rfl
  ended := .nothing nofun
  pending := nofun

/-- Adding a block puts it behind the others, where it waits, is pending or ends the loop. -/
theorem OnTheirWay.add {block : SequencerBlock}
    (h : OnTheirWay rollupFilter start s parts waiting [block]) (hreason : s.reason = none)
    (hpending : s.pendingBlock = none) (order : HashOrder) :
    ∃ waiting lost, Relays rollupFilter start (s.addSequencerBlockToNextSubmission order block) parts
      waiting lost := by
  obtain ⟨hfilter, htaken, hwaiting, hall, hongoing, hstart, hconfirmed⟩ := h
  have hinput : s.nextSubmission.input.extendFromSequencerBlock s.nextSubmission.rollupFilter block =
      Input.ofBlocks rollupFilter (waiting ++ [block]) := by
    rw [Input.ofBlocks_snoc, hwaiting.input, hfilter]
  have hlength : s.nextSubmission.input.numBlocks = waiting.length := by
    rw [hwaiting.input, Input.numBlocks_ofBlocks]
  have hspec := s.nextSubmission.tryAdd_spec order block
  unfold BlobSubmitter.addSequencerBlockToNextSubmission
  dsimp only
  generalize (s.nextSubmission.tryAdd order block).1 = result,
    (s.nextSubmission.tryAdd order block).2 = next at hspec ⊢
  cases hspec with
  | added hpayload hsize =>
    refine ⟨waiting ++ [block], [], ⟨hfilter, htaken, hwaiting.added hpayload hsize, ?_, hongoing,
      hstart, hconfirmed⟩, .nothing ?_, ?_⟩
    · simp only [hall, hpending, List.append_assoc, Option.toList_none, List.append_nil]
    · simp [hreason]
    · simp [hpending]
  | full hpayload hsize hne =>
    refine ⟨waiting, [], ⟨hfilter, htaken, hwaiting, ?_, hongoing, hstart, hconfirmed⟩,
      .nothing ?_, fun _ => ⟨?_, rfl⟩⟩
    · rw [hall]
      rfl
    · simp [hreason]
    · rintro rfl
      exact hne hlength
  | oversizedBlock hpayload hsize hzero =>
    obtain rfl : waiting = [] := List.length_eq_zero_iff.mp (hlength.symm.trans hzero)
    rw [hinput] at hpayload
    refine ⟨[], [block], ⟨hfilter, htaken, hwaiting, ?_, hongoing, hstart, hconfirmed⟩,
      .oversizedBlock rfl hpayload hsize, ?_⟩
    · simp only [hall, hpending, Option.toList_none, List.nil_append]
    · simp [hpending]
  | intoPayload hpayload =>
    rw [hinput] at hpayload
    refine ⟨waiting, [block], ⟨hfilter, htaken, hwaiting, ?_, hongoing, hstart, hconfirmed⟩,
      .intoPayload hpayload, ?_⟩
    · simp only [hall, hpending, Option.toList_none, List.nil_append]
    · simp [hpending]

theorem Lost.eq_nil (h : Lost rollupFilter waiting none lost) : lost = [] := by
  cases h
  rfl

/-- The blocks come with increasing heights. -/
def Increasing (blocks : List SequencerBlock) : Prop := blocks.Pairwise (·.header.height < ·.header.height)

/-- A block that is skipped is at most at the starting height. -/
theorem OnTheirWay.le_start {behind : List SequencerBlock}
    (h : OnTheirWay rollupFilter start s parts waiting behind) {block : SequencerBlock}
    {blocks : List SequencerBlock} (hblocks : s.blocks = block :: blocks)
    (hincreasing : Increasing (s.received ++ s.blocks))
    (hle : block.header.height ≤ s.startedSubmission.lastSubmissionSequencerHeight) :
    block.header.height ≤ start := by
  rcases h.confirmed with heq | ⟨earlier, hearlier, heq⟩
  · exact heq ▸ hle
  · have hlt := (List.pairwise_append.mp hincreasing).2.2 earlier hearlier block
      (hblocks ▸ List.mem_cons_self)
    omega

theorem Relays.receiveBlock (h : Relays rollupFilter start s parts waiting [])
    (hreason : s.reason = none) (hincreasing : Increasing (s.received ++ s.blocks))
    (order : HashOrder) :
    ∃ waiting lost, Relays rollupFilter start (s.receiveBlock order) parts waiting lost := by
  unfold BlobSubmitter.receiveBlock BlobSubmitter.hasCapacity
  split_ifs with hcapacity
  · have hpending : s.pendingBlock = none := Option.isNone_iff_eq_none.mp hcapacity
    have hall := h.all
    rw [hpending] at hall
    cases hblocks : s.blocks with
    | nil => exact ⟨waiting, [], h⟩
    | cons block blocks =>
      dsimp only
      have hconfirmed : s.startedSubmission.lastSubmissionSequencerHeight = start ∨
          ∃ b ∈ s.received ++ [block],
            b.header.height = s.startedSubmission.lastSubmissionSequencerHeight := by
        refine h.confirmed.imp_right ?_
        rintro ⟨b, hb, heq⟩
        exact ⟨b, List.mem_append_left _ hb, heq⟩
      split_ifs with hle
      · have hstart := h.le_start hblocks hincreasing hle
        refine ⟨waiting, [], ⟨h.sameFilter, h.carried, h.accumulated, ?_, h.ongoing, h.startLe,
          hconfirmed⟩, h.ended, h.pending⟩
        rw [List.filter_append, h.all, List.filter_singleton, decide_eq_false (by omega), cond_false,
          List.append_nil]
      · have hstart := h.startLe
        have hway : OnTheirWay rollupFilter start
            { s with blocks := blocks, received := s.received ++ [block] } parts waiting [block] := by
          refine ⟨h.sameFilter, h.carried, h.accumulated, ?_, h.ongoing, h.startLe, hconfirmed⟩
          rw [List.filter_append, hall, List.filter_singleton, decide_eq_true (by omega), cond_true,
            Option.toList_none, List.append_nil, List.append_nil]
        exact hway.add hreason hpending order
  · exact ⟨waiting, [], h⟩

/-- A submission that is taken carries the blocks that waited. -/
theorem Relays.startSubmission (h : Relays rollupFilter start s parts waiting [])
    (hreason : s.reason = none) {submission : Submission}
    (hcarries : NextSubmission.Carries rollupFilter submission waiting) (order : HashOrder) :
    ∃ waiting' lost,
      Relays rollupFilter start
        (({ s with nextSubmission := NextSubmission.new rollupFilter }).startSubmission order submission)
        (parts ++ [waiting]) waiting' lost := by
  have hcarried : List.Forall₂ (NextSubmission.Carries rollupFilter) (s.taken ++ [submission])
      (parts ++ [waiting]) :=
    List.rel_append h.carried (List.Forall₂.cons hcarries List.Forall₂.nil)
  have hongoing : ∀ ongoing, some submission = some ongoing → ongoing ∈ s.taken ++ [submission] := by
    rintro _ ⟨⟩
    exact List.mem_append_right _ (List.mem_singleton_self _)
  have hflatten : (parts ++ [waiting]).flatten ++ [] = parts.flatten ++ waiting := by simp
  unfold BlobSubmitter.startSubmission
  dsimp only
  cases hpending : s.pendingBlock with
  | none =>
    refine ⟨[], [], ⟨rfl, hcarried, NextSubmission.accumulates_new rollupFilter, ?_, hongoing, h.startLe,
      h.confirmed⟩, .nothing (by simp [hreason]), nofun⟩
    rw [hflatten, h.all, hpending]
  | some block =>
    have hway : OnTheirWay rollupFilter start
        { s with
          nextSubmission := NextSubmission.new rollupFilter
          ongoingSubmission := some submission
          taken := s.taken ++ [submission]
          pendingBlock := none } (parts ++ [waiting]) [] [block] := by
      refine ⟨rfl, hcarried, NextSubmission.accumulates_new rollupFilter, ?_, hongoing, h.startLe,
        h.confirmed⟩
      rw [hflatten, h.all, hpending]
      rfl
    exact hway.add hreason rfl order

omit ext times formats in
theorem exists_of_mem_taken {taken : List Submission} {carries : Submission → List SequencerBlock → Prop}
    (h : List.Forall₂ carries taken parts) {submission : Submission} (hmem : submission ∈ taken) :
    ∃ blocks ∈ parts, carries submission blocks := by
  induction h with
  | nil => cases hmem
  | @cons first blocks taken parts hfirst hrest ih =>
    rcases List.mem_cons.mp hmem with rfl | hmem
    · exact ⟨blocks, List.mem_cons_self, hfirst⟩
    · obtain ⟨blocks, hblocks, hcarries⟩ := ih hmem
      exact ⟨blocks, List.mem_cons_of_mem _ hblocks, hcarries⟩

/-- A submission that was confirmed has the height of a block that was received. -/
theorem Relays.confirmed_submitBlobs (h : Relays rollupFilter start s parts waiting lost)
    {submission : Submission} (hongoing : s.ongoingSubmission = some submission) (celestiaHeight : ℕ) :
    ∃ block ∈ s.received, start < block.header.height ∧
      block.header.height =
        (BlobSubmitter.submitBlobs submission celestiaHeight).lastSubmissionSequencerHeight := by
  obtain ⟨blocks, hblocks, hcarries⟩ := exists_of_mem_taken h.carried (h.ongoing _ hongoing)
  obtain ⟨block, hblock, hgreatest⟩ : ∃ block ∈ blocks,
      (Input.ofBlocks rollupFilter blocks).greatestSequencerHeight = some block.header.height :=
    Input.greatestSequencerHeight_ofBlocks hcarries.ne_nil
  have hmem : block ∈ s.received.filter (start < ·.header.height) := by
    rw [h.all]
    refine List.mem_append_left _ (List.mem_append_left _ ?_)
    exact List.mem_flatten.mpr ⟨blocks, hblocks, hblock⟩
  obtain ⟨hreceived, hlt⟩ := List.mem_filter.mp hmem
  refine ⟨block, hreceived, of_decide_eq_true hlt, ?_⟩
  unfold BlobSubmitter.submitBlobs
  rw [hcarries.input, hgreatest]
  rfl

/-- What a turn does to the blocks that are on their way. -/
theorem Relays.turn (h : Relays rollupFilter start s parts waiting lost) (t : Turn)
    (hincreasing : Increasing (s.received ++ (s.blocks ++ t.sent))) :
    ∃ parts waiting lost, Relays rollupFilter start (s.turn t) parts waiting lost := by
  have hturn := s.turns_turn t
  -- a block that is sent changes nothing but the channel
  have hsent : Relays rollupFilter start (s.send t.sent) parts waiting lost :=
    ⟨⟨h.sameFilter, h.carried, h.accumulated, h.all, h.ongoing, h.startLe, h.confirmed⟩, h.ended,
      h.pending⟩
  replace hincreasing : Increasing ((s.send t.sent).received ++ (s.send t.sent).blocks) := hincreasing
  generalize s.turn t = s', s.send t.sent = s at hturn hsent hincreasing
  have hnothing (hreason : s.reason = none) : lost = [] := (hreason ▸ hsent.ended).eq_nil
  cases hturn with
  | stopped => exact ⟨parts, waiting, lost, hsent⟩
  | cancelled hreason =>
    obtain rfl := hnothing hreason
    exact ⟨parts, waiting, [], ⟨hsent.sameFilter, hsent.carried, hsent.accumulated, hsent.all,
      hsent.ongoing, hsent.startLe, hsent.confirmed⟩, .nothing (by simp), hsent.pending⟩
  | failed hreason =>
    obtain rfl := hnothing hreason
    exact ⟨parts, waiting, [], ⟨hsent.sameFilter, hsent.carried, hsent.accumulated, hsent.all,
      hsent.ongoing, hsent.startLe, hsent.confirmed⟩, .nothing (by simp), hsent.pending⟩
  | @confirmed submission celestiaHeight hreason hongoing =>
    obtain ⟨block, hblock, hlt, hheight⟩ := hsent.confirmed_submitBlobs hongoing celestiaHeight
    exact ⟨parts, waiting, lost, ⟨hsent.sameFilter, hsent.carried, hsent.accumulated, hsent.all, nofun,
      hheight ▸ hlt.le, Or.inr ⟨block, hblock, hheight⟩⟩, hsent.ended, hsent.pending⟩
  | inFlight hreason =>
    obtain rfl := hnothing hreason
    obtain ⟨waiting, lost, hrelays⟩ := hsent.receiveBlock hreason hincreasing t.order
    exact ⟨parts, waiting, lost, hrelays⟩
  | @taken submission hreason hongoing htake =>
    obtain rfl := hnothing hreason
    obtain ⟨hnext, ⟨-, hnone⟩ | ⟨submission', htake', hcarries⟩⟩ := hsent.accumulated.take
    · cases htake.symm.trans hnone
    · obtain rfl := Option.some.inj (htake.symm.trans htake')
      rw [hsent.sameFilter] at hcarries hnext
      rw [hnext]
      obtain ⟨waiting', lost, hrelays⟩ := hsent.startSubmission hreason hcarries t.order
      exact ⟨parts ++ [waiting], waiting', lost, hrelays⟩
  | nothingTaken hreason htake =>
    obtain rfl := hnothing hreason
    obtain ⟨hnext, ⟨rfl, -⟩ | ⟨submission, htake', -⟩⟩ := hsent.accumulated.take
    · rw [hnext, hsent.sameFilter]
      have hempty : Relays rollupFilter start
          { s with nextSubmission := NextSubmission.new rollupFilter } parts [] [] :=
        ⟨⟨rfl, hsent.carried, NextSubmission.accumulates_new rollupFilter, hsent.all, hsent.ongoing,
          hsent.startLe, hsent.confirmed⟩, hsent.ended, hsent.pending⟩
      obtain ⟨waiting, lost, hrelays⟩ := hempty.receiveBlock hreason hincreasing t.order
      exact ⟨parts, waiting, lost, hrelays⟩
    · cases htake'.symm.trans htake

/-! ## All turns -/

namespace BlobSubmitter

theorem add_received (order : HashOrder) (block : SequencerBlock) (s : BlobSubmitter) :
    (s.addSequencerBlockToNextSubmission order block).received = s.received ∧
      (s.addSequencerBlockToNextSubmission order block).blocks = s.blocks := by
  unfold addSequencerBlockToNextSubmission
  dsimp only
  split <;> exact ⟨rfl, rfl⟩

theorem receiveBlock_received (order : HashOrder) (s : BlobSubmitter) :
    (s.receiveBlock order).received ++ (s.receiveBlock order).blocks = s.received ++ s.blocks := by
  unfold receiveBlock
  split_ifs with hcapacity
  · cases hblocks : s.blocks with
    | nil =>
      dsimp only
      rw [hblocks]
    | cons block blocks =>
      dsimp only
      split_ifs
      · exact List.append_assoc ..
      · obtain ⟨hreceived, hrest⟩ := add_received order block
          { s with blocks := blocks, received := s.received ++ [block] }
        rw [hreceived, hrest]
        exact List.append_assoc ..
  · rfl

theorem startSubmission_received (order : HashOrder) (submission : Submission) (s : BlobSubmitter) :
    (s.startSubmission order submission).received = s.received ∧
      (s.startSubmission order submission).blocks = s.blocks := by
  unfold startSubmission
  dsimp only
  split
  · exact ⟨rfl, rfl⟩
  · exact add_received ..

/-- The blocks that are received are those that are sent, in their order. -/
theorem turn_received (s : BlobSubmitter) (t : Turn) :
    (s.turn t).received ++ (s.turn t).blocks = s.received ++ (s.blocks ++ t.sent) := by
  have hturn := s.turns_turn t
  show _ = (s.send t.sent).received ++ (s.send t.sent).blocks
  generalize s.turn t = s', s.send t.sent = s at hturn ⊢
  cases hturn with
  | stopped | cancelled | confirmed | failed => rfl
  | inFlight => exact receiveBlock_received ..
  | nothingTaken => exact receiveBlock_received ..
  | taken =>
    obtain ⟨hreceived, hblocks⟩ := startSubmission_received t.order _
      { s with nextSubmission := s.nextSubmission.take.2 }
    rw [hreceived, hblocks]

theorem run_received (s : BlobSubmitter) (turns : List Turn) :
    (s.run turns).received ++ (s.run turns).blocks = s.received ++ (s.blocks ++ turns.flatMap (·.sent)) := by
  induction turns generalizing s with
  | nil =>
    rw [List.flatMap_nil, List.append_nil]
    rfl
  | cons t turns ih =>
    refine (ih (s.turn t)).trans ?_
    rw [← List.append_assoc, turn_received, List.flatMap_cons]
    simp only [List.append_assoc]

end BlobSubmitter

/-- After all turns the submissions taken, the next one and the pending block are the blocks received, in
their order. -/
theorem relays_run (h : Relays rollupFilter start s parts waiting lost) (turns : List Turn)
    (hincreasing : Increasing (s.received ++ (s.blocks ++ turns.flatMap (·.sent)))) :
    ∃ parts waiting lost, Relays rollupFilter start (s.run turns) parts waiting lost := by
  induction turns generalizing s parts waiting lost with
  | nil => exact ⟨parts, waiting, lost, h⟩
  | cons t turns ih =>
    rw [List.flatMap_cons, ← List.append_assoc s.blocks, ← List.append_assoc s.received] at hincreasing
    obtain ⟨parts, waiting, lost, hturn⟩ := h.turn t (List.pairwise_append.mp hincreasing).1
    refine ih hturn ?_
    rw [← List.append_assoc, BlobSubmitter.turn_received]
    exact hincreasing

/-! ## The next submission is taken -/

theorem BlobSubmitter.add_taken (order : HashOrder) (block : SequencerBlock) (s : BlobSubmitter) :
    (s.addSequencerBlockToNextSubmission order block).taken = s.taken := by
  unfold addSequencerBlockToNextSubmission
  dsimp only
  split <;> rfl

theorem BlobSubmitter.startSubmission_taken (order : HashOrder) (submission : Submission)
    (s : BlobSubmitter) : (s.startSubmission order submission).taken = s.taken ++ [submission] := by
  unfold startSubmission
  dsimp only
  split
  · rfl
  · exact add_taken ..

/-- The blocks that wait are taken as soon as no submission is in flight. -/
theorem Relays.taken_next (h : Relays rollupFilter start s parts waiting lost)
    (hreason : s.reason = none) (hongoing : s.ongoingSubmission = none) (hwaiting : waiting ≠ [])
    {t : Turn} (hcancelled : t.cancelled = false) :
    ∃ submission, NextSubmission.Carries rollupFilter submission waiting ∧
      (s.turn t).taken = s.taken ++ [submission] := by
  obtain ⟨-, ⟨hnil, -⟩ | ⟨submission, htake, hcarries⟩⟩ := h.accumulated.take
  · exact absurd hnil hwaiting
  · rw [h.sameFilter] at hcarries
    refine ⟨submission, hcarries, ?_⟩
    have hturn : s.turn t =
        ({ s.send t.sent with nextSubmission := s.nextSubmission.take.2 }).startSubmission t.order
          submission := by
      unfold BlobSubmitter.turn BlobSubmitter.send
      simp only [hreason, hcancelled, hongoing, htake, Bool.false_eq_true, if_false]
    rw [hturn]
    exact BlobSubmitter.startSubmission_taken ..

/-! ## Relaying -/

/-- Nothing is lost, unless the loop ended as one block alone is too large: it is the one that is lost. -/
inductive LostAlone (rollupFilter : IncludeRollup) : Option Reason → List SequencerBlock → Prop
  | nothing {reason : Option Reason} : (∀ e, reason ≠ some (.failedAdding e)) →
    LostAlone rollupFilter reason []
  | oversizedBlock {order : HashOrder} {block : SequencerBlock} {payload : Payload} :
    (Input.ofBlocks rollupFilter [block]).tryIntoPayload order = .ok payload →
    maxPayloadSizeBytes < payload.compressedSize →
    LostAlone rollupFilter
      (some (.failedAdding (.oversizedBlock block.header.height payload.compressedSize))) [block]

/-- Blocks that were received can be converted, so that the loop does not end as they cannot. -/
theorem Relays.lostAlone (hlaws : PayloadFormats.Laws)
    (h : Relays rollupFilter start s parts waiting lost) (hcountable : Countable s.received) :
    LostAlone rollupFilter s.reason lost := by
  have hended := h.ended
  have hall := h.all
  generalize s.reason = reason at hended ⊢
  cases hended with
  | nothing hreason => exact .nothing hreason
  | oversizedBlock _ hpayload hsize => exact .oversizedBlock hpayload hsize
  | @intoPayload order block source herror =>
    have hpending : s.pendingBlock = none := by
      rw [← Option.not_isSome_iff_eq_none]
      intro hsome
      cases (h.pending hsome).2
    have hreceived : (waiting ++ [block]).Sublist s.received := by
      have hfilter : (s.received.filter (start < ·.header.height)).Sublist s.received :=
        List.filter_sublist
      rw [hall, hpending, Option.toList_none, List.nil_append, List.append_assoc] at hfilter
      exact (List.sublist_append_right _ _).trans hfilter
    obtain ⟨payload, hpayload⟩ := Input.exists_tryIntoPayload hlaws
      (Input.isSome_sequencerNamespace_ofBlocks waiting block)
      ((Input.length_ofBlocks_le _).trans (hcountable.sublist hreceived)) order
    cases herror.symm.trans hpayload

/-- What the submitter does with the blocks that are sent to it: it receives them in their order, and
those above the starting height are in the submissions taken, in the next one, which is taken as soon as
none is in flight, or pending, unless the loop ended with an error about one of them that is too large. -/
def RelaysAll (rollupFilter : IncludeRollup) (started : StartedSubmission) (turns : List Turn) : Prop :=
  let s := (BlobSubmitter.new rollupFilter started).run turns
  s.received ++ s.blocks = turns.flatMap (·.sent) ∧
    ∃ parts waiting lost,
      Relays rollupFilter started.lastSubmissionSequencerHeight s parts waiting lost ∧
      LostAlone rollupFilter s.reason lost ∧
      (s.reason = none → s.ongoingSubmission = none → waiting ≠ [] → ∀ t : Turn, t.cancelled = false →
        ∃ submission, NextSubmission.Carries rollupFilter submission waiting ∧
          (s.turn t).taken = s.taken ++ [submission])

theorem relaysAll_of_increasing (hlaws : PayloadFormats.Laws) {started : StartedSubmission}
    {turns : List Turn} (hincreasing : Increasing (turns.flatMap (·.sent)))
    (hcountable : Countable (turns.flatMap (·.sent))) : RelaysAll rollupFilter started turns := by
  have hreceived := BlobSubmitter.run_received (BlobSubmitter.new rollupFilter started) turns
  refine ⟨hreceived, ?_⟩
  obtain ⟨parts, waiting, lost, hrelays⟩ :=
    relays_run (relays_new rollupFilter started) turns hincreasing
  have hsub : ((BlobSubmitter.new rollupFilter started).run turns).received.Sublist
      (turns.flatMap (·.sent)) := by
    have hbegins := List.sublist_append_left
      ((BlobSubmitter.new rollupFilter started).run turns).received
      ((BlobSubmitter.new rollupFilter started).run turns).blocks
    rw [hreceived] at hbegins
    exact hbegins
  exact ⟨parts, waiting, lost, hrelays, hrelays.lostAlone hlaws (hcountable.sublist hsub),
    fun hreason hongoing hwaiting t hcancelled =>
      hrelays.taken_next hreason hongoing hwaiting hcancelled⟩

/-- After any calls the next submission is the conversion of the blocks that were added; adding a block
succeeds, or fails and changes nothing; and blocks with increasing heights are relayed, each once. -/
theorem submitter_relays (rollupFilter : IncludeRollup) (started : StartedSubmission)
    (turns : List Turn) (hincreasing : Increasing (turns.flatMap (·.sent))) :
    (∀ calls : List NextSubmission.Call,
      (calls.foldl (fun s call => call.run s) (NextSubmission.new rollupFilter, [])).1.Accumulates
        (calls.foldl (fun s call => call.run s) (NextSubmission.new rollupFilter, [])).2) ∧
      (∀ (next : NextSubmission) (order : HashOrder) (block : SequencerBlock),
        next.TryAdds order block (next.tryAdd order block).1 (next.tryAdd order block).2) ∧
      (PayloadFormats.Laws → Countable (turns.flatMap (·.sent)) →
        RelaysAll rollupFilter started turns) :=
  ⟨NextSubmission.accumulates_calls rollupFilter, NextSubmission.tryAdd_spec,
    fun hlaws hcountable => relaysAll_of_increasing hlaws hincreasing hcountable⟩

end

/-! ### Two blocks -/

section

open Astria.Sequencer.TestUtils

/-- `Proof`. -/
def encodeProof (proof : RawProof) : Bytes :=
  bytesField 1 proof.auditPath ++ uint64Field 2 proof.leafIndex ++ uint64Field 3 proof.treeSize

/-- A message that may be absent. -/
def optionalField {α : Type} (number : ℕ) (encode : α → Bytes) (o : Option α) : Bytes :=
  o.elim [] fun a => messageField number (encode a)

/-- `SequencerBlockHeader`. -/
def encodeHeader (header : RawSequencerBlockHeader) : Bytes :=
  bytesField 1 (asBytes header.chainId) ++ uint64Field 2 header.height ++
    optionalField 3 (fun time => uint64Field 1 time.seconds.toNat ++ uint64Field 2 time.nanos.toNat)
      header.time ++
    bytesField 4 header.dataHash ++ bytesField 5 header.proposerAddress ++
    bytesField 6 header.rollupTransactionsRoot

/-- `SubmittedMetadata`. -/
def encodeMetadata (metadata : RawSubmittedMetadata) : Bytes :=
  bytesField 1 metadata.blockHash ++ optionalField 2 encodeHeader metadata.header ++
    metadata.rollupIds.flatMap (fun id => messageField 3 (bytesField 1 id)) ++
    optionalField 4 encodeProof metadata.rollupTransactionsProof ++
    optionalField 5 encodeProof metadata.rollupIdsProof ++
    metadata.upgradeChangeHashes.flatMap (messageField 6) ++
    optionalField 7 (fun info => bytesField 1 info.extendedCommitInfo ++
      optionalField 2 encodeProof info.proof) metadata.extendedCommitInfoWithProof

/-- `SubmittedRollupData`. -/
def encodeRollupData (data : RawSubmittedRollupData) : Bytes :=
  bytesField 1 data.sequencerBlockHash ++ optionalField 2 (bytesField 1) data.rollupId ++
    data.transactions.flatMap (messageField 3) ++ optionalField 4 encodeProof data.proof

/-- The bytes as one block of a Brotli stream that is not compressed, and the last, empty block. -/
def storedBlock (data : Bytes) : Bytes :=
  let head := (data.length - 1) * 16 + 2 ^ 20
  [UInt8.ofNat head, UInt8.ofNat (head / 256), UInt8.ofNat (head / 256 ^ 2)] ++ data ++ [3]

/-- The messages of `prost`, stored in Brotli streams, that make valid blobs. -/
scoped instance : PayloadFormats where
  encodeMetadataList entries := entries.flatMap fun metadata => messageField 1 (encodeMetadata metadata)
  encodeRollupDataList entries := entries.flatMap fun data => messageField 1 (encodeRollupData data)
  compressBytes data := .ok (storedBlock data)
  checkBlob _ _ := .ok ()

/-- A block without rollups. -/
def testBlock (height : ℕ) : SequencerBlock :=
  { blockHash := List.Vector.replicate 32 (UInt8.ofNat height)
    header :=
      { chainId := "test"
        height := height
        time := 0
        rollupTransactionsRoot := List.Vector.replicate 32 1
        dataHash := List.Vector.replicate 32 2
        proposerAddress := List.Vector.replicate 20 3 }
    rollupTransactions := IndexMap.empty
    rollupTransactionsProof := { auditPath := [], leafIndex := 0, treeSize := 1 }
    rollupIdsProof := { auditPath := [], leafIndex := 0, treeSize := 1 }
    upgradeChangeHashes := []
    extendedCommitInfoWithProof := none }

/-- A turn in which some blocks are sent. -/
def testTurn (sent : List SequencerBlock) : Turn :=
  { sent := sent
    cancelled := false
    submissionResult := none
    order := { iterate := id, perm := fun _ => List.Perm.refl _ } }

/-- Blocks 1 and 2 come when block 1 is submitted already. -/
theorem submitter_relays_two :
    RelaysAll { rollupIds := [] }
      { lastSubmissionSequencerHeight := 1, lastSubmissionCelestiaHeight := 7 }
      [testTurn [testBlock 1, testBlock 2], testTurn [], testTurn []] :=
  (submitter_relays _ _ _ (by simp [Increasing, testTurn, testBlock])).2.2
    ⟨fun _ => ⟨_, rfl⟩, fun _ _ => rfl⟩ (by unfold Countable; decide)

end

end Astria.Relayer
