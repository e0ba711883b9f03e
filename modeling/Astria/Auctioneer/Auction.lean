import Astria.Auctioneer.Bid
import Astria.Lib.History

/-!
# Auctions

The auction of one proposed block: its frontend, which takes executed blocks, commitments and bids, and
its worker, which runs beside it, times the auction and submits the winner
(`crates/astria-auctioneer/src/auctioneer/auction/`).

The two are connected by two one-shot channels and by a queue of bids.  An event is a call of the
frontend, or one turn of the worker: a round of the `select!` of its loop, whose branches are tried in
their order.  Whether the timer is up and how far the request of the nonce has come are arguments of a
turn, so every schedule is a list of events.  Every step tells what occurred.

Results:
* `FirstPrice.highestBid_bid`: the allocation rule keeps the first of the highest bids;
* `Auction.run_append_singleton`: a run and its history grow by one step.
-/

namespace Astria.Auctioneer

open Astria.Core Astria.Lib
open Astria.Sequencer (BlockHash External)

/-! ## One-shot channels -/

/-- A `oneshot` channel: which of its ends are held, and whether its signal was sent. -/
structure Oneshot where
  sender : Bool
  sent : Bool
  receiver : Bool
  deriving DecidableEq

/-- What a branch of the `select!` comes to. -/
inductive Polled where
  | ready
  | disabled
  | pending
  deriving DecidableEq

namespace Oneshot

def channel : Oneshot := { sender := true, sent := false, receiver := true }

/-- The sender is dropped without a signal. -/
def dropSender (c : Oneshot) : Oneshot := { c with sender := false }

/-- The sender is used up; a receiver that is gone gets no signal. -/
def send (live : Bool) (c : Oneshot) : Oneshot :=
  if live then { c with sender := false, sent := true } else c.dropSender

/-- The receiver is taken and closed. -/
def take (c : Oneshot) : Oneshot := { c with receiver := false }

/-- The branch of the receiver, which is disabled if there is none and if its future fails. -/
def poll (c : Oneshot) : Polled :=
  if c.receiver then if c.sent then .ready else if c.sender then .pending else .disabled
  else .disabled

end Oneshot

/-! ## The allocation rule -/

/-- `FirstPrice` (`allocation_rule.rs`). -/
structure FirstPrice where
  highestBid : Option Bid
  bidsSeen : ℕ
  deriving DecidableEq

namespace FirstPrice

def new : FirstPrice := { highestBid := none, bidsSeen := 0 }

/-- A candidate wins against the incumbent only with a higher bid. -/
def bid (rule : FirstPrice) (candidate : Bid) : FirstPrice :=
  { bidsSeen := saturatingAdd u64Max rule.bidsSeen 1
    highestBid :=
      match rule.highestBid with
      | some current => if current.fee < candidate.fee then some candidate else some current
      | none => some candidate }

def takeWinner (rule : FirstPrice) : Option Bid × FirstPrice :=
  (rule.highestBid, { rule with highestBid := none })

/-- The rule computes the first bid with the greatest fee. -/
theorem highestBid_bid {rule : FirstPrice} {bids : List Bid} {candidate : Bid}
    (h : rule.highestBid = bids.argmax Bid.fee) :
    (rule.bid candidate).highestBid = (bids ++ [candidate]).argmax Bid.fee := by
  rw [List.argmax_concat, ← h]
  unfold bid
  cases rule.highestBid <;> rfl

end FirstPrice

/-! ## The parties -/

/-- `Summary`, without the response of the Sequencer. -/
inductive Summary where
  | cancelledDuringAuction
  | noBids
  | submitted (nonceUsed : ℕ)
  deriving DecidableEq

/-- `worker::Error`. -/
inductive WorkerError where
  | channelsClosed
  | noNonce
  | nonceFetchPanicked
  | submissionElapsed
  | submissionFailed
  deriving DecidableEq

/-- How a task ends without a result. -/
inductive JoinError where
  | panicked
  | cancelled
  deriving DecidableEq

/-- The variables of `run_auction_loop`; of the timer and the request, whether they were started. -/
structure LoopVars where
  latencyMarginTimer : Bool
  allocationRule : FirstPrice
  auctionIsOpen : Bool
  nonceFetch : Bool
  deriving DecidableEq

/-- Where `Worker::run` is. -/
inductive Task where
  | looping (vars : LoopVars)
  | submitting (pendingNonce : ℕ)
  | ended (result : Except JoinError (Except WorkerError Summary))

/-- `Factory`: what a worker is given. -/
structure Factory where
  sequencerKey : SequencerKey
  feeAssetDenomination : Denom
  sequencerChainId : String
  rollupId : RollupId
  lastSuccessfulNonce : Option ℕ

/-- `Auction`, with the ends of the channels and its worker. -/
structure Auction where
  factory : Factory
  blockHash : BlockHash
  height : ℕ
  hashOfExecutedBlockOnRollup : Option RollupBlockHash
  startBidsChannel : Oneshot
  startTimerChannel : Oneshot
  bids : List Bid
  /-- The frontend, and with it the sender of the bids, is gone. -/
  dropped : Bool
  cancelled : Bool
  worker : Task

/-- `SequencerBlockCommit` (`sequencerblock/optimistic/v1alpha1.rs`). -/
structure SequencerBlockCommit where
  height : ℕ
  blockHash : BlockHash
  deriving DecidableEq

/-- `Factory::start_new`. -/
def Factory.startNew (factory : Factory) (block : FilteredSequencerBlock) : Auction :=
  { factory := factory
    blockHash := block.blockHash
    height := block.height
    hashOfExecutedBlockOnRollup := none
    startBidsChannel := Oneshot.channel
    startTimerChannel := Oneshot.channel
    bids := []
    dropped := false
    cancelled := false
    worker := .looping
      { latencyMarginTimer := false
        allocationRule := FirstPrice.new
        auctionIsOpen := false
        nonceFetch := false } }

namespace Auction

/-- The worker holds its ends of the channels until it ends. -/
def live (auction : Auction) : Bool :=
  match auction.worker with
  | .ended _ => false
  | _ => true

def ends (auction : Auction) (result : Except JoinError (Except WorkerError Summary)) : Auction :=
  { auction with worker := .ended result }

/-! ## The frontend -/

def startTimer (auction : Auction) (commitment : SequencerBlockCommit) :
    Except Report Unit × Auction :=
  if auction.blockHash = commitment.blockHash ∧ auction.height = commitment.height then
    if auction.startTimerChannel.sender then
      (if auction.live then .ok ()
        else .error ["the auction worker's start timer channel was already dropped"],
        { auction with startTimerChannel := auction.startTimerChannel.send auction.live })
    else
      (.error ["a previous commitment already triggered the start timer of the auction"], auction)
  else
    (.error
      ["commitment does not match auction; auction.block_hash = `" ++ hexOf auction.blockHash.toList ++
        s!"`, auction.height = `{auction.height}`, commitment.block_hash = `" ++
        hexOf commitment.blockHash.toList ++ s!"`, commitment.height = `{commitment.height}`"], auction)

def startBids (auction : Auction) (block : Executed) : Except Report Unit × Auction :=
  if auction.blockHash = block.sequencerBlockHash then
    if auction.startBidsChannel.sender then
      if auction.live then
        (.ok (),
          { auction with
            startBidsChannel := auction.startBidsChannel.send true
            hashOfExecutedBlockOnRollup := some block.rollupBlockHash })
      else
        (.error ["the auction worker's start bids channel was already dropped"],
          { auction with startBidsChannel := auction.startBidsChannel.send false })
    else (.error ["a previous executed block already triggered the auction to start bids"], auction)
  else
    (.error
      ["executed block does not match auction; auction.block_hash = `" ++
        hexOf auction.blockHash.toList ++ "`, executed.block_hash = `" ++
        hexOf block.sequencerBlockHash.toList ++ "`"], auction)

/-- `fmt_none_as_msg` of a hash. -/
def fmtNoneAsMsg (val : Option RollupBlockHash) (default : String) : String :=
  match val with
  | some hash => hexOf hash.inner
  | none => default

def doesBidMatchAuction (auction : Auction) (bid : Bid) : Except Report Unit :=
  if auction.blockHash = bid.sequencerParentBlockHash ∧
      auction.hashOfExecutedBlockOnRollup = some bid.rollupParentBlockHash then .ok ()
  else
    .error
      ["bid does not match auction; auction.sequencer_parent_block_hash = `" ++
        hexOf auction.blockHash.toList ++ "`, auction.rollup_parent_block_hash = `" ++
        fmtNoneAsMsg auction.hashOfExecutedBlockOnRollup "<not yet received>" ++
        "`, bid.sequencer_parent_block_hash = `" ++ hexOf bid.sequencerParentBlockHash.toList ++
        "`, bid.rollup_parent_block_hash = `" ++ hexOf bid.rollupParentBlockHash.inner ++ "`"]

def forwardBidToAuction (auction : Auction) (bid : Bid) : Except Report Unit × Auction :=
  match auction.doesBidMatchAuction bid with
  | .error err => (.error err, auction)
  | .ok () =>
    if auction.live then (.ok (), { auction with bids := auction.bids ++ [bid] })
    else (.error ["failed to submit bid to auction; the bid is lost", "channel closed"], auction)

/-- The frontend is dropped, and its ends of the channels with it. -/
def drop (auction : Auction) : Auction :=
  { auction with
    startBidsChannel := auction.startBidsChannel.dropSender
    startTimerChannel := auction.startTimerChannel.dropSender
    dropped := true }

end Auction

/-! ## The worker -/

/-- How far the request of the pending nonce has come. -/
inductive NonceFetch where
  | pending
  | fetched (nonce : ℕ)
  | panicked
  deriving DecidableEq

/-- What a turn of the worker finds. -/
structure Wake where
  timerUp : Bool
  nonceFetch : NonceFetch
  deriving DecidableEq

/-- The branches of the `select!` of the loop; `closed` is its `else`. -/
inductive Branch where
  | timer
  | startBids
  | startTimer
  | bid (bid : Bid) (waiting : List Bid)
  | closed
  | pending
  deriving DecidableEq

/-- What occurred in an auction: calls of the frontend that succeed and what the worker does. -/
inductive Occurrence where
  | executed (block : Executed)
  | committed (commitment : SequencerBlockCommit)
  | forwarded (bid : Bid)
  | opened
  | timerStarted
  | processed (bid : Bid)
  | timerExpired
  | submitted (transaction : Transaction)

/-- The nonce of the transaction: the one that was fetched, or the one after the last successful. -/
def pendingNonce (lastSuccessfulNonce : Option ℕ) : NonceFetch → Except WorkerError ℕ
  | .fetched nonce => .ok nonce
  | .panicked => .error .nonceFetchPanicked
  | .pending =>
    match lastSuccessfulNonce with
    | some nonce => .ok (saturatingAdd u32Max nonce 1)
    | none => .error .noNonce

namespace Auction

/-- The `select!` of `run_auction_loop`: the first of its branches that is ready. -/
def select (auction : Auction) (timerUp : Bool) (vars : LoopVars) : Branch :=
  if vars.latencyMarginTimer && timerUp then .timer
  else if auction.startBidsChannel.poll = .ready then .startBids
  else if auction.startTimerChannel.poll = .ready then .startTimer
  else
    match vars.auctionIsOpen, auction.bids with
    | true, bid :: waiting => .bid bid waiting
    | isOpen, _ =>
      -- every branch is disabled, that of the bids if they are not open or if no more will come
      if vars.latencyMarginTimer = false ∧ auction.startBidsChannel.poll = .disabled ∧
          auction.startTimerChannel.poll = .disabled ∧ (isOpen = false ∨ auction.dropped = true) then .closed
      else .pending

section

variable [ext : External] [wire : WireFormats] [formats : TransactionFormats] [msgs : AuctionFormats]

/-- `Worker::run` from the end of the loop to the submission of the winner. -/
def submitWinner (auction : Auction) (nonceFetch : NonceFetch) (vars : LoopVars) :
    Auction × List Occurrence :=
  match vars.allocationRule.takeWinner.1 with
  | none => (auction.ends (.ok (.ok .noBids)), [])
  | some winner =>
    -- `expect`: the request was started with the timer
    if vars.nonceFetch then
      match pendingNonce auction.factory.lastSuccessfulNonce nonceFetch with
      | .error e => (auction.ends (.ok (.error e)), [])
      | .ok nonce =>
        match winner.intoTransactionBody nonce auction.factory.rollupId auction.factory.sequencerKey
            auction.factory.feeAssetDenomination auction.factory.sequencerChainId with
        | .returns body =>
          ({ auction with worker := .submitting nonce },
            [.submitted (body.sign auction.factory.sequencerKey.signingKey)])
        | _ => (auction.ends (.error .panicked), [])
    else (auction.ends (.error .panicked), [])

/-- A round of `run_auction_loop`. -/
def loopTurn (auction : Auction) (wake : Wake) (vars : LoopVars) : Auction × List Occurrence :=
  match auction.select wake.timerUp vars with
  | .timer =>
    let (next, occurred) := auction.submitWinner wake.nonceFetch vars
    (next, .timerExpired :: occurred)
  | .startBids =>
    ({ auction with
        startBidsChannel := auction.startBidsChannel.take
        worker := .looping { vars with auctionIsOpen := true } }, [.opened])
  | .startTimer =>
    ({ auction with
        startTimerChannel := auction.startTimerChannel.take
        worker := .looping { vars with latencyMarginTimer := true, nonceFetch := true } },
      [.timerStarted])
  | .bid bid waiting =>
    ({ auction with
        bids := waiting
        worker := .looping { vars with allocationRule := vars.allocationRule.bid bid } },
      [.processed bid])
  | .closed => (auction.ends (.ok (.error .channelsClosed)), [])
  | .pending => (auction, [])

/-- What the submission of the winner comes to. -/
inductive Submission where
  | responded
  | failed
  | elapsed

/-- The end of `submit_winner_with_timeout`. -/
def Submission.result (pendingNonce : ℕ) : Submission → Except WorkerError Summary
  | .responded => .ok (.submitted pendingNonce)
  | .failed => .error .submissionFailed
  | .elapsed => .error .submissionElapsed

/-! ## Runs -/

/-- What is delivered to an auction. -/
inductive Event where
  | executedBlock (block : Executed)
  | blockCommitment (commitment : SequencerBlockCommit)
  | bid (bid : Bid)
  | cancel
  | abort
  | drop
  /-- A turn of the worker. -/
  | turn (wake : Wake)
  /-- The worker, in its loop, finds that it is cancelled. -/
  | runCancelled
  | submissionEnds (submission : Submission)

/-- A call of the frontend, which occurred if it succeeds. -/
def call (result : Except Report Unit × Auction) (occurrence : Occurrence) :
    Auction × List Occurrence :=
  match result.1 with
  | .ok () => (result.2, [occurrence])
  | .error _ => (result.2, [])

def step (auction : Auction) (event : Event) : Auction × List Occurrence :=
  match event with
  | .executedBlock block =>
    if auction.dropped then (auction, []) else call (auction.startBids block) (.executed block)
  | .blockCommitment commitment =>
    if auction.dropped then (auction, [])
    else call (auction.startTimer commitment) (.committed commitment)
  | .bid bid =>
    if auction.dropped then (auction, []) else call (auction.forwardBidToAuction bid) (.forwarded bid)
  | .cancel => ({ auction with cancelled := true }, [])
  | .drop => (auction.drop, [])
  | .abort => (if auction.live then auction.ends (.error .cancelled) else auction, [])
  | .turn wake =>
    match auction.worker with
    | .looping vars => auction.loopTurn wake vars
    | _ => (auction, [])
  | .runCancelled =>
    match auction.worker with
    | .looping _ =>
      (if auction.cancelled then auction.ends (.ok (.ok .cancelledDuringAuction)) else auction, [])
    | _ => (auction, [])
  | .submissionEnds submission =>
    match auction.worker with
    | .submitting nonce => (auction.ends (.ok (submission.result nonce)), [])
    | _ => (auction, [])

/-- A run, with everything that occurred in it. -/
def run (auction : Auction) (events : List Event) : Auction × List Occurrence :=
  events.foldl (fun st event => ((st.1.step event).1, st.2 ++ (st.1.step event).2)) (auction, [])

theorem run_append_singleton (auction : Auction) (events : List Event) (event : Event) :
    auction.run (events ++ [event]) =
      (((auction.run events).1.step event).1,
        (auction.run events).2 ++ ((auction.run events).1.step event).2) := by
  unfold run
  rw [List.foldl_append]
  rfl

end

end Auction

end Astria.Auctioneer
