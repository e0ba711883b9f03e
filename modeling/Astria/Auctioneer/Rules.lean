import Astria.Auctioneer.Auction

/-!
# The rules of an auction

What may occur in an auction after what has occurred in it, as a relation on histories, and that the
frontend and the worker together keep to it under every schedule.

The matching state of the frontend, the two one-shot channels and the variables of the worker's loop are
each tied to the history on its own (`Signal`, `LoopTracked`, `Tracked`); the orders between the two
parties follow from these ties.

Results:
* `Tracked.step`: the ties are kept by every event;
* `auction_legal`: in every history the winner, the bids, the opening and the timer obey the rules.
-/

namespace Astria.Auctioneer

open Astria.Core Astria.Lib
open Astria.Sequencer (External)

/-! ## Reading a history -/

namespace Occurrence

def executed? : Occurrence → Option Executed
  | .executed block => some block
  | _ => none

def committed? : Occurrence → Option SequencerBlockCommit
  | .committed commitment => some commitment
  | _ => none

def forwarded? : Occurrence → Option Bid
  | .forwarded bid => some bid
  | _ => none

def processed? : Occurrence → Option Bid
  | .processed bid => some bid
  | _ => none

def submitted? : Occurrence → Option Transaction
  | .submitted transaction => some transaction
  | _ => none

def isTimerStarted : Occurrence → Bool
  | .timerStarted => true
  | _ => false

/-- It is a call of the frontend that occurred. -/
def isCall : Occurrence → Bool
  | .executed _ | .committed _ | .forwarded _ => true
  | _ => false

end Occurrence

/-- The executed blocks that were accepted. -/
def executedOf (history : List Occurrence) : List Executed := history.filterMap Occurrence.executed?

/-- The commitments that were accepted. -/
def committedOf (history : List Occurrence) : List SequencerBlockCommit :=
  history.filterMap Occurrence.committed?

/-- The bids that the worker was sent. -/
def forwardedOf (history : List Occurrence) : List Bid := history.filterMap Occurrence.forwarded?

def processedOf (history : List Occurrence) : List Bid := history.filterMap Occurrence.processed?

def submittedOf (history : List Occurrence) : List Transaction :=
  history.filterMap Occurrence.submitted?

attribute [simp] Occurrence.executed? Occurrence.committed? Occurrence.forwarded?
  Occurrence.processed? Occurrence.submitted?

section

variable (history : List Occurrence) (o : Occurrence)

@[simp] theorem executedOf_append_singleton :
    executedOf (history ++ [o]) = executedOf history ++ o.executed?.toList :=
  filterMap_append_singleton Occurrence.executed? o

@[simp] theorem committedOf_append_singleton :
    committedOf (history ++ [o]) = committedOf history ++ o.committed?.toList :=
  filterMap_append_singleton Occurrence.committed? o

@[simp] theorem forwardedOf_append_singleton :
    forwardedOf (history ++ [o]) = forwardedOf history ++ o.forwarded?.toList :=
  filterMap_append_singleton Occurrence.forwarded? o

@[simp] theorem processedOf_append_singleton :
    processedOf (history ++ [o]) = processedOf history ++ o.processed?.toList :=
  filterMap_append_singleton Occurrence.processed? o

@[simp] theorem submittedOf_append_singleton :
    submittedOf (history ++ [o]) = submittedOf history ++ o.submitted?.toList :=
  filterMap_append_singleton Occurrence.submitted? o

/-- No turn of the worker is a call. -/
theorem readings_of_turn {o : Occurrence} (ho : o.isCall = false) :
    executedOf (history ++ [o]) = executedOf history ∧
      committedOf (history ++ [o]) = committedOf history ∧
      forwardedOf (history ++ [o]) = forwardedOf history := by
  cases o with
  | executed _ | committed _ | forwarded _ => cases ho
  | opened | timerStarted | processed _ | timerExpired | submitted _ => simp

end

/-! ## The channels and the history -/

/-- What a one-shot channel says of the calls that were accepted, and of the signal's reception. -/
structure Signal {α : Type} (c : Oneshot) (accepted : List α) (received : Prop) : Prop where
  sender : c.sender = true → c.sent = false
  unsent : c.sent = false → accepted = []
  sent : c.sent = true → ∃ a, accepted = [a]
  received : received ↔ c.receiver = false

namespace Signal

variable {α : Type} {c : Oneshot} {accepted : List α} {received : Prop}

theorem channel {received : Prop} (h : ¬received) :
    Signal Oneshot.channel ([] : List α) received where
  sender _ := rfl
  unsent _ := rfl
  sent := by simp [Oneshot.channel]
  received := by simp [Oneshot.channel, h]

theorem dropSender (h : Signal c accepted received) : Signal c.dropSender accepted received where
  sender := by simp [Oneshot.dropSender]
  unsent := h.unsent
  sent := h.sent
  received := h.received

/-- The only call that is accepted. -/
theorem send (h : Signal c accepted received) (hsender : c.sender = true) (a : α) :
    Signal (c.send true) (accepted ++ [a]) received where
  sender := by simp [Oneshot.send]
  unsent := by simp [Oneshot.send]
  sent _ := ⟨a, by rw [h.unsent (h.sender hsender), List.nil_append]⟩
  received := h.received

/-- A signal is received once, and it was sent. -/
theorem take (h : Signal c accepted received) (hpoll : c.poll = .ready) {received' : Prop}
    (h' : received') :
    ¬received ∧ (∃ a, accepted = [a]) ∧ Signal c.take accepted received' := by
  unfold Oneshot.poll at hpoll
  split_ifs at hpoll with hreceiver hsent
  refine ⟨?_, h.sent hsent, h.sender, h.unsent, h.sent, by simpa [Oneshot.take] using h'⟩
  rw [h.received, hreceiver]
  simp

end Signal

/-- What the variables of the loop say of the history. -/
structure LoopTracked (vars : LoopVars) (history : List Occurrence) : Prop where
  latencyMarginTimer : vars.latencyMarginTimer = true ↔ .timerStarted ∈ history
  nonceFetch : vars.nonceFetch = vars.latencyMarginTimer
  auctionIsOpen : vars.auctionIsOpen = true ↔ .opened ∈ history
  highestBid : vars.allocationRule.highestBid = (processedOf history).argmax Bid.fee
  unexpired : .timerExpired ∉ history
  unsubmitted : submittedOf history = []

/-- What the place of the worker says of the history. -/
def Task.Tracked (task : Task) (history : List Occurrence) : Prop :=
  match task with
  | .looping vars => LoopTracked vars history
  | .submitting _ => True
  | .ended result => result ≠ .error .panicked

/-- A call of the frontend says nothing of the worker. -/
theorem Task.Tracked.call {task : Task} {history : List Occurrence} {o : Occurrence}
    (h : task.Tracked history) (ho : o.isCall = true) : task.Tracked (history ++ [o]) := by
  cases task with
  | looping vars =>
    obtain ⟨htimer, hfetch, hopen, hhighest, hunexpired, hunsubmitted⟩ := h
    have hrest : LoopTracked vars (history ++ [o]) := by
      cases o with
      | executed _ | committed _ | forwarded _ =>
        exact ⟨by simpa using htimer, hfetch, by simpa using hopen, by simpa using hhighest,
          by simpa using hunexpired, by simpa using hunsubmitted⟩
      | opened | timerStarted | processed _ | timerExpired | submitted _ => cases ho
    exact hrest
  | submitting nonce => trivial
  | ended result => exact h

/-! ## The branches of the loop -/

namespace Auction

/-- What each branch that the loop takes was ready for. -/
theorem select_cases (auction : Auction) (timerUp : Bool) (vars : LoopVars) :
    match auction.select timerUp vars with
    | .timer => vars.latencyMarginTimer = true
    | .startBids => auction.startBidsChannel.poll = .ready
    | .startTimer => auction.startTimerChannel.poll = .ready
    | .bid bid waiting => vars.auctionIsOpen = true ∧ auction.bids = bid :: waiting
    | .closed | .pending => True := by
  unfold select
  split_ifs with htimer hbids hstart
  · exact (Bool.and_eq_true_iff.mp htimer).1
  · exact hbids
  · exact hstart
  · cases hopen : vars.auctionIsOpen with
    | false =>
      dsimp only
      split_ifs <;> trivial
    | true =>
      cases hqueue : auction.bids with
      | cons bid waiting => exact ⟨rfl, rfl⟩
      | nil =>
        dsimp only
        split_ifs <;> trivial

end Auction

/-! ## The rules -/

section

variable [ext : External] [wire : WireFormats] [formats : TransactionFormats] [msgs : AuctionFormats]

/-- The bid names the proposed block and the rollup block of the executed one. -/
def Bid.Names (bid : Bid) (block : FilteredSequencerBlock) (executed : Executed) : Prop :=
  bid.sequencerParentBlockHash = block.blockHash ∧
    bid.rollupParentBlockHash = executed.rollupBlockHash

/-- The transaction is signed by the auctioneer and has one action, with the allocation of the bid. -/
def Factory.Carries (factory : Factory) (winner : Bid) (transaction : Transaction) : Prop :=
  ∃ (nonce : ℕ) (body : TransactionBody),
    body.actions.inner =
      [.rollupDataSubmission
        { rollupId := factory.rollupId
          data := winner.allocationData factory.sequencerKey
          feeAsset := factory.feeAssetDenomination }] ∧
    body.params = { nonce := nonce, chainId := factory.sequencerChainId } ∧
    transaction = body.sign factory.sequencerKey.signingKey

/-- What may occur after a history in the auction of a block. -/
def Allowed (factory : Factory) (block : FilteredSequencerBlock) (history : List Occurrence) :
    Occurrence → Prop
  | .executed executed => executedOf history = [] ∧ executed.sequencerBlockHash = block.blockHash
  | .committed commitment =>
    committedOf history = [] ∧ commitment.blockHash = block.blockHash ∧
      commitment.height = block.height
  | .forwarded bid => ∃ executed, executedOf history = [executed] ∧ bid.Names block executed
  | .opened => .opened ∉ history ∧ ∃ executed, executedOf history = [executed]
  | .timerStarted =>
    .timerStarted ∉ history ∧ ∃ commitment, committedOf history = [commitment] ∧
      commitment.blockHash = block.blockHash ∧ commitment.height = block.height
  | .processed bid =>
    .opened ∈ history ∧ .timerExpired ∉ history ∧
      (∃ executed, executedOf history = [executed] ∧ bid.Names block executed) ∧
      -- the bids are processed in the order in which they were received
      ∃ waiting, forwardedOf history = processedOf history ++ bid :: waiting
  | .timerExpired => .timerStarted ∈ history ∧ .timerExpired ∉ history
  | .submitted transaction =>
    submittedOf history = [] ∧
      ∃ before winner, history = before ++ [.timerExpired] ∧
        EarliestMaximal Bid.fee winner (processedOf before) ∧ factory.Carries winner transaction

/-! ## The invariant -/

/-- What the fields of the two parties say of the history. -/
structure Tracked (factory : Factory) (block : FilteredSequencerBlock) (auction : Auction)
    (history : List Occurrence) : Prop where
  legal : Legal (Allowed factory block) history
  factory : auction.factory = factory
  blockHash : auction.blockHash = block.blockHash
  height : auction.height = block.height
  bidsSignal : Signal auction.startBidsChannel (executedOf history) (.opened ∈ history)
  timerSignal : Signal auction.startTimerChannel (committedOf history) (.timerStarted ∈ history)
  hashOfExecutedBlock : auction.hashOfExecutedBlockOnRollup =
    (executedOf history).head?.map Executed.rollupBlockHash
  committed : ∀ commitment ∈ committedOf history,
    commitment.blockHash = block.blockHash ∧ commitment.height = block.height
  forwarded : ∀ bid ∈ forwardedOf history,
    ∃ executed, executedOf history = [executed] ∧ bid.Names block executed
  bids : forwardedOf history = processedOf history ++ auction.bids
  worker : auction.worker.Tracked history

namespace Tracked

variable {factory : Factory} {block : FilteredSequencerBlock} {auction : Auction}
  {history : List Occurrence}

theorem startNew (factory : Factory) (block : FilteredSequencerBlock) :
    Tracked factory block (factory.startNew block) [] where
  legal := legal_nil
  factory := rfl
  blockHash := rfl
  height := rfl
  bidsSignal := Signal.channel (by simp)
  timerSignal := Signal.channel (by simp)
  hashOfExecutedBlock := rfl
  committed := by simp [committedOf]
  forwarded := by simp [forwardedOf]
  bids := rfl
  worker :=
    { latencyMarginTimer := by simp
      nonceFetch := rfl
      auctionIsOpen := by simp
      highestBid := rfl
      unexpired := by simp
      unsubmitted := rfl }

/-- Nothing occurs when a sender is dropped. -/
theorem channels (h : Tracked factory block auction history) {startBids startTimer : Oneshot}
    (hbids : Signal startBids (executedOf history) (.opened ∈ history))
    (htimer : Signal startTimer (committedOf history) (.timerStarted ∈ history)) :
    Tracked factory block
      { auction with startBidsChannel := startBids, startTimerChannel := startTimer } history :=
  { h with bidsSignal := hbids, timerSignal := htimer }

theorem ends (h : Tracked factory block auction history)
    {result : Except JoinError (Except WorkerError Summary)} (hresult : result ≠ .error .panicked) :
    Tracked factory block (auction.ends result) history :=
  { h with worker := hresult }

/-! ### Calls of the frontend -/

theorem acceptExecuted (h : Tracked factory block auction history) {executed : Executed}
    (hsender : auction.startBidsChannel.sender = true)
    (hmatch : auction.blockHash = executed.sequencerBlockHash) :
    Tracked factory block
      { auction with
        startBidsChannel := auction.startBidsChannel.send true
        hashOfExecutedBlockOnRollup := some executed.rollupBlockHash }
      (history ++ [.executed executed]) := by
  have hnone : executedOf history = [] := h.bidsSignal.unsent (h.bidsSignal.sender hsender)
  have hsignal := h.bidsSignal.send hsender executed
  have hforwarded : ∀ bid, bid ∉ forwardedOf history := by
    intro bid hbid
    obtain ⟨executed', hexecuted', -⟩ := h.forwarded bid hbid
    rw [hnone] at hexecuted'
    cases hexecuted'
  exact
    { legal := h.legal.append_singleton ⟨hnone, by rw [← hmatch, h.blockHash]⟩
      factory := h.factory
      blockHash := h.blockHash
      height := h.height
      bidsSignal := by simpa using hsignal
      timerSignal := by simpa using h.timerSignal
      hashOfExecutedBlock := by simp [hnone]
      committed := by simpa using h.committed
      forwarded := fun bid hbid => absurd (by simpa using hbid) (hforwarded bid)
      bids := by simpa using h.bids
      worker := h.worker.call rfl }

theorem acceptCommitment (h : Tracked factory block auction history)
    {commitment : SequencerBlockCommit} (hsender : auction.startTimerChannel.sender = true)
    (hhash : auction.blockHash = commitment.blockHash) (hheight : auction.height = commitment.height) :
    Tracked factory block
      { auction with startTimerChannel := auction.startTimerChannel.send true }
      (history ++ [.committed commitment]) := by
  have hnone : committedOf history = [] := h.timerSignal.unsent (h.timerSignal.sender hsender)
  have hsignal := h.timerSignal.send hsender commitment
  have hcommitment : commitment.blockHash = block.blockHash ∧ commitment.height = block.height :=
    ⟨by rw [← hhash, h.blockHash], by rw [← hheight, h.height]⟩
  exact
    { legal := h.legal.append_singleton ⟨hnone, hcommitment⟩
      factory := h.factory
      blockHash := h.blockHash
      height := h.height
      bidsSignal := by simpa using h.bidsSignal
      timerSignal := by simpa using hsignal
      hashOfExecutedBlock := by simpa using h.hashOfExecutedBlock
      committed := by simpa [hnone] using hcommitment
      forwarded := by simpa using h.forwarded
      bids := by simpa using h.bids
      worker := h.worker.call rfl }

/-- The hash that the frontend keeps is the one of the only block that was executed. -/
theorem executed_of_hash (h : Tracked factory block auction history) {hash : RollupBlockHash}
    (hhash : auction.hashOfExecutedBlockOnRollup = some hash) :
    ∃ executed, executedOf history = [executed] ∧ executed.rollupBlockHash = hash := by
  have hkept := h.hashOfExecutedBlock
  rw [hhash] at hkept
  cases hsent : auction.startBidsChannel.sent with
  | false =>
    rw [h.bidsSignal.unsent hsent] at hkept
    cases hkept
  | true =>
    obtain ⟨executed, hexecuted⟩ := h.bidsSignal.sent hsent
    rw [hexecuted] at hkept
    exact ⟨executed, hexecuted, (Option.some.inj hkept).symm⟩

theorem acceptBid (h : Tracked factory block auction history) {bid : Bid}
    (hsequencer : auction.blockHash = bid.sequencerParentBlockHash)
    (hrollup : auction.hashOfExecutedBlockOnRollup = some bid.rollupParentBlockHash) :
    Tracked factory block { auction with bids := auction.bids ++ [bid] }
      (history ++ [.forwarded bid]) := by
  obtain ⟨executed, hexecuted, hhash⟩ := h.executed_of_hash hrollup
  have hnames : bid.Names block executed := ⟨by rw [← hsequencer, h.blockHash], hhash.symm⟩
  exact
    { legal := h.legal.append_singleton ⟨executed, hexecuted, hnames⟩
      factory := h.factory
      blockHash := h.blockHash
      height := h.height
      bidsSignal := by simpa using h.bidsSignal
      timerSignal := by simpa using h.timerSignal
      hashOfExecutedBlock := by simpa using h.hashOfExecutedBlock
      committed := by simpa using h.committed
      forwarded := by
        intro other hother
        simp only [forwardedOf_append_singleton, Occurrence.forwarded?, Option.toList_some,
          List.mem_append, List.mem_singleton] at hother
        simp only [executedOf_append_singleton, Occurrence.executed?, Option.toList_none,
          List.append_nil]
        rcases hother with hother | rfl
        · exact h.forwarded other hother
        · exact ⟨executed, hexecuted, hnames⟩
      bids := by simp [h.bids]
      worker := h.worker.call rfl }

/-! ### Turns of the worker -/

variable {vars : LoopVars}

/-- A turn keeps what the frontend knows. -/
theorem turn (h : Tracked factory block auction history) (o : Occurrence) (hcall : o.isCall = false)
    (hallowed : Allowed factory block history o) {startBids startTimer : Oneshot} {bids : List Bid}
    {task : Task} (hbids : Signal startBids (executedOf history) (.opened ∈ history ++ [o]))
    (htimer : Signal startTimer (committedOf history) (.timerStarted ∈ history ++ [o]))
    (hqueue : forwardedOf history = processedOf (history ++ [o]) ++ bids)
    (htask : task.Tracked (history ++ [o])) :
    Tracked factory block
      { auction with
        startBidsChannel := startBids
        startTimerChannel := startTimer
        bids := bids
        worker := task }
      (history ++ [o]) := by
  obtain ⟨hexecuted, hcommitted, hforwarded⟩ := readings_of_turn history hcall
  exact
    { legal := h.legal.append_singleton hallowed
      factory := h.factory
      blockHash := h.blockHash
      height := h.height
      bidsSignal := by rwa [hexecuted]
      timerSignal := by rwa [hcommitted]
      hashOfExecutedBlock := by rw [hexecuted, h.hashOfExecutedBlock]
      committed := by rw [hcommitted]; exact h.committed
      forwarded := by rw [hforwarded, hexecuted]; exact h.forwarded
      bids := by rw [hforwarded, hqueue]
      worker := htask }

theorem opens (h : Tracked factory block auction history)
    (hworker : auction.worker = .looping vars) (hpoll : auction.startBidsChannel.poll = .ready) :
    Tracked factory block
      { auction with
        startBidsChannel := auction.startBidsChannel.take
        worker := .looping { vars with auctionIsOpen := true } }
      (history ++ [.opened]) := by
  have hloop := h.worker
  rw [hworker] at hloop
  obtain ⟨hunopened, hexecuted, hsignal⟩ :=
    h.bidsSignal.take hpoll (List.mem_append_right history (List.mem_singleton_self Occurrence.opened))
  have hvars : LoopTracked { vars with auctionIsOpen := true } (history ++ [.opened]) :=
    { latencyMarginTimer := by simpa using hloop.latencyMarginTimer
      nonceFetch := hloop.nonceFetch
      auctionIsOpen := by simp
      highestBid := by simpa using hloop.highestBid
      unexpired := by simpa using hloop.unexpired
      unsubmitted := by simpa using hloop.unsubmitted }
  exact h.turn .opened rfl ⟨hunopened, hexecuted⟩ hsignal (by simpa using h.timerSignal)
    (by simpa using h.bids) hvars

theorem startsTimer (h : Tracked factory block auction history)
    (hworker : auction.worker = .looping vars) (hpoll : auction.startTimerChannel.poll = .ready) :
    Tracked factory block
      { auction with
        startTimerChannel := auction.startTimerChannel.take
        worker := .looping { vars with latencyMarginTimer := true, nonceFetch := true } }
      (history ++ [.timerStarted]) := by
  have hloop := h.worker
  rw [hworker] at hloop
  obtain ⟨hunstarted, ⟨commitment, hcommitment⟩, hsignal⟩ :=
    h.timerSignal.take hpoll
      (List.mem_append_right history (List.mem_singleton_self Occurrence.timerStarted))
  have hmatch := h.committed commitment (by rw [hcommitment]; exact List.mem_singleton_self _)
  have hvars : LoopTracked { vars with latencyMarginTimer := true, nonceFetch := true }
      (history ++ [.timerStarted]) :=
    { latencyMarginTimer := by simp
      nonceFetch := rfl
      auctionIsOpen := by simpa using hloop.auctionIsOpen
      highestBid := by simpa using hloop.highestBid
      unexpired := by simpa using hloop.unexpired
      unsubmitted := by simpa using hloop.unsubmitted }
  exact h.turn .timerStarted rfl ⟨hunstarted, commitment, hcommitment, hmatch⟩
    (by simpa using h.bidsSignal) hsignal (by simpa using h.bids) hvars

theorem processes (h : Tracked factory block auction history)
    (hworker : auction.worker = .looping vars) (hopen : vars.auctionIsOpen = true) {bid : Bid}
    {waiting : List Bid} (hbids : auction.bids = bid :: waiting) :
    Tracked factory block
      { auction with
        bids := waiting
        worker := .looping { vars with allocationRule := vars.allocationRule.bid bid } }
      (history ++ [.processed bid]) := by
  have hloop := h.worker
  rw [hworker] at hloop
  have hfifo : forwardedOf history = processedOf history ++ bid :: waiting := by
    rw [h.bids, hbids]
  have hnames := h.forwarded bid (by simp [hfifo])
  have hvars : LoopTracked { vars with allocationRule := vars.allocationRule.bid bid }
      (history ++ [.processed bid]) :=
    { latencyMarginTimer := by simpa using hloop.latencyMarginTimer
      nonceFetch := hloop.nonceFetch
      auctionIsOpen := by simpa using hloop.auctionIsOpen
      highestBid := by simpa using FirstPrice.highestBid_bid hloop.highestBid
      unexpired := by simpa using hloop.unexpired
      unsubmitted := by simpa using hloop.unsubmitted }
  exact h.turn (.processed bid) rfl
    ⟨hloop.auctionIsOpen.mp hopen, hloop.unexpired, hnames, waiting, hfifo⟩
    (by simpa using h.bidsSignal) (by simpa using h.timerSignal) (by simpa using hfifo) hvars

theorem expires (h : Tracked factory block auction history)
    (hworker : auction.worker = .looping vars) (htimer : vars.latencyMarginTimer = true)
    {task : Task} (htask : task.Tracked (history ++ [.timerExpired])) :
    Tracked factory block { auction with worker := task } (history ++ [.timerExpired]) := by
  have hloop := h.worker
  rw [hworker] at hloop
  exact h.turn .timerExpired rfl ⟨hloop.latencyMarginTimer.mp htimer, hloop.unexpired⟩
    (by simpa using h.bidsSignal) (by simpa using h.timerSignal) (by simpa using h.bids) htask

theorem submits {nonce : ℕ} {winner : Bid} {transaction : Transaction} {expired : List Occurrence}
    (h : Tracked factory block { auction with worker := .submitting nonce } expired)
    (hexpired : expired = history ++ [.timerExpired]) (hunsubmitted : submittedOf history = [])
    (hwinner : EarliestMaximal Bid.fee winner (processedOf history))
    (hcarries : factory.Carries winner transaction) :
    Tracked factory block { auction with worker := .submitting nonce }
      (expired ++ [.submitted transaction]) := by
  have hnone : submittedOf expired = [] := by simpa [hexpired] using hunsubmitted
  exact h.turn (.submitted transaction) rfl
    ⟨hnone, history, winner, hexpired, hwinner, hcarries⟩ (by simpa using h.bidsSignal)
    (by simpa using h.timerSignal) (by simpa using h.bids) trivial

/-- After the timer the worker ends, or it submits the winner. -/
theorem submitWinner (h : Tracked factory block auction history)
    (hworker : auction.worker = .looping vars) (htimer : vars.latencyMarginTimer = true)
    (nonceFetch : NonceFetch) :
    Tracked factory block (auction.submitWinner nonceFetch vars).1
      (history ++ .timerExpired :: (auction.submitWinner nonceFetch vars).2) := by
  have hloop := h.worker
  rw [hworker] at hloop
  have hends : ∀ result, result ≠ .error .panicked →
      Tracked factory block (auction.ends result) (history ++ [.timerExpired]) :=
    fun result hresult => h.expires hworker htimer hresult
  have hfetch : vars.nonceFetch = true := by rw [hloop.nonceFetch, htimer]
  unfold Auction.submitWinner FirstPrice.takeWinner
  cases hhighest : vars.allocationRule.highestBid with
  | none => exact hends _ (by simp)
  | some winner =>
    simp only [hfetch, if_true]
    cases pendingNonce auction.factory.lastSuccessfulNonce nonceFetch with
    | error e => exact hends _ (by simp)
    | ok nonce =>
      obtain ⟨body, hbody, hactions, hparams⟩ :=
        winner.intoTransactionBody_eq nonce auction.factory.rollupId auction.factory.sequencerKey
          auction.factory.feeAssetDenomination auction.factory.sequencerChainId
      rw [h.factory] at hactions hparams
      simp only [hbody]
      have hcarries : factory.Carries winner (body.sign auction.factory.sequencerKey.signingKey) :=
        ⟨nonce, body, hactions, hparams, by rw [h.factory]⟩
      have hargmax : (processedOf history).argmax Bid.fee = some winner := by
        rw [← hloop.highestBid, hhighest]
      have hexpired : Tracked factory block { auction with worker := .submitting nonce }
          (history ++ [.timerExpired]) := h.expires hworker htimer trivial
      have hsubmitted := hexpired.submits rfl hloop.unsubmitted (earliestMaximal_of_argmax hargmax)
        hcarries
      rwa [List.append_assoc] at hsubmitted

theorem loopTurn (h : Tracked factory block auction history)
    (hworker : auction.worker = .looping vars) (wake : Wake) :
    Tracked factory block (auction.loopTurn wake vars).1
      (history ++ (auction.loopTurn wake vars).2) := by
  have hsame : Tracked factory block auction (history ++ []) := by rwa [List.append_nil]
  have hready := auction.select_cases wake.timerUp vars
  unfold Auction.loopTurn
  cases hselect : auction.select wake.timerUp vars with
  | timer =>
    rw [hselect] at hready
    exact h.submitWinner hworker hready wake.nonceFetch
  | startBids =>
    rw [hselect] at hready
    exact h.opens hworker hready
  | startTimer =>
    rw [hselect] at hready
    exact h.startsTimer hworker hready
  | bid bid waiting =>
    rw [hselect] at hready
    exact h.processes hworker hready.1 hready.2
  | closed => exact hsame.ends (by simp)
  | pending => exact hsame

/-! ### Events -/

theorem startBids (h : Tracked factory block auction history) (executed : Executed) :
    Tracked factory block (Auction.call (auction.startBids executed) (.executed executed)).1
      (history ++ (Auction.call (auction.startBids executed) (.executed executed)).2) := by
  unfold Auction.startBids
  split_ifs with hmatch hsender hlive
  · exact h.acceptExecuted hsender hmatch
  · simpa [Auction.call, Oneshot.send] using h.channels h.bidsSignal.dropSender h.timerSignal
  · simpa [Auction.call] using h
  · simpa [Auction.call] using h

theorem startTimer (h : Tracked factory block auction history) (commitment : SequencerBlockCommit) :
    Tracked factory block (Auction.call (auction.startTimer commitment) (.committed commitment)).1
      (history ++ (Auction.call (auction.startTimer commitment) (.committed commitment)).2) := by
  unfold Auction.startTimer
  split_ifs with hmatch hsender hlive
  · rw [hlive]
    exact h.acceptCommitment hsender hmatch.1 hmatch.2
  · simpa [Auction.call, Oneshot.send, hlive] using h.channels h.bidsSignal h.timerSignal.dropSender
  · simpa [Auction.call] using h
  · simpa [Auction.call] using h

theorem forwardBid (h : Tracked factory block auction history) (bid : Bid) :
    Tracked factory block (Auction.call (auction.forwardBidToAuction bid) (.forwarded bid)).1
      (history ++ (Auction.call (auction.forwardBidToAuction bid) (.forwarded bid)).2) := by
  unfold Auction.forwardBidToAuction Auction.doesBidMatchAuction
  by_cases hmatch : auction.blockHash = bid.sequencerParentBlockHash ∧
      auction.hashOfExecutedBlockOnRollup = some bid.rollupParentBlockHash
  · simp only [if_pos hmatch]
    split_ifs with hlive
    · exact h.acceptBid hmatch.1 hmatch.2
    · simpa [Auction.call] using h
  · simpa [Auction.call, if_neg hmatch] using h

/-- Every event keeps the ties between the two parties and the history. -/
theorem step (h : Tracked factory block auction history) (event : Auction.Event) :
    Tracked factory block (auction.step event).1 (history ++ (auction.step event).2) := by
  have hsame : Tracked factory block auction (history ++ []) := by rwa [List.append_nil]
  cases event with
  | executedBlock executed =>
    simp only [Auction.step]
    split_ifs with hdropped
    · exact hsame
    · exact h.startBids executed
  | blockCommitment commitment =>
    simp only [Auction.step]
    split_ifs with hdropped
    · exact hsame
    · exact h.startTimer commitment
  | bid bid =>
    simp only [Auction.step]
    split_ifs with hdropped
    · exact hsame
    · exact h.forwardBid bid
  | cancel => exact { hsame with }
  | drop => exact { hsame.channels hsame.bidsSignal.dropSender hsame.timerSignal.dropSender with }
  | abort =>
    simp only [Auction.step]
    split_ifs with hlive
    · exact hsame.ends (by simp)
    · exact hsame
  | turn wake =>
    cases hworker : auction.worker with
    | looping vars =>
      simp only [Auction.step, hworker]
      exact h.loopTurn hworker wake
    | submitting nonce => simpa [Auction.step, hworker] using h
    | ended result => simpa [Auction.step, hworker] using h
  | runCancelled =>
    cases hworker : auction.worker with
    | looping vars =>
      simp only [Auction.step, hworker]
      split_ifs with hcancelled
      · exact hsame.ends (by simp)
      · exact hsame
    | submitting nonce => simpa [Auction.step, hworker] using h
    | ended result => simpa [Auction.step, hworker] using h
  | submissionEnds submission =>
    cases hworker : auction.worker with
    | submitting nonce =>
      simp only [Auction.step, hworker]
      exact hsame.ends (by simp)
    | looping vars => simpa [Auction.step, hworker] using h
    | ended result => simpa [Auction.step, hworker] using h

theorem run (factory : Factory) (block : FilteredSequencerBlock) (events : List Auction.Event) :
    Tracked factory block ((factory.startNew block).run events).1
      ((factory.startNew block).run events).2 := by
  induction events using List.reverseRecOn with
  | nil => exact startNew factory block
  | append_singleton events event ih =>
    rw [Auction.run_append_singleton]
    exact ih.step event

end Tracked

/-! ## Runs -/

/-- Under every schedule of the calls, the cancellation and the worker's turns, what occurs obeys the
rules; one transaction at most is submitted, and the timer is started at most once. -/
theorem auction_legal (factory : Factory) (block : FilteredSequencerBlock)
    (events : List Auction.Event) :
    Legal (Allowed factory block) ((factory.startNew block).run events).2 ∧
      (submittedOf ((factory.startNew block).run events).2).length ≤ 1 ∧
      ((factory.startNew block).run events).2.countP Occurrence.isTimerStarted ≤ 1 := by
  have hlegal := (Tracked.run factory block events).legal
  refine ⟨hlegal, ?_, hlegal.countP_le_one ?_⟩
  · unfold submittedOf
    rw [List.length_filterMap_eq_countP]
    refine hlegal.countP_le_one fun before o ho hsubmitted => ?_
    cases o with
    | submitted transaction =>
      rw [← List.length_filterMap_eq_countP]
      exact List.length_eq_zero_iff.mpr ho.1
    | executed _ | committed _ | forwarded _ | opened | timerStarted | processed _ | timerExpired =>
      cases hsubmitted
  · intro before o ho hstarted
    cases o with
    | timerStarted =>
      refine List.countP_eq_zero.mpr fun o ho' hstarted' => ?_
      cases o with
      | timerStarted => exact ho.1 ho'
      | executed _ | committed _ | forwarded _ | opened | processed _ | timerExpired | submitted _ =>
        cases hstarted'
    | executed _ | committed _ | forwarded _ | opened | processed _ | timerExpired | submitted _ =>
      cases hstarted

end

end Astria.Auctioneer
