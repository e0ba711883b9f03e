import Astria.Core.TransactionConversions
import Astria.Sequencer.Mempool.Removal
import Astria.Sequencer.VoteExtension

/-!
# `CheckTx`

CometBFT asks by `CheckTx` whether a transaction may be in its mempool, when it receives one and again
after every block (`service/mempool/mod.rs`).  It knows a transaction by its bytes, and so are the
removal cache and the tracked transactions asked for the hash of the bytes; the mempool files a decoded
transaction under the hash of its encoding.

The three calls of the mempool that one request makes follow each other.

Results:
* `checkTx_agrees`: if the bytes of every request that are decoded are the encoding of what they are
  decoded to, then a request for a transaction that is held succeeds, and the first one after a removal
  returns the reason of the removal, unless the full cache dropped it.
-/

namespace Astria.Sequencer

open Astria.Core Astria.Lib

/-! ## Responses -/

/-- The error codes of the responses (`protocol/abci.rs`). -/
inductive AbciErrorCode where
  | invalidParameter
  | internalError
  | invalidNonce
  | transactionTooLarge
  | invalidChainId
  | transactionExpired
  | transactionFailed
  | lowerNonceInvalidated
  | alreadyPresent
  | nonceTaken
  | accountSizeLimit
  | parkedFull
  deriving DecidableEq

namespace AbciErrorCode

def value : AbciErrorCode → ℕ
  | .invalidParameter => 2
  | .internalError => 3
  | .invalidNonce => 4
  | .transactionTooLarge => 5
  | .invalidChainId => 7
  | .transactionExpired => 9
  | .transactionFailed => 10
  | .lowerNonceInvalidated => 12
  | .alreadyPresent => 14
  | .nonceTaken => 15
  | .accountSizeLimit => 16
  | .parkedFull => 17

def info : AbciErrorCode → String
  | .invalidParameter => "one or more path parameters were invalid"
  | .internalError => "an internal server error occurred"
  | .invalidNonce => "the provided nonce was invalid"
  | .transactionTooLarge => "the provided transaction was too large"
  | .invalidChainId => "the provided chain id was invalid"
  | .transactionExpired => "the transaction expired in the app's mempool"
  | .transactionFailed => "the transaction failed to execute in prepare_proposal()"
  | .lowerNonceInvalidated => "lower nonce was invalidated in mempool"
  | .alreadyPresent => "the transaction is already present in the mempool"
  | .nonceTaken =>
    "there is already a transaction with the same nonce for the account in the mempool"
  | .accountSizeLimit => "the account has reached the maximum number of parked transactions"
  | .parkedFull => "the mempool is out of space for more parked transactions"

def toString (code : AbciErrorCode) : String := s!"{code.value}: {code.info}"

end AbciErrorCode

/-- The fields of `response::CheckTx` that are set here.  No code is `Code::Ok`; the parts of the log
are kept apart. -/
structure CheckTxResponse where
  code : Option AbciErrorCode
  info : String
  log : Report
  deriving DecidableEq

namespace CheckTxResponse

/-- `response::CheckTx::default`. -/
def default : CheckTxResponse := { code := none, info := "", log := [] }

end CheckTxResponse

/-- `error_response`. -/
def errorResponse (code : AbciErrorCode) (log : Report) : CheckTxResponse :=
  { code := some code, info := code.info, log := log }

/-- `RemovalReason::into_check_tx_response`. -/
def RemovalReason.intoCheckTxResponse : RemovalReason → CheckTxResponse
  | .expired =>
    { code := some .transactionExpired
      info := AbciErrorCode.transactionExpired.toString
      log := ["transaction expired in the app's mempool"] }
  | .failedPrepareProposal err =>
    { code := some .transactionFailed
      info := AbciErrorCode.transactionFailed.toString
      log := ["transaction failed execution because", err] }
  | .nonceStale =>
    { code := some .invalidNonce
      info := "transaction removed from app mempool due to stale nonce"
      log := ["transaction from app mempool due to stale nonce"] }
  | .lowerNonceInvalidated =>
    { code := some .lowerNonceInvalidated
      info := AbciErrorCode.lowerNonceInvalidated.toString
      log := ["transaction removed from app mempool due to lower nonce being invalidated"] }

/-- `InsertionError::into_check_tx_response`. -/
def InsertionError.intoCheckTxResponse (e : InsertionError) : CheckTxResponse :=
  let withText (code : AbciErrorCode) : CheckTxResponse :=
    { code := some code, info := code.toString, log := [e.toString] }
  match e with
  | .alreadyPresent => withText .alreadyPresent
  | .nonceTooLow => withText .invalidNonce
  | .nonceTaken => withText .nonceTaken
  | .accountSizeLimit => withText .accountSizeLimit
  | .parkedSizeLimit =>
    errorResponse .parkedFull ["transaction failed insertion because parked container is full"]
  -- the mempool parks these
  | .accountBalanceTooLow | .nonceGap =>
    errorResponse .internalError ["transaction failed insertion because of an internal error"]

/-- A transaction is known by the hash of its message. -/
instance transactionCodec [External] [WireFormats] [TransactionFormats] : TransactionCodec where
  encodeTransaction := Transaction.encode

namespace Mempool

section

variable {parkedMaxTxCount : ℕ} [ext : External] [wire : WireFormats] [formats : TransactionFormats]

/-! ## Requests -/

/-- `MAX_TX_SIZE`. -/
def maxTxSize : ℕ := 256000

/-- `check_chain_id_mempool` (`transaction/checks.rs`). -/
def checkChainIdMempool (tx : Transaction) (state : Base) : Except Report Unit :=
  match state.getChainId with
  | .error e => .error ("failed to get chain id" :: e)
  | .ok chainId => if tx.params.chainId = chainId then .ok () else .error ["chain id mismatch"]

/-- `stateless_checks` (lines 330–397). -/
def statelessChecks (tx : Bytes) (state : Base) : Except CheckTxResponse Transaction :=
  if maxTxSize < tx.length then
    .error (errorResponse .transactionTooLarge
      ["transaction size too large; allowed: " ++ toString maxTxSize ++ " bytes, got " ++
        toString tx.length])
  else
    match formats.decodeRawTransaction tx with
    | .error e =>
      .error (errorResponse .invalidParameter
        ("failed decoding bytes as a protobuf astria.protocol.transaction.v1.Transaction" :: e))
    | .ok rawSignedTx =>
      match Transaction.protobuf.tryFromRaw rawSignedTx with
      | .error e =>
        .error (errorResponse .invalidParameter
          ("the provided transaction could not be validated" :: e))
      | .ok signedTx =>
        match Transaction.checkStateless signedTx with
        | .error e =>
          .error (errorResponse .invalidParameter ("transaction failed stateless check" :: e))
        | .ok _ =>
          match checkChainIdMempool signedTx state with
          | .error e => .error (errorResponse .invalidChainId ("failed verifying chain id" :: e))
          | .ok _ => .ok signedTx

/-- `get_account_balances`. -/
def getAccountBalances (state : Base) (address : AddressBytes) : Balances :=
  state.accounts.balances address

/-- `insert_into_mempool` (lines 404–500), at a time.  The outer error is the panic of the mempool. -/
def insertIntoMempool (state : Base) (signedTx : TimemarkedTransaction)
    (m : Mempool parkedMaxTxCount) :
    Except String (Except CheckTxResponse Unit) × Mempool parkedMaxTxCount :=
  match tryBasePrefixed signedTx.address state with
  | .error e _ =>
    (.ok (.error (errorResponse .internalError
      ("failed to generate address because" ::
        "failed to generate address for signed transaction" :: e))), m)
  | .ok address _ =>
    match getTotalTransactionCost signedTx.signedTx state with
    | .error e =>
      (.ok (.error (errorResponse .internalError
        ("failed to fetch cost of the transaction because" ::
          "failed fetching cost of the transaction" :: e))), m)
    | .ok transactionCost =>
      let (result, m) := m.insert (signedTx.setCostMap transactionCost)
        (state.accountNonce address.bytes) (getAccountBalances state address.bytes)
      (result.map (Except.mapError InsertionError.intoCheckTxResponse), m)

/-- The response to an insertion: the error of a refused one, and the default of a successful one. -/
def insertionResponse (result : Except CheckTxResponse Unit) : CheckTxResponse :=
  match result with
  | .error rsp => rsp
  | .ok () => .default

/-- `handle_check_tx` (lines 224–271), on a state of the chain and at a time. -/
def handleCheckTx (tx : Bytes) (state : Base) (now : Time) (m : Mempool parkedMaxTxCount) :
    Except String CheckTxResponse × Mempool parkedMaxTxCount :=
  let txHash := ext.sha256 tx
  -- check if the transaction has been removed from the appside mempool
  match m.checkRemovedCometBft txHash with
  | (some removalReason, m) => (.ok removalReason.intoCheckTxResponse, m)
  | (none, m) =>
    -- check if the transaction is already in the mempool
    if m.isTracked txHash then (.ok .default, m)
    else
      match statelessChecks tx state with
      | .error rsp => (.ok rsp, m)
      | .ok signedTx =>
        -- a decoded nonce is a `u32`
        if hnonce : signedTx.params.nonce ≤ u32Max then
          let (result, m) := m.insertIntoMempool state
            { signedTx := signedTx, nonce_le := hnonce, timeFirstSeen := now, cost := [] }
          (result.map insertionResponse, m)
        else (.ok (errorResponse .invalidParameter []), m)

/-! ## What a request does -/

omit ext wire formats in
theorem checkRemovedCometBft_of_none {txHash : TransactionId} {m : Mempool parkedMaxTxCount}
    (h : m.cometBftRemovalCache.cache.lookup txHash = none) :
    m.checkRemovedCometBft txHash = (none, m) := by
  have hkeys : txHash ∉ m.cometBftRemovalCache.cache.keys := by
    rw [← AList.mem_keys]
    exact AList.lookup_eq_none.mp h
  have herase : m.cometBftRemovalCache.cache.erase txHash = m.cometBftRemovalCache.cache :=
    AList.ext (List.kerase_of_notMem_keys hkeys)
  unfold checkRemovedCometBft RemovalCache.remove
  dsimp only
  rw [h, herase]

/-- What passes the stateless checks was decoded. -/
theorem decode_of_statelessChecks {tx : Bytes} {state : Base} {signedTx : Transaction}
    (h : statelessChecks tx state = .ok signedTx) : Transaction.decode tx = .ok signedTx := by
  unfold statelessChecks at h
  split_ifs at h
  cases hraw : formats.decodeRawTransaction tx with
  | error e =>
    rw [hraw] at h
    cases h
  | ok raw =>
    rw [hraw] at h
    dsimp only at h
    cases htx : Transaction.protobuf.tryFromRaw raw with
    | error e =>
      rw [htx] at h
      cases h
    | ok decoded =>
      rw [htx] at h
      dsimp only at h
      have hsame : decoded = signedTx := by
        cases hstateless : Transaction.checkStateless decoded with
        | error e =>
          rw [hstateless] at h
          cases h
        | ok _ =>
          rw [hstateless] at h
          dsimp only at h
          cases hchain : checkChainIdMempool decoded state with
          | error e =>
            rw [hchain] at h
            cases h
          | ok _ =>
            rw [hchain] at h
            exact Except.ok.inj h
      rw [← hsame]
      exact Codec.bind_eq_ok.mpr ⟨raw, hraw, htx⟩

/-- A transaction is refused before it gets to the mempool, or it is inserted with its cost, at some
nonce and balances of its account. -/
theorem insertIntoMempool_cases (state : Base) (ttx : TimemarkedTransaction)
    (m : Mempool parkedMaxTxCount) :
    (m.insertIntoMempool state ttx).2 = m ∨
      ∃ cost n b, (m.insertIntoMempool state ttx).2 = (m.insert (ttx.setCostMap cost) n b).2 ∧
        ∀ panic, (m.insert (ttx.setCostMap cost) n b).1 = .error panic →
          (m.insertIntoMempool state ttx).1 = .error panic := by
  unfold insertIntoMempool
  cases tryBasePrefixed ttx.address state with
  | error e s => exact Or.inl rfl
  | ok address s =>
    dsimp only
    cases getTotalTransactionCost ttx.signedTx state with
    | error e => exact Or.inl rfl
    | ok cost =>
      right
      refine ⟨cost, state.accountNonce address.bytes, getAccountBalances state address.bytes, rfl, ?_⟩
      intro panic hpanic
      dsimp only
      rw [hpanic]
      rfl

/-- A request returns the reason that is cached under the hash of its bytes, which is forgotten; or it
succeeds, as the hash is tracked; or its transaction may be inserted. -/
theorem handleCheckTx_cases (tx : Bytes) (state : Base) (now : Time)
    (m : Mempool parkedMaxTxCount) :
    (∃ reason, m.cometBftRemovalCache.cache.lookup (ext.sha256 tx) = some reason ∧
        m.handleCheckTx tx state now =
          (.ok reason.intoCheckTxResponse, (m.checkRemovedCometBft (ext.sha256 tx)).2)) ∨
      m.cometBftRemovalCache.cache.lookup (ext.sha256 tx) = none ∧
        ((ext.sha256 tx ∈ m.containedTxs ∧ m.handleCheckTx tx state now = (.ok .default, m)) ∨
          ext.sha256 tx ∉ m.containedTxs ∧
            ((m.handleCheckTx tx state now).2 = m ∨
              ∃ (ttx : TimemarkedTransaction) (n : ℕ) (b : Balances),
                Transaction.decode tx = .ok ttx.signedTx ∧
                  (m.handleCheckTx tx state now).2 = (m.insert ttx n b).2 ∧
                  ∀ panic, (m.insert ttx n b).1 = .error panic →
                    (m.handleCheckTx tx state now).1 = .error panic)) := by
  cases hlookup : m.cometBftRemovalCache.cache.lookup (ext.sha256 tx) with
  | some reason =>
    left
    refine ⟨reason, rfl, ?_⟩
    unfold handleCheckTx checkRemovedCometBft RemovalCache.remove
    dsimp only
    rw [hlookup]
  | none =>
    right
    refine ⟨rfl, ?_⟩
    unfold handleCheckTx
    dsimp only
    rw [checkRemovedCometBft_of_none hlookup]
    dsimp only
    by_cases htracked : ext.sha256 tx ∈ m.containedTxs
    · left
      exact ⟨htracked, if_pos (decide_eq_true htracked)⟩
    · right
      refine ⟨htracked, ?_⟩
      have huntracked : ¬m.isTracked (ext.sha256 tx) = true := fun h =>
        htracked (of_decide_eq_true h)
      rw [if_neg huntracked]
      cases hchecked : statelessChecks tx state with
      | error rsp => exact Or.inl rfl
      | ok signedTx =>
        dsimp only
        by_cases hnonce : signedTx.params.nonce ≤ u32Max
        · rw [dif_pos hnonce]
          rcases m.insertIntoMempool_cases state
            { signedTx := signedTx, nonce_le := hnonce, timeFirstSeen := now, cost := [] } with
            hsame | ⟨cost, n, b, hinsert, hpanics⟩
          · exact Or.inl hsame
          · right
            refine ⟨_, n, b, decode_of_statelessChecks hchecked, hinsert, ?_⟩
            intro panic hpanic
            dsimp only
            rw [hpanics panic hpanic]
            rfl
        · rw [dif_neg hnonce]
          exact Or.inl rfl

/-- Pending takes the transaction of a request at the greatest nonce, after which the promotion asks for the
next one. -/
def PendsGreatestNonce (m : Mempool parkedMaxTxCount) (tx : Bytes) (state : Base) (now : Time) : Prop :=
  m.cometBftRemovalCache.cache.lookup (ext.sha256 tx) = none ∧ ext.sha256 tx ∉ m.containedTxs ∧
    ∃ ttx : TimemarkedTransaction, statelessChecks tx state = .ok ttx.signedTx ∧ ttx.timeFirstSeen = now ∧
      ttx.nonce = u32Max ∧ getTotalTransactionCost ttx.signedTx state = .ok ttx.cost ∧
        ∃ address s, tryBasePrefixed ttx.address state = .ok address s ∧
          ∃ pending, m.pending.add ttx (state.accountNonce address.bytes)
            (getAccountBalances state address.bytes) = .ok pending

theorem insertIntoMempool_panics_iff {state : Base} {ttx : TimemarkedTransaction}
    {m : Mempool parkedMaxTxCount} :
    (∃ panic, (m.insertIntoMempool state ttx).1 = .error panic) ↔
      ∃ cost, getTotalTransactionCost ttx.signedTx state = .ok cost ∧ ttx.nonce = u32Max ∧
        ∃ address s, tryBasePrefixed ttx.address state = .ok address s ∧
          ∃ pending, m.pending.add (ttx.setCostMap cost) (state.accountNonce address.bytes)
            (getAccountBalances state address.bytes) = .ok pending := by
  unfold insertIntoMempool
  cases hprefix : tryBasePrefixed ttx.address state with
  | error e s => simp
  | ok address s =>
    dsimp only
    cases hcost : getTotalTransactionCost ttx.signedTx state with
    | error e => simp
    | ok cost =>
      dsimp only
      have hmap : (∃ panic, ((m.insert (ttx.setCostMap cost) (state.accountNonce address.bytes)
          (getAccountBalances state address.bytes)).1.map
            (Except.mapError InsertionError.intoCheckTxResponse)) = .error panic) ↔
          ∃ panic, (m.insert (ttx.setCostMap cost) (state.accountNonce address.bytes)
            (getAccountBalances state address.bytes)).1 = .error panic := by
        cases (m.insert (ttx.setCostMap cost) (state.accountNonce address.bytes)
          (getAccountBalances state address.bytes)).1 <;> simp [Except.map]
      rw [hmap, insert_panics_iff]
      constructor
      · rintro ⟨hmax, pending, hadd⟩
        exact ⟨cost, rfl, hmax, address, s, rfl, pending, hadd⟩
      · rintro ⟨_, hsame, hmax, _, _, hsame', pending, hadd⟩
        obtain rfl := Except.ok.inj hsame
        obtain ⟨rfl, rfl⟩ := EStateM.Result.ok.inj hsame'
        exact ⟨hmax, pending, hadd⟩

/-- A request panics exactly if pending takes its transaction at the greatest nonce. -/
theorem handleCheckTx_panics_iff {tx : Bytes} {state : Base} {now : Time}
    {m : Mempool parkedMaxTxCount} :
    (∃ panic, (m.handleCheckTx tx state now).1 = .error panic) ↔ m.PendsGreatestNonce tx state now := by
  unfold handleCheckTx PendsGreatestNonce
  dsimp only
  cases hlookup : m.cometBftRemovalCache.cache.lookup (ext.sha256 tx) with
  | some reason =>
    have hremoved : m.checkRemovedCometBft (ext.sha256 tx) =
        (some reason, (m.checkRemovedCometBft (ext.sha256 tx)).2) := by
      unfold checkRemovedCometBft RemovalCache.remove
      dsimp only
      rw [hlookup]
    rw [hremoved]
    simp
  | none =>
    rw [checkRemovedCometBft_of_none hlookup]
    dsimp only
    by_cases htracked : ext.sha256 tx ∈ m.containedTxs
    · rw [if_pos (show m.isTracked (ext.sha256 tx) = true from decide_eq_true htracked)]
      simp [htracked]
    · have huntracked : ¬m.isTracked (ext.sha256 tx) = true := fun h => htracked (of_decide_eq_true h)
      rw [if_neg huntracked]
      cases hchecked : statelessChecks tx state with
      | error rsp => simp
      | ok signedTx =>
        dsimp only
        by_cases hnonce : signedTx.params.nonce ≤ u32Max
        · rw [dif_pos hnonce]
          have hmap (r : Except String (Except CheckTxResponse Unit)) :
              (∃ panic, r.map insertionResponse = .error panic) ↔ ∃ panic, r = .error panic := by
            cases r <;> simp [Except.map]
          rw [hmap, insertIntoMempool_panics_iff]
          constructor
          · rintro ⟨cost, hcost, hmax, hpends⟩
            exact ⟨rfl, htracked, { signedTx := signedTx, nonce_le := hnonce, timeFirstSeen := now, cost := cost },
              rfl, rfl, hmax, hcost, hpends⟩
          · rintro ⟨-, -, ⟨signedTx', _, _, cost⟩, hsame, hnow, hmax, hcost, hpends⟩
            obtain rfl := Except.ok.inj hsame
            obtain rfl := hnow
            exact ⟨cost, hcost, hmax, hpends⟩
        · rw [dif_neg hnonce]
          constructor
          · rintro ⟨panic, hpanic⟩
            cases hpanic
          · rintro ⟨-, -, ttx, hsame, -⟩
            obtain rfl := Except.ok.inj hsame
            exact absurd ttx.nonce_le hnonce

/-! ## Runs -/

/-- The requests that change the mempool: of CometBFT, and of the service that proposes and finalizes
blocks. -/
inductive Request where
  | checkTx (tx : Bytes) (state : Base) (now : Time)
  | removeTxInvalid (signedTx : Transaction) (reason : RemovalReason)
  | runMaintenance (state : StateReads) (recost : Bool) (clock : Clock)
      (addresses : List AddressBytes)

/-- The mempool after a request. -/
def serve (r : Request) (m : Mempool parkedMaxTxCount) : Mempool parkedMaxTxCount :=
  match r with
  | .checkTx tx state now => (m.handleCheckTx tx state now).2
  | .removeTxInvalid signedTx reason => m.removeTxInvalid signedTx reason
  | .runMaintenance state recost clock addresses => m.runMaintenance state recost clock addresses

/-- What a request reports as removed, in the order in which it does. -/
def removedTxs (m : Mempool parkedMaxTxCount) : Request → List (TransactionId × RemovalReason)
  | .checkTx _ _ _ => []
  | .removeTxInvalid signedTx reason => m.invalidatedTxs signedTx reason
  | .runMaintenance state recost clock addresses =>
    (m.maintainAccounts state recost clock addresses).1

/-- Bytes that are the encoding of the transaction that they are decoded to. -/
def Encodes (tx : Bytes) (signedTx : Transaction) : Prop :=
  Transaction.decode tx = .ok signedTx ∧ signedTx.encode = tx

/-- The bytes of a request of CometBFT are among those received, they are the encoding of what they are
decoded to, and pending does not take it at the greatest nonce; an invalid transaction is one that was received. -/
def Request.Exact (received : Set Bytes) (m : Mempool parkedMaxTxCount) : Request → Prop
  | .checkTx tx state now =>
    tx ∈ received ∧ (∀ signedTx, Transaction.decode tx = .ok signedTx → signedTx.encode = tx) ∧
      ¬m.PendsGreatestNonce tx state now
  | .removeTxInvalid signedTx _ => ∃ tx ∈ received, Encodes tx signedTx
  | .runMaintenance _ _ _ _ => True

/-- The mempools that such requests reach from the empty one. -/
inductive Served (received : Set Bytes) : Mempool parkedMaxTxCount → Prop
  | new : Served received (.new parkedMaxTxCount)
  | request {m : Mempool parkedMaxTxCount} {r : Request} (served : Served received m)
      (exact_ : r.Exact received m) : Served received (m.serve r)

/-- The mempools that such requests reach after one of them removed a transaction with a reason.  The
transaction was not asked for since, and the full cache did not drop it. -/
inductive Awaits (received : Set Bytes) (signedTx : Transaction) (reason : RemovalReason) :
    Mempool parkedMaxTxCount → Prop
  | removed {m : Mempool parkedMaxTxCount} {r : Request} (served : Served received m)
      (exact_ : r.Exact received m) (held : signedTx ∈ m.held) (gone : signedTx ∉ (m.serve r).held)
      (reported : RemovalCache.firstReason (transactionId signedTx) (m.removedTxs r) = some reason)
      (kept : transactionId signedTx ∉ m.cometBftRemovalCache.evicted (m.removedTxs r)) :
      Awaits received signedTx reason (m.serve r)
  | later {m : Mempool parkedMaxTxCount} {r : Request} (awaits : Awaits received signedTx reason m)
      (exact_ : r.Exact received m)
      (unasked : ∀ tx state now, r = .checkTx tx state now → Transaction.decode tx ≠ .ok signedTx)
      (kept : transactionId signedTx ∉ m.cometBftRemovalCache.evicted (m.removedTxs r)) :
      Awaits received signedTx reason (m.serve r)

/-- What is held was received and is tracked, and no reason is cached for it. -/
structure Agrees (received : Set Bytes) (m : Mempool parkedMaxTxCount) : Prop where
  filed : m.Filed
  received : ∀ signedTx ∈ m.held, ∃ tx ∈ received, Encodes tx signedTx
  tracked : ∃ rest, m.Books rest
  unreported : ∀ signedTx ∈ m.held,
    m.cometBftRemovalCache.cache.lookup (transactionId signedTx) = none

/-- Received transactions with the same hash are the same. -/
theorem eq_of_transactionId {received : Set Bytes} (hinj : Set.InjOn ext.sha256 received)
    {tx tx' : Bytes} {signedTx signedTx' : Transaction} (htx : tx ∈ received)
    (htx' : tx' ∈ received) (h : Encodes tx signedTx) (h' : Encodes tx' signedTx')
    (hid : transactionId signedTx = transactionId signedTx') : signedTx = signedTx' := by
  have hbytes : signedTx.encode = signedTx'.encode :=
    hinj (h.2.symm ▸ htx) (h'.2.symm ▸ htx') hid
  have hdecode := h.1
  rw [← h.2, hbytes, h'.2, h'.1] at hdecode
  exact (Except.ok.inj hdecode).symm

theorem Agrees.insert {received : Set Bytes} {m : Mempool parkedMaxTxCount} (h : m.Agrees received)
    {ttx : TimemarkedTransaction} {n : ℕ} {b : Balances} {tx : Bytes} (htx : tx ∈ received)
    (hencodes : Encodes tx ttx.signedTx) (hnew : ttx.id ∉ m.containedTxs)
    (hlookup : m.cometBftRemovalCache.cache.lookup ttx.id = none)
    (hreturns : ∀ panic, (m.insert ttx n b).1 ≠ .error panic) :
    (m.insert ttx n b).2.Agrees received := by
  rcases insert_tracks hnew hreturns with heq | hcontained
  · rw [heq]
    exact h
  · have hheld : (m.insert ttx n b).2.held ≤ m.held + {ttx.signedTx} := by
      rcases m.held_insert_le ttx n b with hle | ⟨hle, -⟩
      · exact le_trans hle (Multiset.le_add_right _ _)
      · exact hle
    have hmem : ∀ signedTx ∈ (m.insert ttx n b).2.held,
        signedTx ∈ m.held ∨ signedTx = ttx.signedTx := by
      intro signedTx hsigned
      rcases Multiset.mem_add.mp (Multiset.mem_of_le hheld hsigned) with hsigned | hsigned
      · exact Or.inl hsigned
      · exact Or.inr (Multiset.mem_singleton.mp hsigned)
    refine ⟨h.filed.insert ttx n b, ?_, ?_, ?_⟩
    · intro signedTx hsigned
      rcases hmem signedTx hsigned with hsigned | rfl
      · exact h.received signedTx hsigned
      · exact ⟨tx, htx, hencodes⟩
    · obtain ⟨rest, hrest⟩ := h.tracked
      unfold Books at hrest ⊢
      refine Multiset.le_iff_exists_add.mp ?_
      rw [hcontained, Finset.insert_val_of_notMem hnew, hrest]
      refine le_trans (Multiset.map_le_map hheld) ?_
      rw [Multiset.map_add, Multiset.map_singleton, ← Multiset.singleton_add, add_comm]
      exact Multiset.add_le_add_left (Multiset.le_add_right _ _)
    · intro signedTx hsigned
      rw [cache_insert]
      rcases hmem signedTx hsigned with hsigned | rfl
      · exact h.unreported signedTx hsigned
      · exact hlookup

theorem Agrees.handleCheckTx {received : Set Bytes} {m : Mempool parkedMaxTxCount}
    (h : m.Agrees received) {tx : Bytes} {state : Base} {now : Time}
    (hexact : (Request.checkTx tx state now).Exact received m) :
    (m.handleCheckTx tx state now).2.Agrees received := by
  obtain ⟨htx, hencodes, hreturns⟩ := hexact
  rcases m.handleCheckTx_cases tx state now with
    ⟨reason, -, heq⟩ | ⟨hlookup, ⟨-, heq⟩ | ⟨huntracked, heq | ⟨ttx, n, b, hdecode, heq, hpanics⟩⟩⟩
  · rw [heq]
    refine ⟨h.filed, h.received, h.tracked, ?_⟩
    intro signedTx hsigned
    show (m.cometBftRemovalCache.cache.erase (ext.sha256 tx)).lookup _ = none
    by_cases hsame : transactionId signedTx = ext.sha256 tx
    · rw [hsame]
      exact AList.lookup_erase _ _
    · rw [AList.lookup_erase_ne hsame]
      exact h.unreported signedTx hsigned
  · rw [heq]
    exact h
  · rw [heq]
    exact h
  · have hid : ttx.id = ext.sha256 tx := congrArg ext.sha256 (hencodes _ hdecode)
    rw [heq]
    refine h.insert htx ⟨hdecode, hencodes _ hdecode⟩ (by rwa [hid]) (by rwa [hid]) ?_
    exact fun panic hpanic => hreturns (handleCheckTx_panics_iff.mp ⟨panic, hpanics panic hpanic⟩)

theorem Agrees.removeTxInvalid {received : Set Bytes} (hinj : Set.InjOn ext.sha256 received)
    {m : Mempool parkedMaxTxCount} (h : m.Agrees received) {signedTx : Transaction}
    (hreceived : ∃ tx ∈ received, Encodes tx signedTx) (reason : RemovalReason) :
    (m.removeTxInvalid signedTx reason).Agrees received := by
  have hle := m.held_removeTxInvalid_le signedTx reason
  have hgone := notMem_held_removeTxInvalid h.filed signedTx reason
  obtain ⟨rest, hrest⟩ := h.tracked
  refine ⟨h.filed.removeTxInvalid signedTx reason, ?_, ⟨rest, hrest.removeTxInvalid signedTx reason⟩,
    ?_⟩
  · exact fun tx htx => h.received tx (Multiset.mem_of_le hle htx)
  · intro tx htx
    have hlookup := h.unreported tx (Multiset.mem_of_le hle htx)
    obtain ⟨m', out, hheld, hcontained, hcache, ⟨heq, -⟩ | ⟨heq, -⟩⟩ :=
      m.removeTxInvalid_reports signedTx reason
    · -- it is neither the invalid transaction nor one that went with it
      have hother : transactionId tx ≠ transactionId signedTx := by
        intro hid
        obtain ⟨bytes, hbytes, hencodes⟩ := hreceived
        obtain ⟨bytes', hbytes', hencodes'⟩ := h.received tx (Multiset.mem_of_le hle htx)
        rw [eq_of_transactionId hinj hbytes' hbytes hencodes' hencodes hid] at htx
        exact hgone htx
      rw [heq] at htx ⊢
      have hout : transactionId tx ∉ out.map TimemarkedTransaction.id := by
        intro hmem
        refine (hrest.leave hheld hcontained).notMem ?_ (Multiset.mem_add.mpr (Or.inl hmem))
        unfold reportInvalid at htx
        rwa [held_report] at htx
      unfold reportInvalid
      rw [cache_report]
      refine RemovalCache.lookup_addAll_eq_none
        (l := (transactionId signedTx, reason) :: _) (c := m'.cometBftRemovalCache) ?_ ?_
      · rw [hcache]
        exact hlookup
      · rw [List.map_cons, List.mem_cons, not_or, List.map_map]
        refine ⟨hother, ?_⟩
        rwa [show (fun e : TransactionId × RemovalReason => e.1) ∘ (fun id =>
          (id, RemovalReason.lowerNonceInvalidated)) = id from rfl, List.map_id]
    · rw [heq, hcache]
      exact hlookup

theorem Agrees.runMaintenance {received : Set Bytes} {m : Mempool parkedMaxTxCount}
    (h : m.Agrees received) (state : StateReads) (recost : Bool) (clock : Clock)
    (addresses : List AddressBytes) :
    (m.runMaintenance state recost clock addresses).Agrees received := by
  have hle := held_runMaintenance_le h.filed state recost clock addresses
  obtain ⟨rest, hrest⟩ := h.tracked
  refine ⟨h.filed.runMaintenance state recost clock addresses, ?_,
    ⟨rest, hrest.runMaintenance h.filed state recost clock addresses⟩, ?_⟩
  · exact fun tx htx => h.received tx (Multiset.mem_of_le hle htx)
  · intro tx htx
    have hlookup := h.unreported tx (Multiset.mem_of_le hle htx)
    have hloop := hrest.maintainAccounts h.filed state recost clock addresses
    have hremoved : transactionId tx ∉
        (m.maintainAccounts state recost clock addresses).1.map (·.1) := by
      intro hmem
      refine hloop.notMem ?_ (Multiset.mem_add.mpr (Or.inl hmem))
      have hheld : tx ∈ (report (m.maintainAccounts state recost clock addresses).1
        (m.maintainAccounts state recost clock addresses).2).held := htx
      rwa [held_report] at hheld
    show (report _ _).cometBftRemovalCache.cache.lookup _ = none
    rw [cache_report, cache_maintainAccounts]
    exact RemovalCache.lookup_addAll_eq_none hlookup hremoved

theorem Agrees.serve {received : Set Bytes} (hinj : Set.InjOn ext.sha256 received)
    {m : Mempool parkedMaxTxCount} (h : m.Agrees received) {r : Request}
    (hexact : r.Exact received m) : (m.serve r).Agrees received := by
  cases r with
  | checkTx tx state now => exact h.handleCheckTx hexact
  | removeTxInvalid signedTx reason => exact h.removeTxInvalid hinj hexact reason
  | runMaintenance state recost clock addresses =>
    exact h.runMaintenance state recost clock addresses

theorem Served.agrees {received : Set Bytes} (hinj : Set.InjOn ext.sha256 received)
    {m : Mempool parkedMaxTxCount} (h : Served received m) : m.Agrees received := by
  induction h with
  | new =>
    have hnone : ∀ tx, tx ∉ (Mempool.new parkedMaxTxCount).held := fun tx =>
      Multiset.notMem_zero tx
    exact ⟨filed_new, fun tx htx => absurd htx (hnone tx), ⟨0, rfl⟩,
      fun tx htx => absurd htx (hnone tx)⟩
  | request _ hexact ih => exact ih.serve hinj hexact

/-! ## Reported reasons -/

/-- A request adds what it reports to the cache, and may forget the hash that it asks for. -/
theorem lookup_serve {id : TransactionId} (r : Request) {m : Mempool parkedMaxTxCount}
    (hasks : ∀ tx state now, r = .checkTx tx state now → ext.sha256 tx ≠ id) :
    (m.serve r).cometBftRemovalCache.cache.lookup id =
      (m.cometBftRemovalCache.addAll (m.removedTxs r)).cache.lookup id := by
  cases r with
  | checkTx tx state now =>
    show (m.handleCheckTx tx state now).2.cometBftRemovalCache.cache.lookup id = _
    rcases m.handleCheckTx_cases tx state now with
      ⟨reason, -, heq⟩ | ⟨-, ⟨-, heq⟩ | ⟨-, heq | ⟨ttx, n, b, -, heq, -⟩⟩⟩
    · rw [heq]
      exact AList.lookup_erase_ne (hasks tx state now rfl).symm
    · rw [heq]
      rfl
    · rw [heq]
      rfl
    · rw [heq, cache_insert]
      rfl
  | removeTxInvalid signedTx reason =>
    show (m.removeTxInvalid signedTx reason).cometBftRemovalCache.cache.lookup id = _
    obtain ⟨m', out, -, -, hcache, ⟨heq, hreports⟩ | ⟨heq, hreports⟩⟩ :=
      m.removeTxInvalid_reports signedTx reason
    · show _ = (m.cometBftRemovalCache.addAll (m.invalidatedTxs signedTx reason)).cache.lookup id
      rw [heq, hreports, ← hcache]
      unfold reportInvalid
      rw [cache_report]
      rfl
    · show _ = (m.cometBftRemovalCache.addAll (m.invalidatedTxs signedTx reason)).cache.lookup id
      rw [heq, hreports, hcache]
      rfl
  | runMaintenance state recost clock addresses =>
    show (report _ _).cometBftRemovalCache.cache.lookup id = _
    rw [cache_report, cache_maintainAccounts]
    rfl

/-- A reason that was not asked for is in the cache. -/
theorem Awaits.lookup {received : Set Bytes} (hinj : Set.InjOn ext.sha256 received)
    {signedTx : Transaction} {reason : RemovalReason} {m : Mempool parkedMaxTxCount}
    (h : Awaits received signedTx reason m) :
    m.cometBftRemovalCache.cache.lookup (transactionId signedTx) = some reason ∧
      ∃ tx ∈ received, Encodes tx signedTx := by
  -- a request for other bytes asks for another hash
  have hasks {m : Mempool parkedMaxTxCount} {r : Request} (hexact : r.Exact received m)
      (hreceived : ∃ tx ∈ received, Encodes tx signedTx)
      (hunasked : ∀ tx state now, r = .checkTx tx state now →
        Transaction.decode tx ≠ .ok signedTx) :
      ∀ tx state now, r = .checkTx tx state now → ext.sha256 tx ≠ transactionId signedTx := by
    rintro tx state now rfl hhash
    obtain ⟨tx', htx', hdecode, hencode⟩ := hreceived
    have hmem : signedTx.encode ∈ received := hencode.symm ▸ htx'
    have hsame : tx = signedTx.encode := hinj hexact.1 hmem hhash
    refine hunasked tx state now rfl ?_
    rw [hsame, hencode]
    exact hdecode
  induction h with
  | @removed m r served hexact hheld hgone hreported hkept =>
    have hagrees := served.agrees hinj
    have hreceived := hagrees.received signedTx hheld
    refine ⟨?_, hreceived⟩
    have hunasked : ∀ tx state now, r = .checkTx tx state now →
        Transaction.decode tx ≠ .ok signedTx := by
      rintro tx state now rfl -
      cases hreported
    rw [lookup_serve r (hasks hexact hreceived hunasked),
      RemovalCache.lookup_addAll_of_none (hagrees.unreported signedTx hheld) hkept, hreported]
  | @later m r _ hexact hunasked hkept ih =>
    refine ⟨?_, ih.2⟩
    rw [lookup_serve r (hasks hexact ih.2 hunasked)]
    exact RemovalCache.lookup_addAll_of_some ih.1 hkept

/-- In every run of requests whose bytes are the encoding of the transaction that they are decoded to, a
request for a transaction that is held succeeds, and the first request for one that was removed with a
reason returns the reason. -/
theorem checkTx_agrees {received : Set Bytes} (hinj : Set.InjOn ext.sha256 received)
    {m : Mempool parkedMaxTxCount} (h : Served received m) {tx : Bytes} {signedTx : Transaction}
    (hencodes : Encodes tx signedTx) (state : Base) (now : Time) :
    (signedTx ∈ m.held → (m.handleCheckTx tx state now).1 = .ok .default) ∧
      ∀ reason, Awaits received signedTx reason m →
        (m.handleCheckTx tx state now).1 = .ok reason.intoCheckTxResponse := by
  have hhash : ext.sha256 tx = transactionId signedTx := congrArg ext.sha256 hencodes.2.symm
  constructor
  · intro hheld
    have hagrees := h.agrees hinj
    obtain ⟨rest, hrest⟩ := hagrees.tracked
    have hunreported := hagrees.unreported signedTx hheld
    have htracked := hrest.mem hheld
    rcases m.handleCheckTx_cases tx state now with ⟨reason, hlookup, -⟩ | ⟨-, ⟨-, heq⟩ | ⟨hnot, -⟩⟩
    · rw [hhash, hunreported] at hlookup
      cases hlookup
    · rw [heq]
    · rw [hhash] at hnot
      exact absurd htracked hnot
  · intro reason hawaits
    obtain ⟨hreason, -⟩ := hawaits.lookup hinj
    rcases m.handleCheckTx_cases tx state now with ⟨reason', hlookup, heq⟩ | ⟨hnone, -⟩
    · rw [hhash, hreason] at hlookup
      rw [heq, Option.some.inj hlookup]
    · rw [hhash, hreason] at hnone
      cases hnone

/-! ## Other bytes of a transaction -/

end

section

open TestUtils TestFormats

/-- Alice's transfer with nonce 1. -/
def transfer : Transaction := body.sign aliceSeed

/-- The same with a field that has no name, which the decoder skips. -/
def extendedBytes : Bytes := transfer.encode ++ uint64Field 4 1

/-- The mempool after a first request, at alice's nonce 0. -/
@[irreducible] def requested (tx : Bytes) : Mempool 10 := ((new 10).handleCheckTx tx genesis.base 0).2

theorem decode_transfer : Transaction.decode transfer.encode = .ok transfer := by
  refine decode_sign sendable ?_
  intro act hact
  obtain rfl := List.mem_singleton.mp hact
  exact Action.lawful formatsRead |>.stable tryFromRaw_rawTransfer

theorem decode_extendedBytes : Transaction.decode extendedBytes = .ok transfer := by
  obtain ⟨raw, hraw, htx⟩ := Codec.bind_eq_ok.mp decode_transfer
  refine Codec.bind_eq_ok.mpr ⟨raw, ?_, htx⟩
  rw [← hraw]
  decide +kernel

/-- The one transaction that is parked by a first request is the requested one. -/
theorem held_requested (tx : Bytes) (hdecode : Transaction.decode tx = .ok transfer)
    (hlen : (requested tx).parked.len = 1) : transfer ∈ (requested tx).held := by
  rw [TransactionsContainer.len_eq_card] at hlen
  obtain ⟨tx', htx'⟩ := Multiset.card_pos_iff_exists_mem.mp (hlen.symm ▸ Nat.one_pos)
  have hmem : tx' ∈ (requested tx).held := Multiset.mem_add.mpr (Or.inr htx')
  rcases (new 10).handleCheckTx_cases tx genesis.base 0 with
    ⟨reason, hlookup, -⟩ | ⟨-, ⟨htracked, -⟩ | ⟨-, heq | ⟨ttx, n, b, hdecode', heq, -⟩⟩⟩
  · cases hlookup
  · exact absurd htracked (Finset.notMem_empty _)
  · have hsame : requested tx = new 10 := by
      unfold requested
      exact heq
    rw [hsame] at hmem
    exact absurd hmem (Multiset.notMem_zero _)
  · have hsame : requested tx = ((new 10).insert ttx n b).2 := by
      unfold requested
      exact heq
    have hle : (requested tx).held ≤ {ttx.signedTx} := by
      rw [hsame]
      rcases (new 10).held_insert_le ttx n b with hle | ⟨hle, -⟩
      · exact le_trans hle (Multiset.zero_le _)
      · exact hle
    rw [hdecode] at hdecode'
    rw [Except.ok.inj hdecode']
    rwa [← Multiset.mem_singleton.mp (Multiset.mem_of_le hle hmem)]

set_option maxRecDepth 10000 in
theorem requested_transfer :
    ((new 10).handleCheckTx transfer.encode genesis.base 0).1 = .ok .default ∧
      (requested transfer.encode).parked.len = 1 := by
  decide +kernel

theorem held_transfer : transfer ∈ (requested transfer.encode).held := by
  obtain ⟨-, hlen⟩ := requested_transfer
  exact held_requested transfer.encode decode_transfer hlen

theorem served_transfer : Served {transfer.encode} (requested transfer.encode) := by
  unfold requested
  refine .request (r := .checkTx transfer.encode genesis.base 0) .new
    ⟨Set.mem_singleton _, ?_, ?_⟩
  · intro signedTx hdecode
    rw [decode_transfer] at hdecode
    rw [Except.ok.inj hdecode]
  · intro hpends
    obtain ⟨panic, hpanic⟩ := handleCheckTx_panics_iff.mpr hpends
    rw [requested_transfer.1] at hpanic
    cases hpanic

set_option maxRecDepth 10000 in
/-- Its removal after it failed is reported. -/
theorem awaits_transfer :
    Awaits {transfer.encode} transfer (.failedPrepareProposal "e")
      ((requested transfer.encode).removeTxInvalid transfer (.failedPrepareProposal "e")) := by
  have hgone := notMem_held_removeTxInvalid (served_transfer.agrees (Set.injOn_singleton _ _)).filed
    transfer (.failedPrepareProposal "e")
  refine .removed (r := .removeTxInvalid transfer (.failedPrepareProposal "e")) served_transfer
    ⟨_, rfl, decode_transfer, rfl⟩ held_transfer hgone ?_ ?_ <;> decide +kernel

theorem checkTx_agrees_transfer :
    ((requested transfer.encode).handleCheckTx transfer.encode genesis.base 0).1 = .ok .default ∧
      (((requested transfer.encode).removeTxInvalid transfer
          (.failedPrepareProposal "e")).handleCheckTx transfer.encode genesis.base 0).1 =
        .ok (RemovalReason.intoCheckTxResponse (.failedPrepareProposal "e")) := by
  have hinj : Set.InjOn External.sha256 {transfer.encode} := Set.injOn_singleton _ _
  have hencodes : Encodes transfer.encode transfer := ⟨decode_transfer, rfl⟩
  have hremoved : Served {transfer.encode}
      ((requested transfer.encode).removeTxInvalid transfer (.failedPrepareProposal "e")) :=
    served_transfer.request (r := .removeTxInvalid transfer (.failedPrepareProposal "e"))
      ⟨transfer.encode, Set.mem_singleton _, hencodes⟩
  obtain ⟨hholds, -⟩ := checkTx_agrees hinj served_transfer hencodes genesis.base 0
  obtain ⟨-, hreports⟩ := checkTx_agrees hinj hremoved hencodes genesis.base 0
  exact ⟨hholds held_transfer, hreports _ awaits_transfer⟩

set_option maxRecDepth 10000 in
/-- Other bytes of the transfer are accepted, and refused while it is held; after it was removed with a
reason they are accepted again. -/
theorem extendedBytes_refused :
    Transaction.decode extendedBytes = .ok transfer ∧
      ((new 10).handleCheckTx extendedBytes genesis.base 0).1 = .ok .default ∧
      transfer ∈ (requested extendedBytes).held ∧
      ((requested extendedBytes).handleCheckTx extendedBytes genesis.base 0).1 =
        .ok InsertionError.alreadyPresent.intoCheckTxResponse ∧
      (((requested extendedBytes).removeTxInvalid transfer
          (.failedPrepareProposal "e")).handleCheckTx extendedBytes genesis.base 0).1 =
        .ok .default := by
  have hruns : ((new 10).handleCheckTx extendedBytes genesis.base 0).1 = .ok .default ∧
      (requested extendedBytes).parked.len = 1 ∧
      ((requested extendedBytes).handleCheckTx extendedBytes genesis.base 0).1 =
        .ok InsertionError.alreadyPresent.intoCheckTxResponse ∧
      (((requested extendedBytes).removeTxInvalid transfer
          (.failedPrepareProposal "e")).handleCheckTx extendedBytes genesis.base 0).1 =
        .ok .default := by
    decide +kernel
  obtain ⟨hfirst, hlen, hagain, hremoved⟩ := hruns
  exact ⟨decode_extendedBytes, hfirst, held_requested extendedBytes decode_extendedBytes hlen, hagain, hremoved⟩

end

end Mempool

end Astria.Sequencer
