import Astria.Relayer.Submitter

/-!
# The state of the submissions

What the relayer writes to the submission state file, and how one submission is tried until it is
confirmed (`crates/astria-sequencer-relayer/src/relayer/submission.rs`, `relayer/write/mod.rs`, lines
300–626).

The file is replaced as a whole, or not at all if a write fails.  What Celestia answers is an argument of
every step; it confirms only what it included.

Results:
* `PreparedSubmission.constructAndWrite_eq_ok`: what is known of a prepared submission;
* `SubmitWithRetry.answers_answer`: all that an answer can do to a submission and to the file.
-/

namespace Astria.Relayer

open Astria.Core Astria.Lib
open Astria.Sequencer (External)

/-! ## The file -/

/-- `CompletedSubmission`. -/
structure CompletedSubmission where
  celestiaHeight : ℕ
  sequencerHeight : ℕ
  deriving DecidableEq

/-- `BlobTx`: the signed transaction, with the blobs that it pays for. -/
structure BlobTx where
  tx : Bytes
  blobs : List Blob

/-- `BlobTxHash::compute`. -/
def BlobTx.hash [ext : External] (blobTx : BlobTx) : Bytes32 := ext.sha256 blobTx.tx

/-- `State` (`submission.rs`), without the time, which is for the timeout of the confirmation. -/
inductive SubmissionState where
  | fresh
  | started (lastSubmission : CompletedSubmission)
  | prepared (sequencerHeight : ℕ) (lastSubmission : CompletedSubmission) (blobTxHash : Bytes32)
  deriving DecidableEq

/-- The sequencer height of the last submission that was confirmed. -/
def SubmissionState.recorded : SubmissionState → ℕ
  | .fresh => 0
  | .started lastSubmission => lastSubmission.sequencerHeight
  | .prepared _ lastSubmission _ => lastSubmission.sequencerHeight

/-- The last submission of `StartedSubmission`. -/
def StartedSubmission.lastSubmission (started : StartedSubmission) : CompletedSubmission :=
  { celestiaHeight := started.lastSubmissionCelestiaHeight
    sequencerHeight := started.lastSubmissionSequencerHeight }

/-- A `StartedSubmission` of its last submission. -/
def StartedSubmission.of (lastSubmission : CompletedSubmission) : StartedSubmission :=
  { lastSubmissionSequencerHeight := lastSubmission.sequencerHeight
    lastSubmissionCelestiaHeight := lastSubmission.celestiaHeight }

/-- `PreparedSubmission`: it is above the last submission. -/
structure PreparedSubmission where
  sequencerHeight : ℕ
  lastSubmission : CompletedSubmission
  blobTxHash : Bytes32
  increases : lastSubmission.sequencerHeight < sequencerHeight

/-- What the file has for a prepared submission. -/
def PreparedSubmission.state (prepared : PreparedSubmission) : SubmissionState :=
  .prepared prepared.sequencerHeight prepared.lastSubmission prepared.blobTxHash

theorem PreparedSubmission.state_injective : Function.Injective PreparedSubmission.state := by
  rintro ⟨_, _, _, _⟩ ⟨_, _, _, _⟩ h
  cases h
  rfl

/-- `FreshSubmission::into_started`, which does not write. -/
def freshIntoStarted : StartedSubmission := .of { celestiaHeight := 0, sequencerHeight := 0 }

/-- `StartedSubmission::construct_and_write`. -/
def StartedSubmission.constructAndWrite (written : Bool) (lastSubmission : CompletedSubmission)
    (file : SubmissionState) : Except Report StartedSubmission × SubmissionState :=
  if written then (.ok (.of lastSubmission), .started lastSubmission)
  else (.error ["failed commiting submission started state to disk"], file)

namespace PreparedSubmission

/-- `PreparedSubmission::construct_and_write`. -/
def constructAndWrite (written : Bool) (sequencerHeight : ℕ) (lastSubmission : CompletedSubmission)
    (blobTxHash : Bytes32) (file : SubmissionState) :
    Except Report PreparedSubmission × SubmissionState :=
  if h : lastSubmission.sequencerHeight < sequencerHeight then
    if written then
      (.ok
        { sequencerHeight := sequencerHeight
          lastSubmission := lastSubmission
          blobTxHash := blobTxHash
          increases := h },
        .prepared sequencerHeight lastSubmission blobTxHash)
    else (.error ["failed commiting submission prepared state to disk"], file)
  else
    (.error ["cannot submit a sequencer block at height below or equal to what was already " ++
      "successfully submitted"], file)

/-- `PreparedSubmission::into_started`. -/
def intoStarted (written : Bool) (celestiaHeight : ℕ) (prepared : PreparedSubmission)
    (file : SubmissionState) : Except Report StartedSubmission × SubmissionState :=
  StartedSubmission.constructAndWrite written
    { celestiaHeight := celestiaHeight, sequencerHeight := prepared.sequencerHeight } file

/-- `PreparedSubmission::revert`. -/
def revert (written : Bool) (prepared : PreparedSubmission) (file : SubmissionState) :
    Except Report StartedSubmission × SubmissionState :=
  StartedSubmission.constructAndWrite written prepared.lastSubmission file

theorem constructAndWrite_eq_ok {written : Bool} {sequencerHeight : ℕ}
    {lastSubmission : CompletedSubmission} {blobTxHash : Bytes32} {file file' : SubmissionState}
    {prepared : PreparedSubmission}
    (h : constructAndWrite written sequencerHeight lastSubmission blobTxHash file =
      (.ok prepared, file')) :
    file' = prepared.state ∧ prepared.sequencerHeight = sequencerHeight ∧
      prepared.lastSubmission = lastSubmission ∧ prepared.blobTxHash = blobTxHash := by
  unfold constructAndWrite at h
  split_ifs at h with hlt hwritten
  · cases h
    exact ⟨rfl, rfl, rfl, rfl⟩
  · cases h
  · cases h

theorem constructAndWrite_eq_error {written : Bool} {sequencerHeight : ℕ}
    {lastSubmission : CompletedSubmission} {blobTxHash : Bytes32} {file file' : SubmissionState}
    {e : Report}
    (h : constructAndWrite written sequencerHeight lastSubmission blobTxHash file =
      (.error e, file')) : file' = file := by
  unfold constructAndWrite at h
  split_ifs at h with hlt hwritten
  · cases h
  · cases h
    rfl
  · cases h
    rfl

end PreparedSubmission

/-- `SubmissionStateAtStartup`. -/
inductive SubmissionStateAtStartup where
  | fresh
  | started (startedSubmission : StartedSubmission)
  | prepared (preparedSubmission : PreparedSubmission)

namespace SubmissionStateAtStartup

/-- `new_from_path`: the file is checked, and written back. -/
def newFromPath (path : String) (written : Bool) (state : SubmissionState) :
    Except Report SubmissionStateAtStartup :=
  let unwritable := [s!"failed writing just-read submission state to disk at `{path}`"]
  match state with
  | .fresh => if written then .ok .fresh else .error unwritable
  | .started lastSubmission =>
    if written then .ok (.started (.of lastSubmission)) else .error unwritable
  | .prepared sequencerHeight lastSubmission blobTxHash =>
    if h : lastSubmission.sequencerHeight < sequencerHeight then
      if written then
        .ok (.prepared
          { sequencerHeight := sequencerHeight
            lastSubmission := lastSubmission
            blobTxHash := blobTxHash
            increases := h })
      else .error unwritable
    else
      .error
        [s!"submission state file `{path}` invalid: current sequencer height ({sequencerHeight}) " ++
          "should be greater than last successful submission sequencer height " ++
          s!"({lastSubmission.sequencerHeight})"]

/-- `last_completed_sequencer_height`. -/
def lastCompletedSequencerHeight : SubmissionStateAtStartup → Option ℕ
  | .fresh => none
  | .started startedSubmission => some startedSubmission.lastSubmissionSequencerHeight
  | .prepared preparedSubmission => some preparedSubmission.lastSubmission.sequencerHeight

/-- The file that a state at startup was read from. -/
def file : SubmissionStateAtStartup → SubmissionState
  | .fresh => .fresh
  | .started startedSubmission => .started startedSubmission.lastSubmission
  | .prepared preparedSubmission => preparedSubmission.state

theorem file_newFromPath {path : String} {written : Bool} {state : SubmissionState}
    {atStartup : SubmissionStateAtStartup} (h : newFromPath path written state = .ok atStartup) :
    atStartup.file = state := by
  unfold newFromPath at h
  cases state with
  | fresh =>
    dsimp only at h
    split_ifs at h
    cases h
    rfl
  | started lastSubmission =>
    dsimp only at h
    split_ifs at h
    cases h
    rfl
  | prepared sequencerHeight lastSubmission blobTxHash =>
    dsimp only at h
    split_ifs at h
    cases h
    rfl

end SubmissionStateAtStartup

/-! ## One submission -/

/-- `SubmissionError`. -/
inductive SubmissionError where
  | trySubmit (error : Report)
  | unrecoverable (error : Report)
  | broadcastTxTimedOut (preparedSubmission : PreparedSubmission)

/-- Where `try_submit` waits: for the confirmation of what the attempt before has broadcast, for what a
transaction is prepared with, for the answer to the broadcast, or for the confirmation. -/
inductive TrySubmit where
  | confirming (preparedSubmission : PreparedSubmission)
  | preparing
  | broadcasting (preparedSubmission : PreparedSubmission) (blobTx : BlobTx)
  | polling (preparedSubmission : PreparedSubmission) (txHash : Bytes32)

/-- `submit_with_retry`, in one of its attempts. -/
structure SubmitWithRetry where
  blobs : List Blob
  startedSubmission : StartedSubmission
  largestSequencerHeight : ℕ
  attempt : TrySubmit

/-- What an attempt waits for: a confirmation or its timeout, a signed transaction, the answer to a
broadcast, or an error.  Where something is written then, the write succeeds or not. -/
inductive Answer where
  | confirmed (celestiaHeight : ℕ) (written : Bool)
  | timedOut
  | signed (tx : Bytes) (written : Bool)
  | broadcast (txHash : Bytes32)
  | failed (error : Report)

/-- How an attempt goes on. -/
inductive Attempted where
  | waits (attempt : TrySubmit)
  | succeeds (newState : StartedSubmission)
  | fails (error : SubmissionError)

/-- A result with an error that is not recovered from. -/
def Attempted.ofResult : Except Report StartedSubmission → Attempted
  | .ok newState => .succeeds newState
  | .error error => .fails (.unrecoverable error)

section

variable [ext : External]

/-- Celestia has included a transaction with a hash. -/
def Includes (included : List BlobTx) (txHash : Bytes32) : Prop :=
  ∃ blobTx ∈ included, blobTx.hash = txHash

instance (included : List BlobTx) (txHash : Bytes32) : Decidable (Includes included txHash) :=
  inferInstanceAs (Decidable (∃ blobTx ∈ included, _))

namespace SubmitWithRetry

/-- `submit_blobs`, when it begins. -/
def new (submission : Submission) (startedSubmission : StartedSubmission) : SubmitWithRetry :=
  { blobs := submission.payload.blobs
    startedSubmission := startedSubmission
    largestSequencerHeight := submission.input.greatestSequencerHeight.getD 0
    attempt := .preparing }

/-- The transaction that is prepared. -/
def blobTx (submission : SubmitWithRetry) (tx : Bytes) : BlobTx := { tx := tx, blobs := submission.blobs }

/-- The transaction that an answer has the submission prepare. -/
def signs (submission : SubmitWithRetry) (answer : Answer) : List BlobTx :=
  match submission.attempt, answer with
  | .preparing, .signed tx _ => [submission.blobTx tx]
  | _, _ => []

/-- `try_submit`, from one answer to the next. -/
def trySubmit (included : List BlobTx) (submission : SubmitWithRetry) (file : SubmissionState)
    (answer : Answer) : Attempted × SubmissionState :=
  match submission.attempt, answer with
  -- `try_confirm_submission_from_failed_attempt`
  | .confirming preparedSubmission, .confirmed celestiaHeight written =>
    if Includes included preparedSubmission.blobTxHash then
      let (result, file) := preparedSubmission.intoStarted written celestiaHeight file
      (.ofResult result, file)
    else (.waits submission.attempt, file)
  | .confirming _, .timedOut => (.waits .preparing, file)
  | .preparing, .failed error => (.fails (.trySubmit error), file)
  | .preparing, .signed tx written =>
    let blobTx := submission.blobTx tx
    match PreparedSubmission.constructAndWrite written submission.largestSequencerHeight
        submission.startedSubmission.lastSubmission blobTx.hash file with
    | (.ok preparedSubmission, file) => (.waits (.broadcasting preparedSubmission blobTx), file)
    | (.error error, file) => (.fails (.unrecoverable error), file)
  -- a hash that is not the one of the transaction is only warned of
  | .broadcasting preparedSubmission _, .broadcast txHash =>
    (.waits (.polling preparedSubmission txHash), file)
  | .broadcasting preparedSubmission _, .timedOut =>
    (.fails (.broadcastTxTimedOut preparedSubmission), file)
  | .broadcasting _ _, .failed error => (.fails (.trySubmit error), file)
  | .polling preparedSubmission txHash, .confirmed celestiaHeight written =>
    if Includes included txHash then
      let (result, file) := preparedSubmission.intoStarted written celestiaHeight file
      (.ofResult result, file)
    else (.waits submission.attempt, file)
  | _, _ => (.waits submission.attempt, file)

/-- What becomes of a submission. -/
inductive Progress where
  | ongoing (submission : SubmitWithRetry)
  | ready (result : Except Report StartedSubmission)

/-- The retries of `submit_with_retry`, by how an attempt goes on. -/
def retry (submission : SubmitWithRetry) : Attempted → Progress
  | .waits attempt => .ongoing { submission with attempt := attempt }
  | .succeeds newState => .ready (.ok newState)
  | .fails (.trySubmit _) => .ongoing { submission with attempt := .preparing }
  | .fails (.broadcastTxTimedOut preparedSubmission) =>
    .ongoing { submission with attempt := .confirming preparedSubmission }
  | .fails (.unrecoverable error) => .ready (.error error)

/-- An answer to a submission. -/
def answer (included : List BlobTx) (submission : SubmitWithRetry) (file : SubmissionState)
    (answer : Answer) : Progress × SubmissionState :=
  let (attempted, file) := submission.trySubmit included file answer
  (submission.retry attempted, file)

/-- Celestia reports the hash of the transaction that was broadcast. -/
def reports (submission : SubmitWithRetry) (answer : Answer) : Bool :=
  match submission.attempt, answer with
  | .broadcasting _ blobTx, .broadcast txHash => txHash = blobTx.hash
  | _, _ => true

/-! ### What an answer can do -/

/-- The prepared submission of an attempt, with the hash that is waited for. -/
inductive Waits : TrySubmit → PreparedSubmission → Bytes32 → Prop
  | confirming {prepared : PreparedSubmission} : Waits (.confirming prepared) prepared prepared.blobTxHash
  | broadcasting {prepared : PreparedSubmission} {blobTx : BlobTx} :
    Waits (.broadcasting prepared blobTx) prepared blobTx.hash
  | polling {prepared : PreparedSubmission} {txHash : Bytes32} :
    Waits (.polling prepared txHash) prepared txHash

/-- All that an answer does to a submission and to the file: what was prepared is kept or given up, a
transaction is prepared, its hash is reported, one is confirmed, or there is an error. -/
inductive Answers (included : List BlobTx) (submission : SubmitWithRetry) (file : SubmissionState)
    (a : Answer) : Progress → SubmissionState → Prop
  | keeps {attempt : TrySubmit} :
    (∀ prepared txHash, Waits attempt prepared txHash →
      (Waits submission.attempt prepared txHash ∨
        txHash = prepared.blobTxHash ∧ ∃ txHash', Waits submission.attempt prepared txHash')) →
    Answers included submission file a (.ongoing { submission with attempt := attempt }) file
  | prepares {tx : Bytes} {prepared : PreparedSubmission} : submission.signs a = [submission.blobTx tx] →
    prepared.sequencerHeight = submission.largestSequencerHeight →
    prepared.lastSubmission = submission.startedSubmission.lastSubmission →
    prepared.blobTxHash = (submission.blobTx tx).hash →
    Answers included submission file a
      (.ongoing { submission with attempt := .broadcasting prepared (submission.blobTx tx) })
      prepared.state
  | reports {prepared : PreparedSubmission} {blobTx : BlobTx} {txHash : Bytes32} :
    submission.attempt = .broadcasting prepared blobTx → a = .broadcast txHash →
    Answers included submission file a
      (.ongoing { submission with attempt := .polling prepared txHash }) file
  | confirms {celestiaHeight : ℕ} {prepared : PreparedSubmission} {txHash : Bytes32} :
    Waits submission.attempt prepared txHash → Includes included txHash →
    Answers included submission file a
      (.ready (.ok (.of
        { celestiaHeight := celestiaHeight, sequencerHeight := prepared.sequencerHeight })))
      (.started { celestiaHeight := celestiaHeight, sequencerHeight := prepared.sequencerHeight })
  | breaks {error : Report} : Answers included submission file a (.ready (.error error)) file

/-- What is confirmed is written, or the submission breaks off. -/
theorem answers_confirmed {included : List BlobTx} {submission : SubmitWithRetry}
    {file : SubmissionState} {a : Answer} {prepared : PreparedSubmission} {txHash : Bytes32}
    (hwaits : Waits submission.attempt prepared txHash) (hincludes : Includes included txHash)
    (celestiaHeight : ℕ) (written : Bool) :
    Answers included submission file a
      (submission.retry (.ofResult (prepared.intoStarted written celestiaHeight file).1))
      (prepared.intoStarted written celestiaHeight file).2 := by
  unfold PreparedSubmission.intoStarted StartedSubmission.constructAndWrite
  cases written with
  | true => exact .confirms hwaits hincludes
  | false => exact .breaks

theorem answers_keeps {included : List BlobTx} {submission : SubmitWithRetry} {file : SubmissionState}
    {a : Answer} : Answers included submission file a (.ongoing submission) file := by
  have hkeeps : Answers included submission file a
      (.ongoing { submission with attempt := submission.attempt }) file := .keeps fun _ _ h => Or.inl h
  exact hkeeps

theorem answers_answer (included : List BlobTx) (submission : SubmitWithRetry)
    (file : SubmissionState) (a : Answer) :
    Answers included submission file a (submission.answer included file a).1
      (submission.answer included file a).2 := by
  have hpreparing : ∀ prepared txHash, Waits .preparing prepared txHash →
      (Waits submission.attempt prepared txHash ∨
        txHash = prepared.blobTxHash ∧ ∃ txHash', Waits submission.attempt prepared txHash') := by
    intro prepared txHash h
    cases h
  unfold answer trySubmit
  dsimp only
  split
  case h_1 preparedSubmission celestiaHeight written hattempt =>
    split_ifs with hincludes
    · exact answers_confirmed (hattempt ▸ .confirming) hincludes celestiaHeight written
    · exact answers_keeps
  case h_2 => exact .keeps hpreparing
  case h_3 => exact .keeps hpreparing
  case h_4 tx written hattempt =>
    split
    case h_1 prepared file' hprepared =>
      obtain ⟨rfl, hheight, hlast, hhash⟩ := PreparedSubmission.constructAndWrite_eq_ok hprepared
      refine .prepares ?_ hheight hlast hhash
      unfold signs
      rw [hattempt]
    case h_2 error file' hprepared =>
      rw [PreparedSubmission.constructAndWrite_eq_error hprepared]
      exact .breaks
  case h_5 preparedSubmission blobTx txHash hattempt => exact .reports hattempt rfl
  case h_6 preparedSubmission blobTx hattempt =>
    refine .keeps ?_
    rintro _ _ ⟨⟩
    rw [hattempt]
    exact Or.inr ⟨rfl, _, .broadcasting⟩
  case h_7 => exact .keeps hpreparing
  case h_8 preparedSubmission txHash celestiaHeight written hattempt =>
    split_ifs with hincludes
    · exact answers_confirmed (hattempt ▸ .polling) hincludes celestiaHeight written
    · exact answers_keeps
  case h_9 => exact answers_keeps

end SubmitWithRetry

end

end Astria.Relayer
