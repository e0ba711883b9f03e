import Astria.Conductor.BlockVerifier
import Astria.Relayer.Submitted
import Astria.Sequencer.TestUtils

/-!
# Metadata against commits

Conductor's filter on the metadata that it finds on Celestia (`celestia/verify.rs`): the commit at the
height of an item is fetched, checked for a quorum and cached, and the item is compared with it.

A comparison that fails is logged as the reason why the item is dropped, but the item is returned all
the same: what is dropped is below the next expected height, or its commit cannot be had.

Results:
* `VerificationMeta.fetch_eq_ok`: what is known of the commit that an item is verified with;
* `BlobVerifier.verifyMetadata_spec`: which items are returned;
* `Verification.kept_run`: what the result holds after the tasks have ended in any order;
* `Verification.exists_run_last`: an item of a task that ends last is in the result;
* `verifyMetadata_authentic_iff`: when all items of the result are those of their commits.
-/

namespace Astria.Conductor

open Astria.Core Astria.Lib
open Astria.Relayer (SubmittedMetadata SubmittedRollupData)
open Astria.Sequencer (BlockHash External)

/-! ## Commits from CometBFT -/

/-- `tendermint::block::Header`; of its fields, those of which a sequencer block has a copy. -/
structure CommitHeader where
  chainId : String
  height : ℕ
  time : Time
  dataHash : Option Bytes32
  proposerAddress : AccountId
  deriving DecidableEq

/-- `SignedHeader`. -/
structure SignedHeader where
  header : CommitHeader
  commit : Commit
  deriving DecidableEq

/-- What CometBFT answers at each height; a failure is `none`. -/
structure CometBft where
  commit : ℕ → Option SignedHeader
  validators : ℕ → Option ValidatorsResponse

inductive VerificationMetaError where
  | cantVerifyHeightZero
  | fetchCommit (height : ℕ)
  | fetchValidators (prevHeight height : ℕ)
  | noQuorum (heightOfCommit heightOfValidatorSet : ℕ) (source : QuorumError)
  deriving DecidableEq

structure VerificationMeta where
  commitHeader : SignedHeader
  deriving DecidableEq

/-- `ensure_chain_ids_match`. -/
def ensureChainIdsMatch (inCommit inHeader : String) : Except Report Unit :=
  if inCommit = inHeader then .ok ()
  else
    .error ["expected cometbft chain ID `" ++ inCommit ++ "` (from commit), but found `" ++ inHeader ++
      "` in retrieved metadata"]

/-- `ensure_block_hashes_match`. -/
def ensureBlockHashesMatch (inCommit : Bytes) (inHeader : BlockHash) : Except Report Unit :=
  if inCommit = inHeader.toList then .ok ()
  else
    .error ["expected block hash `" ++ String.ofList (Base64.encode inCommit) ++
      "` (from commit), but found `" ++ String.ofList (Base64.encode inHeader.toList) ++
      "` in retrieved metadata"]

/-- `Hash::as_bytes`: an empty hash has no bytes. -/
def hashBytes (hash : Option Bytes32) : Bytes := hash.elim [] List.Vector.toList

/-- The two comparisons of an item with a commit. -/
def ensureMetadataMatches (signedHeader : SignedHeader) (metadata : SubmittedMetadata) :
    Except Report Unit := do
  ensureChainIdsMatch signedHeader.header.chainId metadata.header.chainId
  ensureBlockHashesMatch (hashBytes signedHeader.commit.blockId.hash) metadata.blockHash

/-- An item has the chain id and the block hash of a commit. -/
structure Matches (signedHeader : SignedHeader) (metadata : SubmittedMetadata) : Prop where
  chainId : metadata.header.chainId = signedHeader.header.chainId
  blockHash : signedHeader.commit.blockId.hash = some metadata.blockHash

section

variable [crypto : CommitCrypto]

/-- `VerificationMeta::fetch`. -/
def VerificationMeta.fetch (client : CometBft) (height : ℕ) :
    Except VerificationMetaError VerificationMeta :=
  if height = 0 then .error .cantVerifyHeightZero
  else
    match client.commit height with
    | none => .error (.fetchCommit height)
    | some signedHeader =>
      match client.validators (height - 1) with
      | none => .error (.fetchValidators (height - 1) height)
      | some validators =>
        match ensureCommitHasQuorum signedHeader.commit validators signedHeader.header.chainId with
        | .error source => .error (.noQuorum height (height - 1) source)
        | .ok () => .ok { commitHeader := signedHeader }

/-- The commit that CometBFT has at a height, with a quorum of the validators of the height before. -/
structure QuorumCommit (client : CometBft) (height : ℕ) (signedHeader : SignedHeader) : Prop where
  height_ne : height ≠ 0
  commit : client.commit height = some signedHeader
  quorum : ∃ validators, client.validators (height - 1) = some validators ∧
    ensureCommitHasQuorum signedHeader.commit validators signedHeader.header.chainId = .ok ()

theorem VerificationMeta.fetch_eq_ok {client : CometBft} {height : ℕ}
    {verification : VerificationMeta} :
    fetch client height = .ok verification ↔ QuorumCommit client height verification.commitHeader := by
  constructor
  · intro h
    unfold fetch at h
    split_ifs at h with hzero
    cases hcommit : client.commit height with
    | none =>
      rw [hcommit] at h
      cases h
    | some signedHeader =>
      rw [hcommit] at h
      dsimp only at h
      cases hvalidators : client.validators (height - 1) with
      | none =>
        rw [hvalidators] at h
        cases h
      | some validators =>
        rw [hvalidators] at h
        dsimp only at h
        cases hquorum : ensureCommitHasQuorum signedHeader.commit validators
            signedHeader.header.chainId with
        | error source =>
          rw [hquorum] at h
          cases h
        | ok u =>
          rw [hquorum] at h
          cases h
          exact ⟨hzero, hcommit, validators, hvalidators, hquorum⟩
  · rintro ⟨hzero, hcommit, validators, hvalidators, hquorum⟩
    unfold fetch
    rw [if_neg hzero, hcommit]
    dsimp only
    rw [hvalidators]
    dsimp only
    rw [hquorum]

/-! ## The verifier -/

/-- `BlobVerifier`: the cache holds what was fetched. -/
structure BlobVerifier where
  client : CometBft
  cache : ℕ → Option VerificationMeta
  cached : ∀ height verification, cache height = some verification →
    VerificationMeta.fetch client height = .ok verification

namespace BlobVerifier

/-- `BlobVerifier::try_new`. -/
def new (client : CometBft) : BlobVerifier :=
  { client := client
    cache := fun _ => none
    cached := fun _ _ h => by cases h }

/-- The cache with one more entry. -/
def store (verifier : BlobVerifier) (height : ℕ) (verification : VerificationMeta)
    (h : VerificationMeta.fetch verifier.client height = .ok verification) : BlobVerifier :=
  { client := verifier.client
    cache := Function.update verifier.cache height (some verification)
    cached := by
      intro height' verification' h'
      rcases eq_or_ne height' height with rfl | hne
      · rw [Function.update_self] at h'
        cases h'
        exact h
      · rw [Function.update_of_ne hne] at h'
        exact verifier.cached height' verification' h' }

/-- The cache is bounded, and forgets entries. -/
def evict (verifier : BlobVerifier) (height : ℕ) : BlobVerifier :=
  { client := verifier.client
    cache := Function.update verifier.cache height none
    cached := by
      intro height' verification' h'
      rcases eq_or_ne height' height with rfl | hne
      · rw [Function.update_self] at h'
        cases h'
      · rw [Function.update_of_ne hne] at h'
        exact verifier.cached height' verification' h' }

/-- `Cache::try_get_with` on the fetch: an error is not kept.  A fetch fails as well if CometBFT cannot be
reached at the time. -/
def tryGetWith (verifier : BlobVerifier) (height : ℕ) (reached : Bool) :
    Option VerificationMeta × BlobVerifier :=
  match verifier.cache height with
  | some verification => (some verification, verifier)
  | none =>
    if reached = false then (none, verifier)
    else
      match h : VerificationMeta.fetch verifier.client height with
      | .error _ => (none, verifier)
      | .ok verification => (some verification, verifier.store height verification h)

/-- `BlobVerifier::verify_metadata`. -/
def verifyMetadata (verifier : BlobVerifier) (metadata : SubmittedMetadata) (reached : Bool) :
    Option SubmittedMetadata × BlobVerifier :=
  let (cached, verifier) := verifier.tryGetWith metadata.header.height reached
  match cached with
  | none => (none, verifier)
  | some cached =>
    match ensureMetadataMatches cached.commitHeader metadata with
    -- logged as the reason for dropping the item, but nothing is returned early
    | .error _ => (some metadata, verifier)
    | .ok () => (some metadata, verifier)

theorem tryGetWith_spec (verifier : BlobVerifier) (height : ℕ) (reached : Bool) :
    (verifier.tryGetWith height reached).2.client = verifier.client ∧
      (∀ verification, (verifier.tryGetWith height reached).1 = some verification →
        VerificationMeta.fetch verifier.client height = .ok verification) ∧
      (reached = true → ∀ verification,
        VerificationMeta.fetch verifier.client height = .ok verification →
          ∃ verification, (verifier.tryGetWith height reached).1 = some verification) := by
  unfold tryGetWith
  cases hcache : verifier.cache height with
  | some verification =>
    refine ⟨rfl, ?_, fun _ _ _ => ⟨verification, rfl⟩⟩
    intro verification' h
    cases h
    exact verifier.cached height verification hcache
  | none =>
    dsimp only
    split_ifs with hreached
    · refine ⟨rfl, fun _ h => (by cases h), fun h => ?_⟩
      rw [h] at hreached
      cases hreached
    · split
      next e hfetch =>
        refine ⟨rfl, fun _ h => (by cases h), fun _ verification h => ?_⟩
        rw [hfetch] at h
        cases h
      next verification hfetch =>
        refine ⟨rfl, ?_, fun _ _ _ => ⟨verification, rfl⟩⟩
        intro verification' h
        cases h
        exact hfetch

/-- An item is returned only if there is a quorum for a commit at its height, and it is if CometBFT is
reached; whether it matches the commit makes no difference. -/
theorem verifyMetadata_spec (verifier : BlobVerifier) (metadata : SubmittedMetadata) (reached : Bool) :
    (verifier.verifyMetadata metadata reached).2.client = verifier.client ∧
      (∀ blob, (verifier.verifyMetadata metadata reached).1 = some blob → blob = metadata ∧
        ∃ signedHeader, QuorumCommit verifier.client metadata.header.height signedHeader) ∧
      (reached = true → ∀ signedHeader,
        QuorumCommit verifier.client metadata.header.height signedHeader →
          (verifier.verifyMetadata metadata reached).1 = some metadata) := by
  obtain ⟨hclient, hsound, hcomplete⟩ := verifier.tryGetWith_spec metadata.header.height reached
  unfold verifyMetadata
  rcases hget : verifier.tryGetWith metadata.header.height reached with ⟨cached, verifier'⟩
  rw [hget] at hclient hsound hcomplete
  cases cached with
  | none =>
    refine ⟨hclient, fun _ h => (by cases h), fun hreached signedHeader hcommit => ?_⟩
    obtain ⟨verification, h⟩ := hcomplete hreached { commitHeader := signedHeader }
      (VerificationMeta.fetch_eq_ok.mpr hcommit)
    cases h
  | some cached =>
    have hcommit := VerificationMeta.fetch_eq_ok.mp (hsound cached rfl)
    dsimp only
    cases ensureMetadataMatches cached.commitHeader metadata with
    | error e =>
      refine ⟨hclient, fun blob h => ?_, fun _ _ _ => rfl⟩
      cases h
      exact ⟨rfl, cached.commitHeader, hcommit⟩
    | ok u =>
      refine ⟨hclient, fun blob h => ?_, fun _ _ _ => rfl⟩
      cases h
      exact ⟨rfl, cached.commitHeader, hcommit⟩

end BlobVerifier

/-! ## All items of a Celestia height -/

/-- `ConvertedBlobs`. -/
structure ConvertedBlobs where
  celestiaHeight : ℕ
  metadata : List SubmittedMetadata
  rollupData : List SubmittedRollupData

/-- `VerifiedBlobs`. -/
structure VerifiedBlobs where
  celestiaHeight : ℕ
  headerBlobs : IndexMap BlockHash SubmittedMetadata
  rollupBlobs : List SubmittedRollupData

/-- What happens while items are verified: a task ends, which may have reached CometBFT if it had to; a
task is cancelled; the cache forgets a height. -/
inductive Progress where
  | ended (index : ℕ) (reached : Bool)
  | cancelled (index : ℕ)
  | evicted (height : ℕ)

/-- The loop of `verify_metadata`, with the tasks that have not been joined. -/
structure Verification where
  verifier : BlobVerifier
  verificationTasks : IndexMap ℕ SubmittedMetadata
  verifiedHeaderBlobs : IndexMap BlockHash SubmittedMetadata

omit crypto in
/-- A task for every item that is not below the next expected height, by its index. -/
def spawnTasks (nextExpectedFirmSequencerHeight : ℕ) (metadata : List SubmittedMetadata) :
    IndexMap ℕ SubmittedMetadata :=
  IndexMap.collect ((metadata.zipIdx.map Prod.swap).filter fun task =>
    ¬ task.2.header.height < nextExpectedFirmSequencerHeight)

namespace Verification

/-- The state in which the loop starts. -/
def start (verifier : BlobVerifier) (metadata : List SubmittedMetadata)
    (nextExpectedFirmSequencerHeight : ℕ) : Verification :=
  { verifier := verifier
    verificationTasks := spawnTasks nextExpectedFirmSequencerHeight metadata
    verifiedHeaderBlobs := IndexMap.empty }

/-- One round of the loop. -/
def joinNext (state : Verification) : Progress → Verification
  | .ended index reached =>
    match state.verificationTasks.get index with
    | none => state
    | some metadata =>
      let (verified, verifier) := state.verifier.verifyMetadata metadata reached
      { verifier := verifier
        verificationTasks := state.verificationTasks.remove index
        verifiedHeaderBlobs :=
          match verified with
          | none => state.verifiedHeaderBlobs
          | some blob => state.verifiedHeaderBlobs.insert blob.blockHash blob }
  | .cancelled index => { state with verificationTasks := state.verificationTasks.remove index }
  | .evicted height => { state with verifier := state.verifier.evict height }

def run (state : Verification) (progress : List Progress) : Verification :=
  progress.foldl joinNext state

/-- The loop is left when all tasks are joined. -/
def Joined (state : Verification) : Prop := ∀ index, state.verificationTasks.get index = none

end Verification

/-- `verify_metadata`. -/
def verifyMetadata (verifier : BlobVerifier) (convertedBlobs : ConvertedBlobs)
    (nextExpectedFirmSequencerHeight : ℕ) (progress : List Progress) : VerifiedBlobs :=
  let state := (Verification.start verifier convertedBlobs.metadata
    nextExpectedFirmSequencerHeight).run progress
  { celestiaHeight := convertedBlobs.celestiaHeight
    headerBlobs := state.verifiedHeaderBlobs
    rollupBlobs := convertedBlobs.rollupData }

/-! ## What the result holds -/

omit crypto in
theorem get_spawnTasks {next index : ℕ} {metadata : List SubmittedMetadata} {item : SubmittedMetadata} :
    (spawnTasks next metadata).get index = some item ↔
      metadata[index]? = some item ∧ next ≤ item.header.height := by
  have hnodup : (((metadata.zipIdx.map Prod.swap).filter fun task =>
      ¬ task.2.header.height < next).map (·.1)).Nodup := by
    refine List.Nodup.sublist (List.filter_sublist.map _) ?_
    rw [List.map_map]
    have hindices : metadata.zipIdx.map ((·.1) ∘ Prod.swap) = List.range' 0 metadata.length :=
      List.zipIdx_map_snd 0 metadata
    rw [hindices]
    exact List.nodup_range'
  rw [IndexMap.get_eq_some, spawnTasks, IndexMap.entries_collect hnodup, List.mem_filter, List.mem_map]
  constructor
  · rintro ⟨⟨⟨item', index'⟩, hmem, heq⟩, hheight⟩
    cases heq
    exact ⟨List.mem_zipIdx_iff_getElem?.mp hmem, by simpa using hheight⟩
  · rintro ⟨hmem, hheight⟩
    exact ⟨⟨(item, index), List.mem_zipIdx_iff_getElem?.mpr hmem, rfl⟩, by simpa using hheight⟩

namespace Verification

/-- The tasks are about items that are not below the next expected height, and so are the items of the
result, for which there is a quorum. -/
structure Kept (client : CometBft) (next : ℕ) (metadata : List SubmittedMetadata)
    (state : Verification) : Prop where
  verifier : state.verifier.client = client
  tasks : ∀ index item, state.verificationTasks.get index = some item →
    item ∈ metadata ∧ next ≤ item.header.height
  verified : ∀ hash item, state.verifiedHeaderBlobs.get hash = some item →
    item.blockHash = hash ∧ item ∈ metadata ∧ next ≤ item.header.height ∧
      ∃ signedHeader, QuorumCommit client item.header.height signedHeader

variable {client : CometBft} {next : ℕ} {metadata : List SubmittedMetadata} {state : Verification}

theorem kept_start (verifier : BlobVerifier) (next : ℕ) (metadata : List SubmittedMetadata) :
    Kept verifier.client next metadata (start verifier metadata next) := by
  refine ⟨rfl, fun index item h => ?_, fun hash item h => ?_⟩
  · obtain ⟨hmem, hheight⟩ := get_spawnTasks.mp h
    exact ⟨List.mem_of_getElem? hmem, hheight⟩
  · cases h

theorem joinNext_ended_none {index : ℕ} {reached : Bool}
    (h : state.verificationTasks.get index = none) : state.joinNext (.ended index reached) = state := by
  simp only [Verification.joinNext, h]

theorem joinNext_ended_some {index : ℕ} {reached : Bool} {item : SubmittedMetadata}
    (h : state.verificationTasks.get index = some item) :
    state.joinNext (.ended index reached) =
      { verifier := (state.verifier.verifyMetadata item reached).2
        verificationTasks := state.verificationTasks.remove index
        verifiedHeaderBlobs :=
          match (state.verifier.verifyMetadata item reached).1 with
          | none => state.verifiedHeaderBlobs
          | some blob => state.verifiedHeaderBlobs.insert blob.blockHash blob } := by
  simp only [Verification.joinNext, h]

theorem Kept.joined (h : Kept client next metadata state) (index : ℕ) :
    Kept client next metadata
      { state with verificationTasks := state.verificationTasks.remove index } where
  verifier := h.verifier
  tasks := by
    intro index' item hget
    rw [IndexMap.get_remove] at hget
    split_ifs at hget
    exact h.tasks index' item hget
  verified := h.verified

theorem Kept.joinNext (h : Kept client next metadata state) (event : Progress) :
    Kept client next metadata (state.joinNext event) := by
  cases event with
  | cancelled index => exact h.joined index
  | evicted height => exact ⟨h.verifier, h.tasks, h.verified⟩
  | ended index reached =>
    cases htask : state.verificationTasks.get index with
    | none =>
      rw [joinNext_ended_none htask]
      exact h
    | some item =>
      rw [joinNext_ended_some htask]
      obtain ⟨hmem, hheight⟩ := h.tasks index item htask
      obtain ⟨hclient, hsound, -⟩ := state.verifier.verifyMetadata_spec item reached
      rw [h.verifier] at hclient hsound
      rcases hverify : state.verifier.verifyMetadata item reached with ⟨verified, verifier⟩
      rw [hverify] at hclient hsound
      refine ⟨hclient, (h.joined index).tasks, ?_⟩
      cases verified with
      | none => exact h.verified
      | some blob =>
        obtain ⟨rfl, hcommit⟩ := hsound blob rfl
        intro hash item' hget
        dsimp only at hget
        rw [IndexMap.get_insert] at hget
        split_ifs at hget with hhash
        · cases hget
          exact ⟨hhash.symm, hmem, hheight, hcommit⟩
        · exact h.verified hash item' hget

theorem Kept.run (h : Kept client next metadata state) (progress : List Progress) :
    Kept client next metadata (state.run progress) := by
  induction progress generalizing state with
  | nil => exact h
  | cons event progress ih => exact ih (h.joinNext event)

/-! ### A task that ends last -/

theorem get_joinNext_ended (state : Verification) (index : ℕ) (reached : Bool) (j : ℕ) :
    (state.joinNext (.ended index reached)).verificationTasks.get j =
      if j = index then none else state.verificationTasks.get j := by
  cases htask : state.verificationTasks.get index with
  | none =>
    rw [joinNext_ended_none htask]
    split_ifs with hj
    · rw [hj, htask]
    · rfl
  | some item =>
    rw [joinNext_ended_some htask]
    exact IndexMap.get_remove index j state.verificationTasks

theorem get_run_ended (state : Verification) (indices : List ℕ) (j : ℕ) :
    (state.run (indices.map (.ended · true))).verificationTasks.get j =
      if j ∈ indices then none else state.verificationTasks.get j := by
  induction indices generalizing state with
  | nil => rfl
  | cons index indices ih =>
    show ((state.joinNext (.ended index true)).run _).verificationTasks.get j = _
    rw [ih, get_joinNext_ended]
    by_cases hmem : j ∈ indices
    · rw [if_pos hmem, if_pos (List.mem_cons_of_mem _ hmem)]
    · rw [if_neg hmem]
      by_cases hj : j = index
      · rw [if_pos hj, if_pos (List.mem_cons.mpr (Or.inl hj))]
      · rw [if_neg hj, if_neg fun h => (List.mem_cons.mp h).elim hj hmem]

/-- The item of a task that is the last to end is in the result, if there is a quorum for a commit at its
height. -/
theorem exists_run_last (h : Kept client next metadata state) {index : ℕ} {item : SubmittedMetadata}
    (htask : state.verificationTasks.get index = some item) {signedHeader : SignedHeader}
    (hcommit : QuorumCommit client item.header.height signedHeader) :
    ∃ progress, (state.run progress).Joined ∧
      (state.run progress).verifiedHeaderBlobs.get item.blockHash = some item := by
  let others := state.verificationTasks.keys.filter (· ≠ index)
  let before := state.run (others.map (.ended · true))
  have hbefore : before.verificationTasks.get index = some item := by
    have hnot : index ∉ others := fun hmem => by simp [others] at hmem
    rw [← htask, get_run_ended, if_neg hnot]
  have hkept : Kept client next metadata before := h.run _
  refine ⟨others.map (.ended · true) ++ [.ended index true], ?_, ?_⟩
  · intro j
    unfold run
    rw [List.foldl_append]
    show (before.joinNext (.ended index true)).verificationTasks.get j = none
    rw [get_joinNext_ended]
    split_ifs with hj
    · rfl
    · rw [get_run_ended]
      split_ifs with hmem
      · rfl
      · by_contra hsome
        obtain ⟨item', hitem'⟩ := Option.ne_none_iff_exists'.mp hsome
        refine hmem (List.mem_filter.mpr ⟨?_, by simpa using hj⟩)
        exact List.mem_map_of_mem (IndexMap.get_eq_some.mp hitem')
  · unfold run
    rw [List.foldl_append]
    show (before.joinNext (.ended index true)).verifiedHeaderBlobs.get item.blockHash = some item
    have hverified := (before.verifier.verifyMetadata_spec item true).2.2 rfl signedHeader
      (hkept.verifier ▸ hcommit)
    rw [Verification.joinNext_ended_some hbefore, hverified]
    exact (IndexMap.get_insert _ _ _ _).trans (if_pos rfl)

/-! ### Tasks that all reach CometBFT -/

/-- No task is cancelled, and all of them reach CometBFT if they have to. -/
def Reaches : Progress → Prop
  | .ended _ reached => reached = true
  | .cancelled _ => False
  | .evicted _ => True

/-- The item of a task that is joined has an entry under its block hash. -/
theorem Kept.get_joinNext_reached (h : Kept client next metadata state) {event : Progress}
    (hreaches : Reaches event) {index : ℕ} {item : SubmittedMetadata} {signedHeader : SignedHeader}
    (hcommit : QuorumCommit client item.header.height signedHeader)
    (htask : state.verificationTasks.get index = some item ∨
      (state.verifiedHeaderBlobs.get item.blockHash).isSome) :
    (state.joinNext event).verificationTasks.get index = some item ∨
      ((state.joinNext event).verifiedHeaderBlobs.get item.blockHash).isSome := by
  cases event with
  | cancelled index => exact hreaches.elim
  | evicted height => exact htask
  | ended ended reached =>
    obtain rfl : reached = true := hreaches
    cases hended : state.verificationTasks.get ended with
    | none =>
      rw [joinNext_ended_none hended]
      exact htask
    | some item' =>
      rw [joinNext_ended_some hended]
      dsimp only
      obtain ⟨-, -, hverified⟩ := state.verifier.verifyMetadata_spec item' true
      rw [IndexMap.get_remove]
      rcases htask with htask | hsome
      · by_cases heq : index = ended
        · rw [← heq, htask] at hended
          cases hended
          rw [hverified rfl signedHeader (h.verifier ▸ hcommit)]
          refine Or.inr ?_
          rw [IndexMap.get_insert, if_pos rfl]
          rfl
        · rw [if_neg heq]
          exact Or.inl htask
      · refine Or.inr ?_
        cases (state.verifier.verifyMetadata item' true).1 with
        | none => exact hsome
        | some blob =>
          dsimp only
          rw [IndexMap.get_insert]
          split_ifs
          · rfl
          · exact hsome

theorem Kept.get_run_reached (h : Kept client next metadata state) {progress : List Progress}
    (hreaches : ∀ event ∈ progress, Reaches event) {index : ℕ} {item : SubmittedMetadata}
    {signedHeader : SignedHeader} (hcommit : QuorumCommit client item.header.height signedHeader)
    (htask : state.verificationTasks.get index = some item ∨
      (state.verifiedHeaderBlobs.get item.blockHash).isSome) :
    (state.run progress).verificationTasks.get index = some item ∨
      ((state.run progress).verifiedHeaderBlobs.get item.blockHash).isSome := by
  induction progress generalizing state with
  | nil => exact htask
  | cons event progress ih =>
    obtain ⟨hevent, hrest⟩ := List.forall_mem_cons.mp hreaches
    exact ih (h.joinNext event) hrest (h.get_joinNext_reached hevent hcommit htask)

end Verification

/-- If all tasks reach CometBFT and find a quorum, the result has the items that are not below the next
expected height, under their block hashes. -/
theorem get_verifyMetadata {verifier : BlobVerifier} {convertedBlobs : ConvertedBlobs} {next : ℕ}
    {progress : List Progress} (hreaches : ∀ event ∈ progress, Verification.Reaches event)
    (hjoined : ((Verification.start verifier convertedBlobs.metadata next).run progress).Joined)
    (hquorum : ∀ item ∈ convertedBlobs.metadata, ∃ signedHeader,
      QuorumCommit verifier.client item.header.height signedHeader)
    (hidentified : ∀ item ∈ convertedBlobs.metadata, ∀ item' ∈ convertedBlobs.metadata,
      item.blockHash = item'.blockHash → item = item') {hash : BlockHash} {item : SubmittedMetadata} :
    (verifyMetadata verifier convertedBlobs next progress).headerBlobs.get hash = some item ↔
      item ∈ convertedBlobs.metadata ∧ next ≤ item.header.height ∧ item.blockHash = hash := by
  have hstart := Verification.kept_start verifier next convertedBlobs.metadata
  have hkept := hstart.run progress
  constructor
  · intro hget
    obtain ⟨hhash, hmem, hheight, -⟩ := hkept.verified hash item hget
    exact ⟨hmem, hheight, hhash⟩
  · rintro ⟨hmem, hheight, rfl⟩
    obtain ⟨index, hindex⟩ := List.mem_iff_getElem?.mp hmem
    obtain ⟨signedHeader, hcommit⟩ := hquorum item hmem
    rcases hstart.get_run_reached hreaches hcommit
      (Or.inl (get_spawnTasks.mpr ⟨hindex, hheight⟩)) with htask | hsome
    · rw [hjoined index] at htask
      cases htask
    · obtain ⟨item', hget⟩ := Option.isSome_iff_exists.mp hsome
      obtain ⟨hhash, hmem', -⟩ := hkept.verified item.blockHash item' hget
      rw [hidentified item' hmem' item hmem hhash] at hget
      exact hget

/-! ## Authenticity -/

/-- An item of the result is not below the next expected height, and has the chain id and the block hash
of the commit with a quorum at its height. -/
def Authentic (client : CometBft) (next : ℕ) (item : SubmittedMetadata) : Prop :=
  next ≤ item.header.height ∧ ∃ signedHeader,
    QuorumCommit client item.header.height signedHeader ∧ Matches signedHeader item

/-- Whatever the order in which the tasks end, all items of the result are authentic, exactly if every
item that has a commit with a quorum at its height, and is not below the next expected one, has the chain
id and the block hash of that commit. -/
theorem verifyMetadata_authentic_iff (verifier : BlobVerifier) (convertedBlobs : ConvertedBlobs)
    (next : ℕ) :
    (∀ progress, ((Verification.start verifier convertedBlobs.metadata next).run progress).Joined →
      ∀ hash item,
        (verifyMetadata verifier convertedBlobs next progress).headerBlobs.get hash = some item →
          item.blockHash = hash ∧ Authentic verifier.client next item) ↔
      ∀ item ∈ convertedBlobs.metadata, next ≤ item.header.height → ∀ signedHeader,
        QuorumCommit verifier.client item.header.height signedHeader → Matches signedHeader item := by
  have hkept := Verification.kept_start verifier next convertedBlobs.metadata
  constructor
  · intro h item hmem hheight signedHeader hcommit
    obtain ⟨index, hindex⟩ := List.mem_iff_getElem?.mp hmem
    obtain ⟨progress, hjoined, hget⟩ := Verification.exists_run_last hkept
      (get_spawnTasks.mpr ⟨hindex, hheight⟩) hcommit
    obtain ⟨-, -, signedHeader', hcommit', hmatches⟩ := h progress hjoined _ _ hget
    obtain rfl : signedHeader' = signedHeader :=
      Option.some.inj (hcommit'.commit.symm.trans hcommit.commit)
    exact hmatches
  · intro h progress _ hash item hget
    obtain ⟨hhash, hmem, hheight, signedHeader, hcommit⟩ :=
      (hkept.run progress).verified hash item hget
    exact ⟨hhash, hheight, signedHeader, hcommit, h item hmem hheight signedHeader hcommit⟩

end

/-! ## Metadata under another block hash -/

section

open TestUtils
open scoped Sequencer.TestUtils

/-- A block that one validator has signed. -/
def TestUtils.signedHeader : SignedHeader :=
  { header :=
      { chainId := "test"
        height := 2
        time := 1
        dataHash := some (List.Vector.replicate 32 2)
        proposerAddress := (validator 1 1).address }
    commit :=
      { commitOf [validator 1 1] with
        blockId :=
          { hash := some (List.Vector.replicate 32 1)
            partSetHeader := { total := 0, hash := none } } } }

/-- A node that has the block, and the validators of the height before. -/
def TestUtils.cometBft : CometBft :=
  { commit := fun height => if height = 2 then some signedHeader else none
    validators := fun height =>
      if height = 1 then some { blockHeight := 1, validators := [validator 1 1] } else none }

theorem quorumCommit_signedHeader : QuorumCommit cometBft 2 signedHeader :=
  ⟨by decide, rfl, _, rfl, by decide +kernel⟩

/-- Metadata that is well formed, for the height of the block but under another hash. -/
def TestUtils.forgedMetadata : SubmittedMetadata :=
  .assembled (List.Vector.replicate 32 7) "test" 2 1 [] (List.Vector.replicate 32 0)

theorem forgedMetadata_kept :
    ¬∀ progress, ((Verification.start (.new cometBft) [forgedMetadata] 2).run progress).Joined →
      ∀ hash item,
        (verifyMetadata (.new cometBft)
          { celestiaHeight := 1, metadata := [forgedMetadata], rollupData := [] } 2
            progress).headerBlobs.get hash = some item →
          item.blockHash = hash ∧ Authentic cometBft 2 item := by
  intro h
  have hkept := Verification.kept_start (.new cometBft) 2 [forgedMetadata]
  obtain ⟨progress, hjoined, hget⟩ := Verification.exists_run_last hkept
    (get_spawnTasks.mpr ⟨(rfl : [forgedMetadata][0]? = _), le_rfl⟩) quorumCommit_signedHeader
  obtain ⟨-, -, signedHeader', hcommit, hmatches⟩ := h progress hjoined _ _ hget
  obtain rfl : signedHeader = signedHeader' :=
    Option.some.inj (quorumCommit_signedHeader.commit.symm.trans hcommit.commit)
  exact absurd (Option.some.inj hmatches.blockHash) (by decide)

end

end Astria.Conductor
