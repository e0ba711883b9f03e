import Astria.Core.Primitive
import Astria.Lib.Sha256
import Astria.Lib.Tally

/-!
# The quorum of a commit

Conductor's light client check (`celestia/block_verifier.rs`): the votes of a commit for its own block
are tallied against the validator set of the height before.

The tally adds a vote for every entry of the commit, so a validator whose vote comes twice counts twice,
and the threshold rounds a third of the total down, so that a total of `3 k + 2` is met by `2 k + 1`.

Results:
* `ensureCommitHasQuorum_eq_ok`: what the check accepts;
* `quorum_eq_true`: the threshold that it compares with;
* `quorumCorrect_iff`: it accepts exactly the commits with more than two thirds of the power, unless
  votes repeat or the threshold is rounded down below what the signers hold.
-/

namespace Astria.Conductor

open Astria.Core Astria.Lib

/-! ## Commits -/

/-- `tendermint::account::Id`. -/
abbrev AccountId := AddressBytes

/-- The bytes of a `tendermint::PublicKey`. -/
abbrev PublicKey := Bytes

/-- `tendermint::Time`, in nanoseconds. -/
abbrev Time := ℕ

structure PartSetHeader where
  total : ℕ
  hash : Option Bytes32
  deriving DecidableEq

/-- `tendermint::block::Id`. -/
structure BlockId where
  hash : Option Bytes32
  partSetHeader : PartSetHeader
  deriving DecidableEq

/-- The fields of a vote of a commit. -/
structure Vote where
  validatorAddress : AccountId
  timestamp : Time
  signature : Option Bytes
  deriving DecidableEq

/-- `tendermint::block::CommitSig`. -/
inductive CommitSig where
  | blockIdFlagAbsent
  | blockIdFlagCommit (vote : Vote)
  | blockIdFlagNil (vote : Vote)
  deriving DecidableEq

/-- `tendermint::block::Commit`. -/
structure Commit where
  height : ℕ
  round : ℕ
  blockId : BlockId
  signatures : List CommitSig
  deriving DecidableEq

/-- The fields of `tendermint::validator::Info` that the check reads. -/
structure Validator where
  pubKey : PublicKey
  power : ℕ
  deriving DecidableEq

/-- `tendermint_rpc::endpoint::validators::Response`. -/
structure ValidatorsResponse where
  blockHeight : ℕ
  validators : List Validator
  deriving DecidableEq

/-- `tendermint::vote::CanonicalVote` of a precommit. -/
structure CanonicalVote where
  height : ℕ
  round : ℕ
  blockId : BlockId
  timestamp : Time
  chainId : String
  deriving DecidableEq

/-- `QuorumError`, without the sources of the errors of the signature scheme. -/
inductive QuorumError where
  | commitHeightMismatch (expectedHeight actualHeight : ℕ)
  | commitVotingPowerExceedsTotal (commitVotingPower totalVotingPower : ℕ)
  | emptySignature (validator : AccountId)
  | noQuorum (commitVotingPower totalVotingPower : ℕ)
  | noSuchValidator (validator : AccountId)
  | signature
  | totalVotingPowerOverflowed
  | validatorAddressMismatch (expected actual : AccountId)
  | verificationKey
  | verifyVoteSignature
  deriving DecidableEq

/-- The signature scheme and the addresses of its keys. -/
class CommitCrypto where
  /-- `account::Id::from` a public key. -/
  accountId : PublicKey → AccountId
  /-- `VerificationKey::try_from` succeeds. -/
  isVerificationKey : PublicKey → Bool
  /-- `VerificationKey::verify` over the length-delimited encoding of a vote. -/
  verify : PublicKey → Bytes → CanonicalVote → Bool

/-! ## The check -/

section

variable [crypto : CommitCrypto]

/-- The address that a validator of a response is known under. -/
def Validator.address (v : Validator) : AccountId := crypto.accountId v.pubKey

/-- The validator under an address, in the map collected from a response. -/
def ValidatorsResponse.get (set : ValidatorsResponse) (address : AccountId) : Option Validator :=
  Tally.lookup Validator.address set.validators address

/-- The sum of the powers, as `try_fold` of `checked_add`. -/
def totalVotingPower : List Validator → ℕ → Option ℕ
  | [], acc => some acc
  | v :: vs, acc => (checkedAdd u64Max acc v.power).bind (totalVotingPower vs)

/-- `verify_vote_signature` (lines 188–222). -/
def verifyVoteSignature (timestamp : Time) (commit : Commit) (chainId : String)
    (publicKey : PublicKey) (signature : Bytes) : Except QuorumError Unit :=
  if crypto.isVerificationKey publicKey = false then .error .verificationKey
  else if signature.length ≠ 64 then .error .signature
  else if crypto.verify publicKey signature
      { height := commit.height
        round := commit.round
        blockId := commit.blockId
        timestamp := timestamp
        chainId := chainId } = false then .error .verifyVoteSignature
  else .ok ()

/-- What the loop checks of one vote for the block: the power of its validator. -/
def checkVote (commit : Commit) (set : ValidatorsResponse) (chainId : String) (vote : Vote) :
    Except QuorumError ℕ :=
  match vote.signature with
  | none => .error (.emptySignature vote.validatorAddress)
  | some signature =>
    match set.get vote.validatorAddress with
    | none => .error (.noSuchValidator vote.validatorAddress)
    | some validator =>
      if validator.address ≠ vote.validatorAddress then
        .error (.validatorAddressMismatch vote.validatorAddress validator.address)
      else
        match verifyVoteSignature vote.timestamp commit chainId validator.pubKey signature with
        | .error e => .error e
        | .ok _ => .ok validator.power

/-- The loop over the signatures of a commit: absent validators and votes for nil are passed over. -/
def tallyVotes (commit : Commit) (set : ValidatorsResponse) (chainId : String) :
    List CommitSig → ℕ → Except QuorumError ℕ
  | [], acc => .ok acc
  | .blockIdFlagCommit vote :: rest, acc =>
    match checkVote commit set chainId vote with
    | .error e => .error e
    | .ok power => tallyVotes commit set chainId rest (saturatingAdd u64Max acc power)
  | _ :: rest, acc => tallyVotes commit set chainId rest acc

/-- `does_commit_voting_power_have_quorum` (lines 180–186). -/
def doesCommitVotingPowerHaveQuorum (committed total : ℕ) : Bool :=
  if total < 3 then saturatingMul u64Max committed 3 > saturatingMul u64Max total 2
  else committed > saturatingMul u64Max (total / 3) 2

/-- `ensure_commit_has_quorum` (lines 73–178).  Heights have 63 bits; the increment panics on the
largest one, for which there is no commit at the next height. -/
def ensureCommitHasQuorum (commit : Commit) (set : ValidatorsResponse) (chainId : String) :
    Except QuorumError Unit :=
  if set.blockHeight + 1 ≠ commit.height then
    .error (.commitHeightMismatch (set.blockHeight + 1) commit.height)
  else
    match totalVotingPower set.validators 0 with
    | none => .error .totalVotingPowerOverflowed
    | some total =>
      match tallyVotes commit set chainId commit.signatures 0 with
      | .error e => .error e
      | .ok committed =>
        if total < committed then .error (.commitVotingPowerExceedsTotal committed total)
        else if doesCommitVotingPowerHaveQuorum committed total = false then
          .error (.noQuorum committed total)
        else .ok ()

/-! ## What it accepts -/

/-- The vote for the block, if a signature is one. -/
def CommitSig.blockVote : CommitSig → Option Vote
  | .blockIdFlagCommit vote => some vote
  | _ => none

/-- The votes of a commit for its own block. -/
def Commit.blockVotes (commit : Commit) : List Vote :=
  commit.signatures.filterMap CommitSig.blockVote

/-- The addresses of the validators that voted for the block, as often as they did. -/
def Commit.voters (commit : Commit) : List AccountId :=
  commit.blockVotes.map Vote.validatorAddress

/-- The total voting power of a validator set. -/
def ValidatorsResponse.totalPower (set : ValidatorsResponse) : ℕ :=
  Tally.total Validator.power set.validators

/-- The voting power of a list of addresses. -/
def ValidatorsResponse.powerOf (set : ValidatorsResponse) (addresses : List AccountId) : ℕ :=
  Tally.tally Validator.address Validator.power set.validators addresses

/-- A vote for the block that a member of the set has signed. -/
def ValidVote (commit : Commit) (set : ValidatorsResponse) (chainId : String) (vote : Vote) : Prop :=
  ∃ signature validator, vote.signature = some signature ∧
    set.get vote.validatorAddress = some validator ∧
    verifyVoteSignature vote.timestamp commit chainId validator.pubKey signature = .ok ()

omit crypto in
theorem totalVotingPower_eq_some {vs : List Validator} {acc total : ℕ} (hacc : acc ≤ u64Max) :
    totalVotingPower vs acc = some total ↔
      total = acc + Tally.total Validator.power vs ∧ total ≤ u64Max := by
  induction vs generalizing acc with
  | nil =>
    rw [totalVotingPower, Option.some.injEq, Tally.total, List.map_nil, List.sum_nil]
    omega
  | cons v vs ih =>
    rw [totalVotingPower, Option.bind_eq_some_iff, Tally.total, List.map_cons, List.sum_cons]
    have htotal : Tally.total Validator.power vs = (vs.map Validator.power).sum := rfl
    constructor
    · rintro ⟨next, hnext, hrest⟩
      obtain ⟨rfl, hle⟩ := checkedAdd_eq_some.mp hnext
      obtain ⟨heq, hmax⟩ := (ih hle).mp hrest
      omega
    · rintro ⟨heq, hmax⟩
      have hle : acc + v.power ≤ u64Max := by omega
      refine ⟨acc + v.power, checkedAdd_eq_some.mpr ⟨rfl, hle⟩, (ih hle).mpr ?_⟩
      omega

theorem checkVote_eq_ok {commit : Commit} {set : ValidatorsResponse} {chainId : String}
    {vote : Vote} {power : ℕ} :
    checkVote commit set chainId vote = .ok power ↔
      ValidVote commit set chainId vote ∧
        power = Tally.weightAt Validator.address Validator.power set.validators
          vote.validatorAddress := by
  unfold checkVote ValidVote
  cases hsig : vote.signature with
  | none => simp
  | some signature =>
    cases hget : set.get vote.validatorAddress with
    | none => simp
    | some validator =>
      have haddress : validator.address = vote.validatorAddress :=
        (Tally.key_of_lookup Validator.address hget).1
      have hweight : Tally.weightAt Validator.address Validator.power set.validators
          vote.validatorAddress = validator.power := by
        unfold Tally.weightAt
        rw [show Tally.lookup Validator.address set.validators vote.validatorAddress = some validator
          from hget]
        rfl
      rw [hweight]
      simp only [haddress, ne_eq, not_true_eq_false, if_false, Option.some.injEq, exists_eq_left',
        exists_and_left]
      cases verifyVoteSignature vote.timestamp commit chainId validator.pubKey signature with
      | error e => simp
      | ok u => simp [eq_comm]

omit crypto in
theorem saturatingAdd_saturating {max a b : ℕ} :
    saturatingAdd max (min a max) b = min (a + b) max := by
  unfold saturatingAdd
  omega

/-- The loop adds up the power of all votes, each of which is valid. -/
theorem tallyVotes_eq_ok {commit : Commit} {set : ValidatorsResponse} {chainId : String}
    {sigs : List CommitSig} {acc committed : ℕ} :
    tallyVotes commit set chainId sigs (min acc u64Max) = .ok committed ↔
      (∀ vote ∈ sigs.filterMap CommitSig.blockVote, ValidVote commit set chainId vote) ∧
        committed = min (acc + set.powerOf
          ((sigs.filterMap CommitSig.blockVote).map Vote.validatorAddress)) u64Max := by
  induction sigs generalizing acc with
  | nil => simp [tallyVotes, ValidatorsResponse.powerOf, Tally.tally, eq_comm]
  | cons sig sigs ih =>
    cases sig with
    | blockIdFlagAbsent => exact ih
    | blockIdFlagNil vote => exact ih
    | blockIdFlagCommit vote =>
      have hcons : (CommitSig.blockIdFlagCommit vote :: sigs).filterMap CommitSig.blockVote =
          vote :: sigs.filterMap CommitSig.blockVote := rfl
      rw [tallyVotes, hcons, List.forall_mem_cons]
      cases hvote : checkVote commit set chainId vote with
      | error e =>
        have hinvalid : ¬ValidVote commit set chainId vote := by
          intro hvalid
          rw [checkVote_eq_ok.mpr ⟨hvalid, rfl⟩] at hvote
          cases hvote
        simp [hinvalid]
      | ok power =>
        obtain ⟨hvalid, rfl⟩ := checkVote_eq_ok.mp hvote
        simp only
        rw [saturatingAdd_saturating, ih]
        simp [hvalid, ValidatorsResponse.powerOf, Tally.tally, Nat.add_assoc]

omit crypto in
theorem quorum_eq_true {committed total : ℕ} (hle : committed ≤ total) (hmax : total ≤ u64Max) :
    doesCommitVotingPowerHaveQuorum committed total = true ↔
      (total < 3 ∧ 2 * total < 3 * committed) ∨ (3 ≤ total ∧ 2 * (total / 3) < committed) := by
  have hu64 : u64Max = 18446744073709551615 := by decide
  unfold doesCommitVotingPowerHaveQuorum saturatingMul
  rw [hu64] at hmax ⊢
  split_ifs with h
  · rw [decide_eq_true_eq]
    omega
  · rw [decide_eq_true_eq]
    omega

/-- The check accepts a commit at the next height all of whose votes for the block are valid, if
their power, counted vote by vote, is at most the total and above the threshold. -/
theorem ensureCommitHasQuorum_eq_ok {commit : Commit} {set : ValidatorsResponse}
    {chainId : String} :
    ensureCommitHasQuorum commit set chainId = .ok () ↔
      commit.height = set.blockHeight + 1 ∧ set.totalPower ≤ u64Max ∧
      (∀ vote ∈ commit.blockVotes, ValidVote commit set chainId vote) ∧
      min (set.powerOf commit.voters) u64Max ≤ set.totalPower ∧
      doesCommitVotingPowerHaveQuorum (min (set.powerOf commit.voters) u64Max)
        set.totalPower = true := by
  have htally (committed : ℕ) : tallyVotes commit set chainId commit.signatures 0 = .ok committed ↔
      (∀ vote ∈ commit.blockVotes, ValidVote commit set chainId vote) ∧
        committed = min (set.powerOf commit.voters) u64Max := by
    have hstart : tallyVotes commit set chainId commit.signatures (min 0 u64Max) = .ok committed ↔ _ :=
      tallyVotes_eq_ok
    rwa [Nat.zero_min, Nat.zero_add] at hstart
  unfold ensureCommitHasQuorum
  by_cases hheight : set.blockHeight + 1 = commit.height
  · rw [if_neg (not_not.mpr hheight)]
    cases htotal : totalVotingPower set.validators 0 with
    | none =>
      have hmax : ¬set.totalPower ≤ u64Max := by
        intro hmax
        rw [(totalVotingPower_eq_some (Nat.zero_le u64Max)).mpr ⟨rfl, Nat.zero_add _ ▸ hmax⟩] at htotal
        cases htotal
      simp [hmax]
    | some total =>
      obtain ⟨hsum, hmax⟩ := (totalVotingPower_eq_some (Nat.zero_le u64Max)).mp htotal
      obtain rfl : total = set.totalPower := hsum.trans (Nat.zero_add _)
      cases hvotes : tallyVotes commit set chainId commit.signatures 0 with
      | error e =>
        have hinvalid : ¬∀ vote ∈ commit.blockVotes, ValidVote commit set chainId vote := by
          intro hvalid
          rw [(htally _).mpr ⟨hvalid, rfl⟩] at hvotes
          cases hvotes
        simp [hinvalid]
      | ok committed =>
        obtain ⟨hvalid, rfl⟩ := (htally committed).mp hvotes
        simp only
        split_ifs with hexceeds hquorum
        · simp [Nat.not_le.mpr hexceeds]
        · simp [hquorum]
        · rw [Bool.not_eq_false] at hquorum
          exact iff_of_true rfl ⟨hheight.symm, hmax, hvalid, Nat.not_lt.mp hexceeds, hquorum⟩
  · rw [if_pos hheight]
    have hne : commit.height ≠ set.blockHeight + 1 := fun h => hheight h.symm
    simp [hne]

/-! ## Who has signed -/

/-- A member of the set has signed a vote for the block. -/
def SignedBy (commit : Commit) (set : ValidatorsResponse) (chainId : String) (v : Validator) : Prop :=
  set.get v.address = some v ∧ ∃ vote ∈ commit.blockVotes, vote.validatorAddress = v.address ∧
    ∃ signature, vote.signature = some signature ∧
      verifyVoteSignature vote.timestamp commit chainId v.pubKey signature = .ok ()

/-- Distinct members that have signed the block hold more than two thirds of the total power. -/
def HasSupermajority (commit : Commit) (set : ValidatorsResponse) (chainId : String) : Prop :=
  ∃ signers : List Validator, (signers.map Validator.address).Nodup ∧
    (∀ v ∈ signers, SignedBy commit set chainId v) ∧
    2 * set.totalPower < 3 * Tally.total Validator.power signers

theorem weightAt_of_get {set : ValidatorsResponse} {a : AccountId} {v : Validator}
    (h : set.get a = some v) :
    Tally.weightAt Validator.address Validator.power set.validators a = v.power := by
  unfold ValidatorsResponse.get at h
  unfold Tally.weightAt
  rw [h]
  rfl

/-- Members weigh what their addresses weigh. -/
theorem total_of_members {set : ValidatorsResponse} {vs : List Validator}
    (h : ∀ v ∈ vs, set.get v.address = some v) :
    Tally.total Validator.power vs = set.powerOf (vs.map Validator.address) := by
  induction vs with
  | nil => rfl
  | cons v vs ih =>
    have hv := weightAt_of_get (h v List.mem_cons_self)
    have hvs := ih fun w hw => h w (List.mem_cons_of_mem v hw)
    unfold ValidatorsResponse.powerOf Tally.tally Tally.total at hvs ⊢
    rw [List.map_cons, List.sum_cons, List.map_cons, List.map_cons, List.sum_cons, hv, hvs]

/-- The members under a list of addresses. -/
theorem map_address_filterMap {set : ValidatorsResponse} {as : List AccountId}
    (h : ∀ a ∈ as, ∃ v, set.get a = some v) :
    (as.filterMap set.get).map Validator.address = as := by
  induction as with
  | nil => rfl
  | cons a as ih =>
    obtain ⟨v, hv⟩ := h a List.mem_cons_self
    have haddress : v.address = a := (Tally.key_of_lookup Validator.address hv).1
    rw [List.filterMap_cons_some hv, List.map_cons, haddress,
      ih fun b hb => h b (List.mem_cons_of_mem a hb)]

/-- If every vote is valid, the signers hold what the addresses of the votes weigh, each taken
once. -/
theorem hasSupermajority_iff {commit : Commit} {set : ValidatorsResponse} {chainId : String}
    (hvalid : ∀ vote ∈ commit.blockVotes, ValidVote commit set chainId vote) :
    HasSupermajority commit set chainId ↔
      2 * set.totalPower < 3 * set.powerOf commit.voters.dedup := by
  have hmember : ∀ a ∈ commit.voters.dedup, ∃ v, set.get a = some v := by
    intro a ha
    obtain ⟨vote, hvote, rfl⟩ := List.mem_map.mp (List.mem_dedup.mp ha)
    obtain ⟨-, v, -, hget, -⟩ := hvalid vote hvote
    exact ⟨v, hget⟩
  constructor
  · rintro ⟨signers, hnodup, hsigned, hpower⟩
    rw [total_of_members fun v hv => (hsigned v hv).1] at hpower
    have hsub : signers.map Validator.address ⊆ commit.voters.dedup := by
      intro a ha
      obtain ⟨v, hv, rfl⟩ := List.mem_map.mp ha
      obtain ⟨-, vote, hvote, haddress, -⟩ := hsigned v hv
      rw [List.mem_dedup, ← haddress]
      exact List.mem_map_of_mem hvote
    have hle := Tally.tally_le_of_subset Validator.address Validator.power set.validators hnodup hsub
    unfold ValidatorsResponse.powerOf at hpower ⊢
    omega
  · intro hpower
    have hmap := map_address_filterMap hmember
    have hget : ∀ v ∈ commit.voters.dedup.filterMap set.get, set.get v.address = some v := by
      intro v hv
      obtain ⟨a, -, ha⟩ := List.mem_filterMap.mp hv
      rw [(Tally.key_of_lookup Validator.address ha).1]
      exact ha
    refine ⟨commit.voters.dedup.filterMap set.get, hmap.symm ▸ List.nodup_dedup _, ?_, ?_⟩
    · intro v hv
      obtain ⟨a, ha, hav⟩ := List.mem_filterMap.mp hv
      obtain ⟨vote, hvote, rfl⟩ := List.mem_map.mp (List.mem_dedup.mp ha)
      obtain ⟨signature, w, hsignature, hw, hverify⟩ := hvalid vote hvote
      obtain rfl : v = w := Option.some.inj (hav.symm.trans hw)
      have haddress : v.address = vote.validatorAddress :=
        (Tally.key_of_lookup Validator.address hav).1
      exact ⟨hget v hv, vote, hvote, haddress.symm, signature, hsignature, hverify⟩
    · rw [total_of_members hget, hmap]
      exact hpower

/-! ## Correctness -/

/-- The check accepts a commit only for a supermajority of signers, and does accept every commit at
the next height whose votes for the block are valid, come once, and carry a supermajority. -/
structure QuorumCorrect (commit : Commit) (set : ValidatorsResponse) (chainId : String) : Prop where
  sound : ensureCommitHasQuorum commit set chainId = .ok () →
    commit.height = set.blockHeight + 1 ∧ HasSupermajority commit set chainId
  complete : commit.height = set.blockHeight + 1 → commit.voters.Nodup →
    (∀ vote ∈ commit.blockVotes, ValidVote commit set chainId vote) →
    2 * set.totalPower < 3 * set.powerOf commit.voters →
    ensureCommitHasQuorum commit set chainId = .ok ()

/-- The total power leaves two over when it is divided by three, and the votes are just above the
threshold, which has lost those two. -/
def RoundedDown (total committed : ℕ) : Prop :=
  3 ≤ total ∧ total % 3 = 2 ∧ committed = 2 * (total / 3) + 1

/-- The power is above the threshold of the check, twice the third of the total, rounded down. -/
def AboveThreshold (total committed : ℕ) : Prop :=
  if total < 3 then 2 * total < 3 * committed else 2 * (total / 3) < committed

/-- The votes of a commit are counted right.  If none repeats, the total power fits in 64 bits, or the
signers hold no supermajority, and the threshold is not met by rounding.  If some do, their power with
repeats is too large or below the threshold, or the signers hold a supermajority. -/
def CountedRight (commit : Commit) (set : ValidatorsResponse) : Prop :=
  if commit.voters.Nodup then
    if set.totalPower ≤ u64Max then ¬RoundedDown set.totalPower (set.powerOf commit.voters)
    else 3 * set.powerOf commit.voters ≤ 2 * set.totalPower
  else
    set.totalPower ≤ u64Max → min (set.powerOf commit.voters) u64Max ≤ set.totalPower →
      AboveThreshold set.totalPower (min (set.powerOf commit.voters) u64Max) →
      2 * set.totalPower < 3 * set.powerOf commit.voters.dedup

omit crypto in
theorem quorum_iff_aboveThreshold {committed total : ℕ} (hle : committed ≤ total) (hmax : total ≤ u64Max) :
    doesCommitVotingPowerHaveQuorum committed total = true ↔ AboveThreshold total committed := by
  rw [quorum_eq_true hle hmax]
  unfold AboveThreshold
  split_ifs with hsmall
  · omega
  · omega

/-- The check is correct on a commit exactly if it is for another height, has an invalid vote, or has
its votes counted right. -/
theorem quorumCorrect_iff (commit : Commit) (set : ValidatorsResponse) (chainId : String) :
    QuorumCorrect commit set chainId ↔
      (commit.height = set.blockHeight + 1 →
        (∀ vote ∈ commit.blockVotes, ValidVote commit set chainId vote) →
        CountedRight commit set) := by
  have hle (hnodup : commit.voters.Nodup) : set.powerOf commit.voters ≤ set.totalPower :=
    Tally.tally_le_total Validator.address Validator.power set.validators hnodup
  constructor
  · rintro ⟨hsound, hcomplete⟩ hheight hvalid
    unfold CountedRight
    by_cases hnodup : commit.voters.Nodup
    · rw [if_pos hnodup]
      have hle := hle hnodup
      by_cases hmax : set.totalPower ≤ u64Max
      · rw [if_pos hmax]
        rintro ⟨hthree, hmod, hcommitted⟩
        have hmin : min (set.powerOf commit.voters) u64Max = set.powerOf commit.voters := by omega
        have hok : ensureCommitHasQuorum commit set chainId = .ok () := by
          rw [ensureCommitHasQuorum_eq_ok, hmin]
          refine ⟨hheight, hmax, hvalid, hle, (quorum_eq_true hle hmax).mpr (Or.inr ?_)⟩
          omega
        have hpower := (hasSupermajority_iff hvalid).mp (hsound hok).2
        rw [List.dedup_eq_self.mpr hnodup] at hpower
        omega
      · rw [if_neg hmax]
        by_contra hpower
        have hok := hcomplete hheight hnodup hvalid (by omega)
        exact hmax (ensureCommitHasQuorum_eq_ok.mp hok).2.1
    · rw [if_neg hnodup]
      intro hmax hmin habove
      have hquorum := (quorum_iff_aboveThreshold hmin hmax).mpr habove
      have hok := ensureCommitHasQuorum_eq_ok.mpr ⟨hheight, hmax, hvalid, hmin, hquorum⟩
      exact (hasSupermajority_iff hvalid).mp (hsound hok).2
  · intro hright
    refine ⟨fun hok => ?_, fun hheight hnodup hvalid hpower => ?_⟩
    · obtain ⟨hheight, hmax, hvalid, hmin, hquorum⟩ := ensureCommitHasQuorum_eq_ok.mp hok
      refine ⟨hheight, (hasSupermajority_iff hvalid).mpr ?_⟩
      have hright := hright hheight hvalid
      unfold CountedRight at hright
      by_cases hnodup : commit.voters.Nodup
      · rw [if_pos hnodup, if_pos hmax] at hright
        rw [List.dedup_eq_self.mpr hnodup]
        have hle := hle hnodup
        rw [quorum_eq_true hmin hmax] at hquorum
        unfold RoundedDown at hright
        omega
      · rw [if_neg hnodup] at hright
        exact hright hmax hmin ((quorum_iff_aboveThreshold hmin hmax).mp hquorum)
    · have hright := hright hheight hvalid
      unfold CountedRight at hright
      rw [if_pos hnodup] at hright
      have hle := hle hnodup
      by_cases hmax : set.totalPower ≤ u64Max
      · have hmin : min (set.powerOf commit.voters) u64Max = set.powerOf commit.voters := by omega
        rw [ensureCommitHasQuorum_eq_ok, hmin]
        refine ⟨hheight, hmax, hvalid, hle, (quorum_eq_true hle hmax).mpr ?_⟩
        omega
      · rw [if_neg hmax] at hright
        omega

end

/-! ## Two commits -/

namespace TestUtils

/-- The addresses of ed25519 keys; the signatures of the two commits are those of their validators. -/
scoped instance : CommitCrypto where
  accountId key := ⟨(Sha256.digest key).take 20, by simp [Sha256.length_digest]⟩
  isVerificationKey key := key.length = 32
  verify _ _ _ := true

/-- A validator of a given power with a key of its own. -/
def validator (n power : ℕ) : Validator :=
  { pubKey := List.replicate 32 (UInt8.ofNat n), power := power }

/-- A commit that the listed validators have signed. -/
def commitOf (signers : List Validator) : Commit :=
  { height := 2
    round := 0
    blockId := { hash := none, partSetHeader := { total := 0, hash := none } }
    signatures := signers.map fun v => .blockIdFlagCommit
      { validatorAddress := v.address, timestamp := 0, signature := some (List.replicate 64 1) } }

end TestUtils

open TestUtils in
set_option maxRecDepth 10000 in
/-- Three fifths of the power are accepted, and so is the vote of one validator in four that comes
three times. -/
theorem quorum_withoutSupermajority :
    ¬QuorumCorrect (commitOf [validator 1 3])
        { blockHeight := 1, validators := [validator 1 3, validator 2 2] } "test" ∧
      ¬QuorumCorrect (commitOf [validator 1 1, validator 1 1, validator 1 1])
        { blockHeight := 1
          validators := [validator 1 1, validator 2 1, validator 3 1, validator 4 1] } "test" := by
  have hfails {commit : Commit} {set : ValidatorsResponse}
      (hok : ensureCommitHasQuorum commit set "test" = .ok ())
      (hpower : ¬2 * set.totalPower < 3 * set.powerOf commit.voters.dedup) :
      ¬QuorumCorrect commit set "test" := by
    intro hcorrect
    have hvalid := (ensureCommitHasQuorum_eq_ok.mp hok).2.2.1
    exact hpower ((hasSupermajority_iff hvalid).mp (hcorrect.sound hok).2)
  exact ⟨hfails (by decide +kernel) (by decide +kernel), hfails (by decide +kernel) (by decide +kernel)⟩

end Astria.Conductor
