import Astria.Sequencer.Block
import Astria.Sequencer.TestUtils
import Astria.Sequencer.VoteExtension

/-!
# Extended commits

What the vote extensions that are accepted stand for, and that the validators accept what the
proposer proposes (`app/vote_extension.rs`, lines 214–584).

The loop of `validate_vote_extensions` makes two kinds of checks: those of each vote on its own, and
the count of the voting power.  `validateVotes_eq_ok` takes them apart.

Results:
* `validateVoteExtensions_hasQuorum`: accepted votes are a signed quorum;
* `pruneVotes_spec`: the pruned votes are verified again with the same ids;
* `CurrencyPairMapping.same_of_perm`, `getIdToCurrencyPair_same`: the order in which a node sees the
  currency pairs makes no difference;
* `preExecuteTransactions_covers`: the proposer, who validates after `pre_execute_transactions`, knows
  no validator that the others do not know;
* `proposal_accepted`: every proposal is accepted.
-/

namespace Astria.Sequencer

open Astria.Core Astria.Lib Exec

/-! ## The count of the voting power -/

/-- The power of a list of votes. -/
def votingPower (votes : List ExtendedVoteInfo) : ℕ := (votes.map fun vote => vote.validator.power).sum

/-- The votes with the commit flag. -/
def commitVotes (votes : List ExtendedVoteInfo) : List ExtendedVoteInfo :=
  votes.filter fun vote => vote.sigInfo = .flag .commit

/-- The addresses of the validators of a list of votes. -/
def voters (votes : List ExtendedVoteInfo) : List AddressBytes :=
  votes.map fun vote => vote.validator.address

local instance lawfulBEqAddressBytes : LawfulBEq AddressBytes := inferInstance

/-- The running values after one more vote, if its validator has not voted yet and nothing
overflows. -/
def VotingPower.count (power : VotingPower) (vote : ExtendedVoteInfo) : Option VotingPower :=
  if vote.validator.address ∈ power.voted then none
  else do
    let total ← checkedAdd u64Max power.total vote.validator.power
    let voted := vote.validator.address :: power.voted
    if vote.sigInfo = .flag .commit then do
      let submitted ← checkedAdd u64Max power.submitted vote.validator.power
      some { total := total, submitted := submitted, voted := voted }
    else
      some { power with total := total, voted := voted }

theorem VotingPower.of_count {power next : VotingPower} {vote : ExtendedVoteInfo}
    (h : power.count vote = some next) :
    vote.validator.address ∉ power.voted ∧ next.total = power.total + vote.validator.power ∧
      next.voted = vote.validator.address :: power.voted ∧
      next.submitted = power.submitted + votingPower (commitVotes [vote]) := by
  unfold count at h
  split_ifs at h with hvoted hcommit
  · obtain ⟨total, htotal, h⟩ := Option.bind_eq_some_iff.mp h
    obtain ⟨submitted, hsubmitted, h⟩ := Option.bind_eq_some_iff.mp h
    obtain ⟨rfl, -⟩ := checkedAdd_eq_some.mp htotal
    obtain ⟨rfl, -⟩ := checkedAdd_eq_some.mp hsubmitted
    obtain rfl := Option.some.inj h
    simp [hvoted, hcommit, commitVotes, votingPower]
  · obtain ⟨total, htotal, h⟩ := Option.bind_eq_some_iff.mp h
    obtain ⟨rfl, -⟩ := checkedAdd_eq_some.mp htotal
    obtain rfl := Option.some.inj h
    simp [hvoted, hcommit, commitVotes, votingPower]

/-- The running values after a whole list of votes. -/
theorem foldlM_count {votes : List ExtendedVoteInfo} {power final : VotingPower}
    (h : votes.foldlM VotingPower.count power = some final) :
    (voters votes).Nodup ∧ (∀ a ∈ voters votes, a ∉ power.voted) ∧
      final.total = power.total + votingPower votes ∧
      final.submitted = power.submitted + votingPower (commitVotes votes) := by
  induction votes generalizing power with
  | nil =>
    obtain rfl := Option.some.inj h
    simp [voters, votingPower, commitVotes]
  | cons vote rest ih =>
    rw [List.foldlM_cons] at h
    obtain ⟨next, hcount, hrest⟩ := Option.bind_eq_some_iff.mp h
    obtain ⟨hnew, htotal, hvoted, hsubmitted⟩ := VotingPower.of_count hcount
    obtain ⟨hnodup, hfresh, hfinal, hcommit⟩ := ih hrest
    rw [hvoted] at hfresh
    have hsplit : votingPower (commitVotes (vote :: rest)) =
        votingPower (commitVotes [vote]) + votingPower (commitVotes rest) := by
      by_cases hc : vote.sigInfo = .flag .commit <;> simp [commitVotes, votingPower, hc]
    have hpower : votingPower (vote :: rest) = vote.validator.power + votingPower rest := by
      simp [votingPower]
    refine ⟨?_, ?_, by omega, by omega⟩
    · have hnot : vote.validator.address ∉ voters rest := fun hmem =>
        hfresh _ hmem List.mem_cons_self
      exact List.nodup_cons.mpr ⟨hnot, hnodup⟩
    · intro a ha
      rcases List.mem_cons.mp ha with rfl | hmem
      · exact hnew
      · exact fun hold => hfresh a hmem (List.mem_cons_of_mem _ hold)

/-! ## Validation -/

section

variable [ext : External] [codec : BlockCodec] [crypto : VoteCrypto]

/-- The checks of a vote on its own. -/
structure VoteAccepted (s : Base) (chainId : String) (height round : ℕ) (vote : ExtendedVoteInfo) :
    Prop where
  address : ∃ address, tryBasePrefixed vote.validator.address s = .ok address s
  signed : vote.sigInfo = .flag .commit → ∃ signature update,
    vote.extensionSignature = some signature ∧ signature.length = 64 ∧
      s.authority.validators vote.validator.address = some update ∧
      crypto.verify update.verificationKey signature
        { ext := vote.voteExtension, height := height - 1, round := round, chainId := chainId } = true
  silent : vote.sigInfo ≠ .flag .commit → vote.voteExtension = [] ∧ vote.extensionSignature = none

omit codec crypto in
theorem tryBasePrefixed_state {address : AddressBytes} {s s' : Base} {a : Address}
    (h : tryBasePrefixed address s = .ok a s') : s' = s := by
  simp only [tryBasePrefixed, bind_eq_ok, mapErr_eq_ok, tryReads_eq_ok, lift_eq_ok] at h
  obtain ⟨_, _, ⟨-, rfl⟩, -, rfl⟩ := h
  rfl

omit codec in
/-- One vote is checked, and counted. -/
theorem validateVote_eq_ok {chainId : String} {height round : ℕ} {vote : ExtendedVoteInfo}
    {power next : VotingPower} {s s' : Base} :
    validateVote chainId height round vote power s = .ok next s' ↔
      s' = s ∧ VoteAccepted s chainId height round vote ∧ power.count vote = some next := by
  simp only [validateVote, bind_eq_ok, mapErr_eq_ok, ensure_eq_ok, require_eq_ok]
  constructor
  · rintro ⟨address, t, haddress, _, _, ⟨hnew, rfl⟩, total, _, ⟨htotal, rfl⟩, h⟩
    obtain rfl := tryBasePrefixed_state haddress
    by_cases hcommit : vote.sigInfo = .flag .commit
    · rw [if_pos hcommit] at h
      simp only [voteSignature, checkVoteSignature, bind_eq_ok, require_eq_ok, ensure_eq_ok,
        pure_eq_ok, reads_eq_ok, mapErr_eq_ok] at h
      obtain ⟨signature, _, ⟨_, _, ⟨hsignature, rfl⟩, _, _, ⟨hlength, rfl⟩, rfl, rfl⟩, submitted, _,
        ⟨hsubmitted, rfl⟩, _, _, ⟨_, _, ⟨rfl, rfl⟩, update, _, ⟨hupdate, rfl⟩, hverify, rfl⟩, rfl,
        rfl⟩ := h
      refine ⟨rfl, ⟨⟨address, haddress⟩, fun _ => ?_, fun hne => absurd hcommit hne⟩, ?_⟩
      · exact ⟨_, update, hsignature, hlength, hupdate, hverify⟩
      · simp [VotingPower.count, hnew, hcommit, htotal, hsubmitted]
    · rw [if_neg hcommit] at h
      simp only [bind_eq_ok, ensure_eq_ok, pure_eq_ok] at h
      obtain ⟨_, _, ⟨hextension, rfl⟩, _, _, ⟨hsignature, rfl⟩, rfl, rfl⟩ := h
      refine ⟨rfl, ⟨⟨address, haddress⟩, fun h => absurd h hcommit, fun _ => ?_⟩, ?_⟩
      · exact ⟨hextension, hsignature⟩
      · simp [VotingPower.count, hnew, hcommit, htotal]
  · rintro ⟨rfl, ⟨⟨address, haddress⟩, hsigned, hsilent⟩, hcount⟩
    unfold VotingPower.count at hcount
    split_ifs at hcount with hnew hcommit
    · obtain ⟨total, htotal, hcount⟩ := Option.bind_eq_some_iff.mp hcount
      obtain ⟨submitted, hsubmitted, hcount⟩ := Option.bind_eq_some_iff.mp hcount
      obtain rfl := Option.some.inj hcount
      obtain ⟨signature, update, hsignature, hlength, hupdate, hverify⟩ := hsigned hcommit
      refine ⟨address, s', haddress, (), s', ⟨hnew, rfl⟩, total, s', ⟨htotal, rfl⟩, ?_⟩
      rw [if_pos hcommit]
      simp only [voteSignature, checkVoteSignature, bind_eq_ok, require_eq_ok, ensure_eq_ok,
        pure_eq_ok, reads_eq_ok, mapErr_eq_ok]
      exact ⟨signature, s', ⟨signature, s', ⟨hsignature, rfl⟩, (), s', ⟨hlength, rfl⟩, rfl, rfl⟩,
        submitted, s', ⟨hsubmitted, rfl⟩, (), s', ⟨_, s', ⟨rfl, rfl⟩, update, s', ⟨hupdate, rfl⟩,
          hverify, rfl⟩, rfl, rfl⟩
    · obtain ⟨total, htotal, hcount⟩ := Option.bind_eq_some_iff.mp hcount
      obtain rfl := Option.some.inj hcount
      obtain ⟨hextension, hsignature⟩ := hsilent hcommit
      refine ⟨address, s', haddress, (), s', ⟨hnew, rfl⟩, total, s', ⟨htotal, rfl⟩, ?_⟩
      rw [if_neg hcommit]
      simp only [bind_eq_ok, ensure_eq_ok, pure_eq_ok]
      exact ⟨(), s', ⟨hextension, rfl⟩, (), s', ⟨hsignature, rfl⟩, trivial, rfl⟩

omit codec in
/-- The loop checks every vote, and counts all of them. -/
theorem validateVotes_eq_ok {chainId : String} {height round : ℕ} {votes : List ExtendedVoteInfo}
    {power final : VotingPower} {s s' : Base} :
    validateVotes chainId height round votes power s = .ok final s' ↔
      s' = s ∧ (∀ vote ∈ votes, VoteAccepted s chainId height round vote) ∧
        votes.foldlM VotingPower.count power = some final := by
  induction votes generalizing power s with
  | nil => simp [validateVotes, eq_comm, and_comm]
  | cons vote rest ih =>
    simp only [validateVotes, bind_eq_ok, validateVote_eq_ok, List.forall_mem_cons,
      List.foldlM_cons, Option.bind_eq_bind, Option.bind_eq_some_iff]
    constructor
    · rintro ⟨next, _, ⟨rfl, haccepted, hcount⟩, hrest⟩
      obtain ⟨rfl, hall, hfold⟩ := ih.mp hrest
      exact ⟨rfl, ⟨haccepted, hall⟩, next, hcount, hfold⟩
    · rintro ⟨rfl, ⟨haccepted, hall⟩, next, hcount, hfold⟩
      exact ⟨next, s', ⟨rfl, haccepted, hcount⟩, ih.mpr ⟨rfl, hall, hfold⟩⟩

omit codec in
theorem validateVoteExtensions_eq_ok {height : ℕ} {info : ExtendedCommitInfo} {s s' : Base}
    {u : Unit} :
    validateVoteExtensions height info s = .ok u s' ↔
      s' = s ∧ ∃ chainId power required, s.getChainId = .ok chainId ∧
        (∀ vote ∈ info.votes, VoteAccepted s chainId height info.round vote) ∧
        info.votes.foldlM VotingPower.count {} = some power ∧ power.total ≠ 0 ∧
        requiredVotingPower power.total = some required ∧ required ≤ power.submitted := by
  simp only [validateVoteExtensions, bind_eq_ok, mapErr_eq_ok, tryReads_eq_ok, validateVotes_eq_ok,
    ensure_eq_ok, require_eq_ok]
  constructor
  · rintro ⟨chainId, _, ⟨hchain, rfl⟩, power, _, ⟨rfl, hall, hfold⟩, _, _, ⟨htotal, rfl⟩, required, _,
      ⟨hrequired, rfl⟩, hle, rfl⟩
    exact ⟨rfl, chainId, power, required, hchain, hall, hfold, htotal, hrequired, hle⟩
  · rintro ⟨rfl, chainId, power, required, hchain, hall, hfold, htotal, hrequired, hle⟩
    exact ⟨chainId, s', ⟨hchain, rfl⟩, power, s', ⟨rfl, hall, hfold⟩, (), s', ⟨htotal, rfl⟩, required,
      s', ⟨hrequired, rfl⟩, hle, rfl⟩

/-- A signed quorum: the committed votes come from different validators, each of which has signed its
vote extension, and hold more than two thirds of the power in the commit. -/
structure ExtendedCommitInfo.HasQuorum (height : ℕ) (info : ExtendedCommitInfo) (s : Base) : Prop where
  distinct : (voters (commitVotes info.votes)).Nodup
  signed : ∃ chainId, s.getChainId = .ok chainId ∧ ∀ vote ∈ commitVotes info.votes,
    ∃ signature update, vote.extensionSignature = some signature ∧
      s.authority.validators vote.validator.address = some update ∧
      crypto.verify update.verificationKey signature
        { ext := vote.voteExtension, height := height - 1, round := info.round, chainId := chainId } =
          true
  quorum : 2 * votingPower info.votes < 3 * votingPower (commitVotes info.votes)
  noOverflow : 2 * votingPower info.votes ≤ u64Max

omit codec in
/-- Vote extensions that are accepted are a signed quorum. -/
theorem validateVoteExtensions_hasQuorum {height : ℕ} {info : ExtendedCommitInfo} {s s' : Base}
    {u : Unit} (h : validateVoteExtensions height info s = .ok u s') : info.HasQuorum height s := by
  obtain ⟨-, chainId, power, required, hchain, hall, hfold, htotal, hrequired, hle⟩ :=
    validateVoteExtensions_eq_ok.mp h
  obtain ⟨hnodup, -, hsum, hcommit⟩ := foldlM_count hfold
  have hsum : power.total = votingPower info.votes := by simpa using hsum
  have hcommit : power.submitted = votingPower (commitVotes info.votes) := by simpa using hcommit
  have hbound : power.total * 2 ≤ u64Max ∧ required = power.total * 2 / 3 + 1 := by
    unfold requiredVotingPower at hrequired
    split_ifs at hrequired with hdouble
    exact ⟨hdouble, (checkedAdd_eq_some.mp hrequired).1⟩
  refine ⟨?_, ⟨chainId, hchain, fun vote hvote => ?_⟩, by omega, by omega⟩
  · exact hnodup.sublist (List.filter_sublist.map _)
  · obtain ⟨hmem, hflag⟩ := List.mem_filter.mp hvote
    obtain ⟨signature, update, hsignature, -, hupdate, hverify⟩ :=
      (hall vote hmem).signed (of_decide_eq_true hflag)
    exact ⟨signature, update, hsignature, hupdate, hverify⟩

/-! ## Pruning -/

omit ext codec crypto in
theorem extendIds_nodup {all ids : List ℕ} (h : all.Nodup) : (extendIds all ids).Nodup := by
  refine List.nodup_append.mpr ⟨h, List.nodup_dedup _, ?_⟩
  rintro a ha b hb rfl
  rw [List.mem_dedup, List.mem_filter] at hb
  exact of_decide_eq_true hb.2 ha

omit ext crypto in
/-- A vote without an extension has no ids. -/
theorem verifyVoteExtension_nil (hdecode : codec.decodeOracleVoteExtension [] = some [])
    (maxNum : ℕ) : verifyVoteExtension [] maxNum = .ok [] := by
  simp [verifyVoteExtension, hdecode]

/-- What the proposer makes of a vote whose extension is refused. -/
def ExtendedVoteInfo.pruned (vote : ExtendedVoteInfo) : ExtendedVoteInfo :=
  { vote with sigInfo := .flag .absent, voteExtension := [], extensionSignature := none }

omit crypto in
/-- The votes that are left are the old ones or pruned ones, and verifying them again gives the same
ids. -/
theorem pruneVotes_spec (hdecode : codec.decodeOracleVoteExtension [] = some []) {maxNum : ℕ}
    {votes votes' : List ExtendedVoteInfo} {ids ids' : List ℕ} {s s' : Base}
    (h : pruneVotes maxNum votes ids s = .ok (votes', ids') s') :
    s' = s ∧ List.Forall₂ (fun vote vote' => vote' = vote ∨ vote' = vote.pruned) votes votes' ∧
      verifyVotes maxNum votes' ids = .ok ids' ∧ (ids.Nodup → ids'.Nodup) := by
  induction votes generalizing ids votes' s with
  | nil =>
    rw [pruneVotes, pure_eq_ok] at h
    obtain ⟨hsame, rfl⟩ := h
    obtain ⟨rfl, rfl⟩ := Prod.mk.inj hsame
    exact ⟨rfl, .nil, rfl, id⟩
  | cons vote rest ih =>
    rw [pruneVotes] at h
    cases hverify : verifyVoteExtension vote.voteExtension maxNum with
    | ok new =>
      rw [hverify] at h
      simp only [bind_eq_ok, pure_eq_ok] at h
      obtain ⟨⟨votes, all⟩, t, hrest, hsame, rfl⟩ := h
      obtain ⟨rfl, rfl⟩ := Prod.mk.inj hsame
      obtain ⟨rfl, hvotes, hids, hnodup⟩ := ih hrest
      refine ⟨rfl, .cons (Or.inl rfl) hvotes, ?_, fun h => hnodup (extendIds_nodup h)⟩
      rw [verifyVotes, hverify]
      exact hids
    | error e =>
      rw [hverify] at h
      simp only [bind_eq_ok, pure_eq_ok, mapErr_eq_ok] at h
      obtain ⟨address, r, haddress, ⟨votes, all⟩, t, hrest, hsame, rfl⟩ := h
      obtain ⟨rfl, rfl⟩ := Prod.mk.inj hsame
      obtain rfl := tryBasePrefixed_state haddress
      obtain ⟨rfl, hvotes, hids, hnodup⟩ := ih hrest
      refine ⟨rfl, .cons (Or.inr rfl) hvotes, ?_, hnodup⟩
      rw [verifyVotes, verifyVoteExtension_nil hdecode]
      simpa [extendIds] using hids

/-! ## The last commit -/

/-- A vote without its extension. -/
def ExtendedVoteInfo.voteInfo (vote : ExtendedVoteInfo) : VoteInfo :=
  { validator := vote.validator, sigInfo := vote.sigInfo }

/-- The commit that CometBFT gives to the validators where the proposer gets the extended one. -/
def ExtendedCommitInfo.commitInfo (info : ExtendedCommitInfo) : CommitInfo :=
  { round := info.round, votes := info.votes.map ExtendedVoteInfo.voteInfo }

omit ext codec crypto in
theorem voteMatches_of_pruned {vote vote' : ExtendedVoteInfo}
    (h : vote' = vote ∨ vote' = vote.pruned) : voteMatches vote.voteInfo vote' = .ok () := by
  rcases h with rfl | rfl <;>
    simp [voteMatches, ExtendedVoteInfo.voteInfo, ExtendedVoteInfo.pruned]

omit ext codec crypto in
theorem validateAgainstLastCommit_of_pruned {info : ExtendedCommitInfo}
    {votes' : List ExtendedVoteInfo}
    (h : List.Forall₂ (fun vote vote' => vote' = vote ∨ vote' = vote.pruned) info.votes votes') :
    validateAgainstLastCommit info.commitInfo { info with votes := votes' } = .ok () := by
  have hmatch : ∀ {votes votes' : List ExtendedVoteInfo},
      List.Forall₂ (fun vote vote' => vote' = vote ∨ vote' = vote.pruned) votes votes' →
        votesMatch (votes.map ExtendedVoteInfo.voteInfo) votes' = .ok () := by
    intro votes votes' hvotes
    induction hvotes with
    | nil => rfl
    | cons hvote _ ih =>
      rw [List.map_cons, votesMatch, voteMatches_of_pruned hvote]
      exact ih
  simp [validateAgainstLastCommit, ExtendedCommitInfo.commitInfo, h.length_eq, hmatch h]

/-! ## The currency pairs of the ids -/

/-- The entry of an id in the mapping. -/
def mappingEntry (marketMap : MarketMap) (oracle : Oracle) (id : ℕ) :
    Option (ℕ × CurrencyPairInfo) := do
  let pair ← oracle.idToPair id
  let market ← marketMap.get pair
  some (id, { currencyPair := pair, decimals := market.ticker.decimals })

omit ext codec crypto in
theorem fst_of_mappingEntry {marketMap : MarketMap} {oracle : Oracle} {id : ℕ}
    {entry : ℕ × CurrencyPairInfo} (h : mappingEntry marketMap oracle id = some entry) :
    entry.1 = id := by
  obtain ⟨pair, -, h⟩ := Option.bind_eq_some_iff.mp h
  obtain ⟨market, -, h⟩ := Option.bind_eq_some_iff.mp h
  rw [← Option.some.inj h]

omit ext codec crypto in
theorem keys_filterMap_mappingEntry (marketMap : MarketMap) (oracle : Oracle) (ids : List ℕ) :
    ((ids.filterMap (mappingEntry marketMap oracle)).map Prod.fst).Sublist ids := by
  induction ids with
  | nil => exact List.Sublist.slnil
  | cons id rest ih =>
    cases hentry : mappingEntry marketMap oracle id with
    | none =>
      rw [List.filterMap_cons_none hentry]
      exact ih.cons id
    | some entry =>
      rw [List.filterMap_cons_some hentry, List.map_cons, fst_of_mappingEntry hentry]
      exact ih.cons_cons id

omit ext codec crypto in
theorem CurrencyPairMapping.insert_of_new {id : ℕ} {info : CurrencyPairInfo}
    {mapping : CurrencyPairMapping} (h : ∀ entry ∈ mapping, entry.1 ≠ id) :
    CurrencyPairMapping.insert id info mapping = mapping ++ [(id, info)] := by
  induction mapping with
  | nil => rfl
  | cons entry rest ih =>
    rw [CurrencyPairMapping.insert, if_neg (h entry List.mem_cons_self),
      ih fun e he => h e (List.mem_cons_of_mem _ he)]
    rfl

omit ext codec crypto in
/-- The loop of `get_id_to_currency_pair` over distinct ids: every pair has to be in the market map,
and the entries come in the order of the ids. -/
theorem collectCurrencyPairs_eq_ok {marketMap : MarketMap} {oracle : Oracle} {ids : List ℕ}
    (mapping : CurrencyPairMapping) {result : CurrencyPairMapping} (hids : ids.Nodup)
    (hnew : ∀ id ∈ ids, ∀ entry ∈ mapping, entry.1 ≠ id) :
    collectCurrencyPairs marketMap oracle ids mapping = .ok result ↔
      (∀ id ∈ ids, ∀ pair, oracle.idToPair id = some pair → (marketMap.get pair).isSome) ∧
        result = mapping ++ ids.filterMap (mappingEntry marketMap oracle) := by
  induction ids generalizing mapping with
  | nil =>
    rw [collectCurrencyPairs, Except.ok.injEq, List.filterMap_nil, List.append_nil, eq_comm]
    exact ⟨fun h => ⟨fun _ hi => by simp at hi, h⟩, fun h => h.2⟩
  | cons id rest ih =>
    obtain ⟨hid, hrest⟩ := List.nodup_cons.mp hids
    have hnew' := fun i hi => hnew i (List.mem_cons_of_mem _ hi)
    rw [collectCurrencyPairs]
    cases hpair : oracle.idToPair id with
    | none =>
      have hentry : mappingEntry marketMap oracle id = none := by simp [mappingEntry, hpair]
      rw [List.filterMap_cons_none hentry]
      simp only [ih _ hrest hnew', List.forall_mem_cons, hpair, reduceCtorEq, false_implies,
        implies_true, true_and]
    | some pair =>
      cases hmarket : marketMap.get pair with
      | none => simp [hpair, hmarket]
      | some market =>
        have hentry : mappingEntry marketMap oracle id =
            some (id, { currencyPair := pair, decimals := market.ticker.decimals }) := by
          simp [mappingEntry, hpair, hmarket]
        have hfresh : ∀ i ∈ rest, ∀ entry ∈ mapping ++
            [(id, { currencyPair := pair, decimals := market.ticker.decimals })], entry.1 ≠ i := by
          intro i hi entry hentry
          rcases List.mem_append.mp hentry with hold | hlast
          · exact hnew' i hi entry hold
          · rw [List.mem_singleton.mp hlast]
            rintro rfl
            exact hid hi
        simp only [hmarket]
        rw [CurrencyPairMapping.insert_of_new (hnew id List.mem_cons_self), ih _ hrest hfresh,
          List.filterMap_cons_some hentry]
        simp [hpair, hmarket]

omit ext codec crypto in
/-- Two mappings with the same entries are equal, whatever their order. -/
theorem CurrencyPairMapping.same_of_perm {a b : CurrencyPairMapping} (hperm : a.Perm b)
    (hkeys : (b.map Prod.fst).Nodup) : CurrencyPairMapping.same a b = true := by
  have hget : ∀ {entry : ℕ × CurrencyPairInfo} {m : CurrencyPairMapping}, (m.map Prod.fst).Nodup →
      entry ∈ m → CurrencyPairMapping.get m entry.1 = some entry.2 := by
    intro entry m hm hmem
    induction m with
    | nil => cases hmem
    | cons first rest ih =>
      obtain ⟨hnot, hrest⟩ := List.nodup_cons.mp hm
      rcases List.mem_cons.mp hmem with rfl | hlater
      · simp [CurrencyPairMapping.get]
      · have hne : first.1 ≠ entry.1 := by
          intro h
          exact hnot (h ▸ List.mem_map_of_mem hlater)
        simpa [CurrencyPairMapping.get, hne] using ih hrest hlater
  have hall : ∀ entry ∈ a, CurrencyPairMapping.get b entry.1 = some entry.2 := fun entry he =>
    hget hkeys (hperm.subset he)
  simpa [CurrencyPairMapping.same, hperm.length_eq] using hall

/-! ## The states of the proposer and of the validators -/

/-- What the validation reads of the state `b'` of the proposer and of the state `b` of a validator is
the same, save that the proposer may know fewer validators. -/
structure Base.Covers (b b' : Base) : Prop where
  chainId : b'.chain.chainId = b.chain.chainId
  prefixes : b'.prefixes = b.prefixes
  validators : ∀ a update, b'.authority.validators a = some update →
    b.authority.validators a = some update
  marketMap : b'.marketMap = b.marketMap

instance : IsPreorder Base Base.Covers where
  refl _ := ⟨rfl, rfl, fun _ _ h => h, rfl⟩
  trans _ _ _ h h' :=
    ⟨h'.chainId.trans h.chainId, h'.prefixes.trans h.prefixes,
      fun a update hu => h.validators a update (h'.validators a update hu),
      h'.marketMap.trans h.marketMap⟩

omit codec in
theorem Base.Covers.voteAccepted {b b' : Base} (h : b.Covers b') {chainId : String}
    {height round : ℕ} {vote : ExtendedVoteInfo}
    (hvote : VoteAccepted b' chainId height round vote) :
    VoteAccepted b chainId height round vote := by
  refine ⟨?_, fun hflag => ?_, hvote.silent⟩
  · obtain ⟨address, haddress⟩ := hvote.address
    refine ⟨address, ?_⟩
    simp only [tryBasePrefixed, bind_eq_ok, mapErr_eq_ok, tryReads_eq_ok, lift_eq_ok,
      Base.getBasePrefix, h.prefixes] at haddress ⊢
    obtain ⟨hrp, _, ⟨hhrp, -⟩, hprefix, -⟩ := haddress
    exact ⟨hrp, b, ⟨hhrp, rfl⟩, hprefix, rfl⟩
  · obtain ⟨signature, update, hsignature, hlength, hupdate, hverify⟩ := hvote.signed hflag
    exact ⟨signature, update, hsignature, hlength, h.validators _ _ hupdate, hverify⟩

omit codec in
theorem Base.Covers.validateVoteExtensions {b b' c : Base} (h : b.Covers b') {height : ℕ}
    {info : ExtendedCommitInfo} {u : Unit}
    (hvalid : validateVoteExtensions height info b' = .ok u c) :
    Sequencer.validateVoteExtensions height info b = .ok () b := by
  obtain ⟨-, chainId, power, required, hchain, hall, hrest⟩ :=
    validateVoteExtensions_eq_ok.mp hvalid
  have hchain' : b.getChainId = .ok chainId := by
    rw [← hchain, Base.getChainId, Base.getChainId, h.chainId]
  exact validateVoteExtensions_eq_ok.mpr
    ⟨rfl, chainId, power, required, hchain', fun vote hvote => h.voteAccepted (hall vote hvote), hrest⟩

omit ext codec crypto in
/-- Two nodes read the same mapping, in whatever order they see the currency pairs. -/
theorem getIdToCurrencyPair_same {s p p' : State} (hbase : s.base.Covers p.base)
    (horacle : p.oracle = s.oracle) {completion : Completion}
    (completion' : Completion) {ids : List ℕ} (hids : ids.Nodup) {mapping : CurrencyPairMapping}
    (hmapping : getIdToCurrencyPair completion ids p = .ok mapping p') :
    ∃ mapping', getIdToCurrencyPair completion' ids s = .ok mapping' s ∧
      CurrencyPairMapping.same mapping' mapping = true := by
  have hnodup (c : Completion) : (c.order ids).Nodup := (c.perm ids).nodup_iff.mpr hids
  simp only [getIdToCurrencyPair, bind_eq_ok, reads_eq_ok, require_eq_ok, tryReads_eq_ok, and_assoc,
    exists_and_left, exists_eq_left] at hmapping
  obtain ⟨marketMap, hmarket, hcollect, -⟩ := hmapping
  rw [hbase.marketMap] at hmarket
  rw [horacle, collectCurrencyPairs_eq_ok [] (hnodup completion) (by simp)] at hcollect
  obtain ⟨hlisted, rfl⟩ := hcollect
  have hperm : (completion'.order ids).Perm (completion.order ids) :=
    (completion'.perm ids).trans (completion.perm ids).symm
  have hlisted' : ∀ id ∈ completion'.order ids, ∀ pair, s.oracle.idToPair id = some pair →
      (marketMap.get pair).isSome := fun id hid => hlisted id (hperm.subset hid)
  have hcollect' := (collectCurrencyPairs_eq_ok [] (hnodup completion') (by simp)).mpr
    ⟨hlisted', rfl⟩
  refine ⟨_, ?_, CurrencyPairMapping.same_of_perm (hperm.filterMap _) ?_⟩
  · simp only [getIdToCurrencyPair, bind_eq_ok, reads_eq_ok, require_eq_ok, tryReads_eq_ok]
    exact ⟨_, s, ⟨rfl, rfl⟩, marketMap, s, ⟨hmarket, rfl⟩, hcollect', rfl⟩
  · exact (hnodup completion).sublist (keys_filterMap_mappingEntry marketMap s.oracle _)

omit codec crypto in
/-- The begin of a block removes validators, and touches nothing else that the validation reads. -/
theorem beginBlock_covers (request : BeginBlock) : Keeps Base.Covers (beginBlock request) := by
  have hremove (a : AddressBytes) : Keeps Base.Covers (removeValidator a) := by
    refine Keeps.bind (by simp) fun _ => Keeps.ite ?_ (by simp)
    refine Keeps.bind (keeps_writes fun b => ⟨rfl, rfl, fun a' update hu => ?_, rfl⟩) fun _ => by simp
    by_cases ha : a' = a
    · simp [Base.deleteValidator, ha] at hu
    · simpa [Base.deleteValidator, ha] using hu
  have hmisbehaving (m : Misbehavior) : Keeps Base.Covers (removeMisbehaving m) := by
    refine Keeps.bind ((hremove _).mapErr _) fun _ => Keeps.ite ?_ (by simp)
    exact Keeps.bind (by simp) fun _ => keeps_writes fun _ => ⟨rfl, rfl, fun _ _ h => h, rfl⟩
  have hauthority (l : List Misbehavior) : Keeps Base.Covers (authorityBeginBlock l) := by
    refine Keeps.bind (by simp) fun _ => Keeps.ite ?_ (Keeps.forEach hmisbehaving l)
    exact Keeps.bind (by simp) fun _ => keeps_writes fun _ => ⟨rfl, rfl, fun _ _ h => h, rfl⟩
  refine Keeps.bind (keeps_writes fun _ => ⟨rfl, rfl, fun _ _ h => h, rfl⟩) fun _ => ?_
  refine Keeps.bind (keeps_writes fun _ => ⟨rfl, rfl, fun _ _ h => h, rfl⟩) fun _ => ?_
  refine Keeps.bind ((hauthority _).mapErr _) fun _ => Keeps.bind (keeps_reads _) fun _ => ?_
  exact keeps_writes fun _ => ⟨rfl, rfl, fun _ _ h => h, rfl⟩

omit codec crypto in
/-- Without an upgrade, `pre_execute_transactions` leaves what the validation reads, but for
misbehaving validators. -/
theorem preExecuteTransactions_covers [UpgradeCodec] {upgrades : Upgrades} {appHash : Bytes32}
    {block : BlockData} {hashes : List Bytes32} {s p : State}
    (hdue : upgrades.upgradeActivatingAtHeight block.height = none)
    (h : preExecuteTransactions upgrades appHash block s = .ok hashes p) :
    s.base.Covers p.base ∧ p.oracle = s.oracle := by
  simp only [preExecuteTransactions, executeUpgradeIfDue, hdue, bind_eq_ok, mapErr_eq_ok,
    applyDelta_onBase_eq_ok, pure_eq_ok] at h
  obtain ⟨r, t, hupgrade, chainId, t', hchain, _, _, ⟨b, hbegin, -, rfl⟩, -, rfl⟩ := h
  obtain ⟨_, q, hpure, -, rfl⟩ := applyDelta_eq_ok.mp hupgrade
  obtain ⟨-, rfl⟩ := pure_eq_ok.mp hpure
  obtain ⟨hread, rfl⟩ := onBase_tryReads_eq_ok.mp hchain
  obtain ⟨hchainId, hprefixes, hvalidators, hmarketMap⟩ := (beginBlock_covers _).of_ok hbegin
  exact ⟨⟨hchainId, hprefixes, hvalidators, hmarketMap⟩, rfl⟩

/-! ## Proposals -/

/-- The extended commit info that `App::prepare_proposal` puts into a block (`app/mod.rs`, lines
415–428): none of the votes if the proposer does not accept its own. -/
def proposedExtendedCommitInfo (completion : Completion) (height : ℕ) (info : ExtendedCommitInfo)
    (s : State) : ExtendedCommitInfoWithMapping :=
  match prepareExtendedCommitInfo completion height info s with
  | .ok proposed _ => proposed
  | .error _ _ => .empty info.round

/-- A proposal that the proposer accepts itself: the pruned votes, with the mapping of their ids. -/
theorem prepareExtendedCommitInfo_ok (hdecode : codec.decodeOracleVoteExtension [] = some [])
    {completion : Completion} {height : ℕ} (hheight : height ≠ 1) {info : ExtendedCommitInfo}
    {result : ExtendedCommitInfoWithMapping} {p p' : State}
    (h : prepareExtendedCommitInfo completion height info p = .ok result p') :
    ∃ votes ids b q mapping,
      result = { extendedCommitInfo := { info with votes := votes }, idToCurrencyPair := mapping } ∧
        List.Forall₂ (fun vote vote' => vote' = vote ∨ vote' = vote.pruned) info.votes votes ∧
        verifyVotes p.oracle.getNumCurrencyPairs votes [] = .ok ids ∧ ids.Nodup ∧
        validateVoteExtensions height { info with votes := votes } p.base = .ok () b ∧
        getIdToCurrencyPair completion ids p = .ok mapping q := by
  rw [prepareExtendedCommitInfo, if_neg hheight] at h
  simp only [bind_eq_ok, reads_eq_ok, mapErr_eq_ok, pure_eq_ok, and_assoc, exists_and_left,
    exists_eq_left] at h
  obtain ⟨⟨votes, ids⟩, t, hprune, _, t', hvalid, mapping, q, hmapping, rfl, -⟩ := h
  obtain ⟨b, hpruned, rfl⟩ := onBase_eq_ok.mp hprune
  obtain ⟨rfl, hvotes, hids, hnodup⟩ := pruneVotes_spec hdecode hpruned
  obtain ⟨c, hvalidated, rfl⟩ := onBase_eq_ok.mp hvalid
  obtain ⟨rfl, -⟩ := validateVoteExtensions_eq_ok.mp hvalidated
  exact ⟨votes, ids, _, q, mapping, rfl, hvotes, hids, hnodup List.nodup_nil, hvalidated, hmapping⟩

/-- What the proposer proposes is accepted by every validator whose state covers that of the
proposer. -/
theorem proposal_accepted (hdecode : codec.decodeOracleVoteExtension [] = some []) {s p : State}
    (hbase : s.base.Covers p.base) (horacle : p.oracle = s.oracle) (height : ℕ)
    (completion completion' : Completion) (info : ExtendedCommitInfo) :
    validateExtendedCommitInfo completion' height info.commitInfo
      (proposedExtendedCommitInfo completion height info p) s = .ok () s := by
  unfold validateExtendedCommitInfo proposedExtendedCommitInfo
  by_cases hheight : height = 1
  · rw [if_pos hheight]
    rfl
  rw [if_neg hheight]
  cases hprepare : prepareExtendedCommitInfo completion height info p with
  | error e p' => simp [ExtendedCommitInfoWithMapping.empty, ExtendedCommitInfo.commitInfo]
  | ok result p' =>
    obtain ⟨votes, ids, b, q, mapping, rfl, hvotes, hids, hnodup, hvalid, hmapping⟩ :=
      prepareExtendedCommitInfo_ok hdecode hheight hprepare
    dsimp only
    by_cases hempty : votes = []
    · simp [hempty, ExtendedCommitInfo.commitInfo]
    rw [if_neg hempty]
    have hlast := validateAgainstLastCommit_of_pruned hvotes
    have hvalid' := hbase.validateVoteExtensions hvalid
    rw [horacle] at hids
    obtain ⟨mapping', hmapping', hsame⟩ :=
      getIdToCurrencyPair_same hbase horacle completion' hnodup hmapping
    simp only [bind_eq_ok, lift_eq_ok, mapErr_eq_ok, onBase_eq_ok, reads_eq_ok, validateMapping,
      ensure_eq_ok]
    exact ⟨(), s, ⟨hlast, rfl⟩, (), s, ⟨s.base, hvalid', rfl⟩, _, s, ⟨rfl, rfl⟩, ids, s,
      ⟨hids, rfl⟩, mapping', s, hmapping', hsame, rfl⟩

/-- Vote extensions that are accepted are a signed quorum, and what a proposer proposes is accepted by
every validator that is given the same commit.  The proposer validates after
`pre_execute_transactions` and the validators before it; no upgrade is due then, since the upgrade
enables the vote extensions of the blocks after it. -/
theorem voteExtensions_sound [UpgradeCodec]
    (hdecode : codec.decodeOracleVoteExtension [] = some []) :
    (∀ {height : ℕ} {info : ExtendedCommitInfo} {s s' : Base} {u : Unit},
      validateVoteExtensions height info s = .ok u s' → info.HasQuorum height s) ∧
    (∀ (upgrades : Upgrades) (appHash : Bytes32) (block : BlockData) (hashes : List Bytes32)
      (s p : State), (p = s ∨ upgrades.upgradeActivatingAtHeight block.height = none ∧
        preExecuteTransactions upgrades appHash block s = .ok hashes p) →
      ∀ (completion completion' : Completion) (info : ExtendedCommitInfo),
        validateExtendedCommitInfo completion' block.height info.commitInfo
          (proposedExtendedCommitInfo completion block.height info p) s = .ok () s) := by
  refine ⟨fun h => validateVoteExtensions_hasQuorum h, fun _ _ block _ s p hp c c' info => ?_⟩
  have hcovers : s.base.Covers p.base ∧ p.oracle = s.oracle := by
    rcases hp with rfl | ⟨hdue, hpre⟩
    · exact ⟨refl_of Base.Covers _, rfl⟩
    · exact preExecuteTransactions_covers hdue hpre
  exact proposal_accepted hdecode hcovers.1 hcovers.2 block.height c c' info

end

/-! ## A commit of two votes -/

namespace TestVotes

open TestUtils

/-- `btree_map` of the prices: a later entry replaces an earlier one with the same id. -/
def insertPrice (id : ℕ) (price : Bytes) : RawOracleVoteExtension → RawOracleVoteExtension
  | [] => [(id, price)]
  | entry :: rest =>
    if id < entry.1 then (id, price) :: entry :: rest
    else if id = entry.1 then (id, price) :: rest
    else entry :: insertPrice id price rest

/-- An entry of the prices: the id and the price may be missing. -/
def readPrice (bytes : Bytes) : Option (ℕ × Bytes) := do
  let fields ← readFields bytes.length bytes
  fields.foldlM (fun (entry : ℕ × Bytes) field =>
    match field with
    | (1, .number id) => some (id, entry.2)
    | (2, .bytes price) => some (entry.1, price)
    | (1, .bytes _) | (2, .number _) => none
    | _ => some entry) (0, [])

/-- `OracleVoteExtension::decode`. -/
def readPrices (bytes : Bytes) : Option RawOracleVoteExtension := do
  let fields ← readFields bytes.length bytes
  fields.foldlM (fun (prices : RawOracleVoteExtension) field =>
    match field with
    | (1, .bytes bs) => (readPrice bs).map fun entry => insertPrice entry.1 entry.2 prices
    | (1, .number _) => none
    | _ => some prices) []

scoped instance : BlockCodec :=
  { (inferInstance : BlockCodec) with decodeOracleVoteExtension := readPrices }

/-- A price for the currency pair 0. -/
def alicePrices : Bytes :=
  [0x0a, 0x12, 0x12, 0x10, 0x00, 0x00, 0x00, 0x00, 0x00, 0x00, 0x00, 0x00, 0x00, 0x00, 0x00, 0x01,
    0x5b, 0xbc, 0xc7, 0x71]

/-- Alice's signature of these bytes for the height 9, the round 0 and the chain `test`. -/
def aliceSignature : Bytes :=
  [0xf8, 0x40, 0x35, 0x7a, 0xb3, 0xfb, 0xa5, 0xa6, 0x87, 0x78, 0x2a, 0x71, 0xdc, 0xa9, 0x08, 0xef,
    0x1f, 0xb2, 0xa1, 0x3b, 0xb9, 0x20, 0x89, 0xf5, 0xe2, 0x1c, 0xc3, 0x74, 0xb3, 0xdc, 0xbb, 0x22,
    0xba, 0x76, 0x13, 0x95, 0xde, 0x74, 0x25, 0x91, 0x05, 0x3a, 0x79, 0x9d, 0x79, 0xa1, 0xea, 0xab,
    0x44, 0xf1, 0xaa, 0xd2, 0x35, 0x41, 0x6c, 0x86, 0xc6, 0x57, 0xbe, 0x23, 0x2f, 0x44, 0x32, 0x08]

/-- No other signature is verified here. -/
scoped instance : VoteCrypto where
  verify key signature message :=
    key = aliceKey && signature = aliceSignature &&
      message = { ext := alicePrices, height := 9, round := 0, chainId := "test" }

/-- Alice and bob have voted, bob with bytes that are no vote extension. -/
def localCommit : ExtendedCommitInfo :=
  { round := 0
    votes :=
      [{ validator := { address := addressBytes aliceKey, power := 10 }
         sigInfo := .flag .commit
         voteExtension := alicePrices
         extensionSignature := some aliceSignature },
       { validator := { address := addressBytes bobKey, power := 4 }
         sigInfo := .flag .commit
         voteExtension := [0xff]
         extensionSignature := some (List.replicate 64 0) }] }

/-- The commit without bob's vote extension. -/
def prunedCommit : ExtendedCommitInfo :=
  { localCommit with
    votes := localCommit.votes.take 1 ++ (localCommit.votes.drop 1).map ExtendedVoteInfo.pruned }

def btcUsd : CurrencyPair :=
  { base := "BTC", quote := "USD", base_valid := isCurrency_btc, quote_valid := isCurrency_usd }

/-- A state with the two validators and one currency pair. -/
def voteState : State :=
  { base :=
      { Base.empty with
        chain := { Base.empty.chain with chainId := some "test" }
        prefixes := { basePrefix := some "astria", ibcCompatPrefix := some "astriacompat" }
        authority.validators := fun a =>
          if a = addressBytes aliceKey then
            some { power := 10, verificationKey := aliceKey, name := "" }
          else if a = addressBytes bobKey then
            some { power := 4, verificationKey := bobKey, name := "" }
          else none
        marketMap :=
          { marketMap := some
              { markets := [("BTC/USD",
                { ticker :=
                    { currencyPair := btcUsd
                      decimals := 8
                      minProviderCount := 1
                      enabled := true
                      metadataJson := "" }
                  providerConfigs := [] })] }
            lastUpdated := some 0 } }
    oracle :=
      Oracle.putNumCurrencyPairs 1 (Oracle.putNextCurrencyPairId 1
        (Oracle.putCurrencyPairState btcUsd { price := none, nonce := 0, id := 0 } Oracle.empty)) }

/-- The block of the proposal. -/
def voteBlock : BlockData :=
  { misbehavior := []
    height := 10
    time := 0
    nextValidatorsHash := none
    proposerAddress := addressBytes aliceKey }

set_option maxRecDepth 10000 in
/-- Alice's vote is more than two thirds of the power, and the proposal without bob's vote extension is
accepted. -/
theorem voteExtensions_sound_twoVotes :
    (∃ mapping, proposedExtendedCommitInfo { order := id, perm := fun _ => .refl _ } 10 localCommit
        voteState = { extendedCommitInfo := prunedCommit, idToCurrencyPair := mapping }) ∧
      prunedCommit.HasQuorum 10 voteState.base ∧
      validateExtendedCommitInfo { order := List.reverse, perm := List.reverse_perm } 10
          localCommit.commitInfo
          (proposedExtendedCommitInfo { order := id, perm := fun _ => .refl _ } 10 localCommit
            voteState) voteState = .ok () voteState := by
  have hvalid : validateVoteExtensions 10 prunedCommit voteState.base =
      .ok () (final (validateVoteExtensions 10 prunedCommit voteState.base)) :=
    eq_ok_of_isOk (by decide +kernel)
  have hdecode : readPrices [] = some [] := by decide
  have hsound := voteExtensions_sound hdecode
  refine ⟨⟨[(0, { currencyPair := btcUsd, decimals := 8 })], by decide +kernel⟩, hsound.1 hvalid, ?_⟩
  exact hsound.2 { aspen := none } (List.Vector.replicate 32 0) voteBlock [] voteState voteState
    (Or.inl rfl) _ _ localCommit

end TestVotes

end Astria.Sequencer
