import Astria.Sequencer.BlockParts
import Astria.Sequencer.ActionHandler.Ics20
import Mathlib.Data.List.Sort

/-!
# Vote extensions

The proposal, the validation and the application of the prices that validators attach to their
votes (`app/vote_extension.rs`, `astria-core/src/oracles/price_feed/utils.rs`).

The ids of the voted prices are collected in a set whose iteration order is not fixed, and the
currency pairs of the ids are read concurrently: `completion` stands for the order in which a
node happens to see them.
-/

namespace Astria.Sequencer

open Astria.Core Astria.Lib Exec

/-- `MAXIMUM_PRICE_BYTE_LEN`. -/
def maximumPriceByteLen : ℕ := 33

/-- `CanonicalVoteExtension`: what a validator signs of its vote extension. -/
structure CanonicalVoteExtension where
  ext : Bytes
  height : ℕ
  round : ℕ
  chainId : String
  deriving DecidableEq

/-- The signatures of vote extensions. -/
class VoteCrypto where
  /-- `VerificationKey::verify` of a signature of 64 bytes over the length-delimited encoding of
  the message. -/
  verify : Bytes32 → Bytes → CanonicalVoteExtension → Bool

/-- The order in which the currency pairs of a set of ids are completed. -/
structure Completion where
  order : List ℕ → List ℕ
  perm : ∀ ids, (order ids).Perm ids

/-! ## One vote extension -/

section

variable [ext : External] [codec : BlockCodec]

/-- `verify_vote_extension`: the ids of the prices. -/
def verifyVoteExtension (bytes : Bytes) (maxNumCurrencyPairs : ℕ) : Except Report (List ℕ) :=
  match codec.decodeOracleVoteExtension bytes with
  | none => .error ["failed to decode oracle vote extension"]
  | some prices =>
    if maxNumCurrencyPairs < prices.length then
      .error ["number of oracle vote extension prices exceeds max expected number of currency pairs"]
    else if prices.any fun price => maximumPriceByteLen < price.2.length then
      .error ["encoded price length exceeded 33 bytes"]
    else .ok (prices.map (·.1))

/-- A set of ids, in order of insertion. -/
def extendIds (all ids : List ℕ) : List ℕ := all ++ (ids.filter fun id => id ∉ all).dedup

/-! ## Validation -/

/-- `try_base_prefixed`. -/
def tryBasePrefixed (address : AddressBytes) : BaseM Address := do
  let hrp ← wrapErr "failed to read base prefix from state" (tryReads Base.getBasePrefix)
  wrapErr "failed to construct address from byte slice and state-provided base prefix"
    (lift (toPrefix { bytes := address, hrp := hrp } hrp))

variable [crypto : VoteCrypto]

/-- The running values of the loop of `validate_vote_extensions`. -/
structure VotingPower where
  total : ℕ := 0
  submitted : ℕ := 0
  voted : List AddressBytes := []

/-- The signature of a committed vote. -/
def voteSignature (vote : ExtendedVoteInfo) (address : Address) : BaseM Bytes := do
  let signature ← require vote.extensionSignature
    ["vote extension signature is missing for validator " ++ ext.displayAddress address]
  ensure (signature.length = 64) ["failed to create signature"]
  pure signature

/-- The verification of a committed vote's signature under the validator's key. -/
def checkVoteSignature (chainId : String) (height round : ℕ) (vote : ExtendedVoteInfo)
    (signature : Bytes) : BaseM Unit := do
  let validator ← reads fun s => s.authority.validators vote.validator.address
  let update ← wrapErr "failed to get verification key for validator"
    (require validator
      [String.ofList (Base64.encode vote.validator.address.toList) ++ " not found in validators"])
  ensure
    (crypto.verify update.verificationKey signature
      { ext := vote.voteExtension, height := height - 1, round := round, chainId := chainId } =
        true)
    ["failed to verify signature for vote extension"]

/-- The body of the loop of `validate_vote_extensions`. -/
def validateVote (chainId : String) (height round : ℕ) (vote : ExtendedVoteInfo)
    (power : VotingPower) : BaseM VotingPower := do
  let address ← wrapErr "failed to construct validator address with base prefix"
    (tryBasePrefixed vote.validator.address)
  ensure (vote.validator.address ∉ power.voted)
    [String.ofList (Base64.encode vote.validator.address.toList) ++ " voted twice"]
  let total ← require (checkedAdd u64Max power.total vote.validator.power)
    ["calculating total voting power overflowed"]
  let voted := vote.validator.address :: power.voted
  if vote.sigInfo = .flag .commit then do
    let signature ← voteSignature vote address
    let submitted ← require (checkedAdd u64Max power.submitted vote.validator.power)
      ["calculating submitted voting power overflowed"]
    checkVoteSignature chainId height round vote signature
    pure { total := total, submitted := submitted, voted := voted }
  else do
    ensure (vote.voteExtension = [])
      ["non-commit vote extension present for validator " ++ ext.displayAddress address]
    ensure (vote.extensionSignature = none)
      ["non-commit extension signature present for validator " ++ ext.displayAddress address]
    pure { power with total := total, voted := voted }

/-- The loop of `validate_vote_extensions`. -/
def validateVotes (chainId : String) (height round : ℕ) :
    List ExtendedVoteInfo → VotingPower → BaseM VotingPower
  | [], power => pure power
  | vote :: rest, power => do
    let next ← validateVote chainId height round vote power
    validateVotes chainId height round rest next

/-- The power that has to have submitted a vote extension. -/
def requiredVotingPower (total : ℕ) : Option ℕ :=
  if total * 2 ≤ u64Max then checkedAdd u64Max (total * 2 / 3) 1 else none

/-- `validate_vote_extensions`. -/
def validateVoteExtensions (height : ℕ) (info : ExtendedCommitInfo) : BaseM Unit := do
  let chainId ← wrapErr "failed to get chain id" (tryReads Base.getChainId)
  let power ← validateVotes chainId height info.round info.votes {}
  ensure (power.total ≠ 0) ["total voting power is zero"]
  let required ← require (requiredVotingPower power.total)
    ["failed to multiply total voting power by 2"]
  ensure (required ≤ power.submitted)
    ["submitted voting power is less than required voting power"]

/-! ## The currency pairs of the ids -/

/-- The market of a currency pair. -/
def MarketMap.get (marketMap : MarketMap) (pair : CurrencyPair) : Option Market :=
  (marketMap.markets.find? fun entry => entry.1 = pair.toString).map (·.2)

/-- The loop of `get_id_to_currency_pair`: an id without a pair is skipped. -/
def collectCurrencyPairs (marketMap : MarketMap) (oracle : Oracle) :
    List ℕ → CurrencyPairMapping → Except Report CurrencyPairMapping
  | [], mapping => .ok mapping
  | id :: rest, mapping =>
    match oracle.idToPair id with
    | none => collectCurrencyPairs marketMap oracle rest mapping
    | some pair =>
      match marketMap.get pair with
      | none => .error ["currency pair did not exist in market map"]
      | some market =>
        collectCurrencyPairs marketMap oracle rest
          (CurrencyPairMapping.insert id
            { currencyPair := pair, decimals := market.ticker.decimals } mapping)

/-- `get_id_to_currency_pair`. -/
def getIdToCurrencyPair (completion : Completion) (ids : List ℕ) : AppM CurrencyPairMapping := do
  let stored ← reads fun s => s.base.marketMap.marketMap
  let marketMap ← require stored ["market map was not set"]
  tryReads fun s => collectCurrencyPairs marketMap s.oracle (completion.order ids) []

/-! ## Proposals -/

/-- The loop of `ProposalHandler::prepare_proposal`: a vote whose extension is refused is pruned.
The result holds the votes and the ids of their prices. -/
def pruneVotes (maxNumCurrencyPairs : ℕ) :
    List ExtendedVoteInfo → List ℕ → BaseM (List ExtendedVoteInfo × List ℕ)
  | [], ids => pure ([], ids)
  | vote :: rest, ids =>
    match verifyVoteExtension vote.voteExtension maxNumCurrencyPairs with
    | .ok new => do
      let (votes, all) ← pruneVotes maxNumCurrencyPairs rest (extendIds ids new)
      pure (vote :: votes, all)
    | .error _ => do
      let _ ← wrapErr "failed to construct validator address with base prefix"
        (tryBasePrefixed vote.validator.address)
      let pruned : ExtendedVoteInfo :=
        { vote with sigInfo := .flag .absent, voteExtension := [], extensionSignature := none }
      let (votes, all) ← pruneVotes maxNumCurrencyPairs rest ids
      pure (pruned :: votes, all)

/-- `ProposalHandler::prepare_proposal`. -/
def prepareExtendedCommitInfo (completion : Completion) (height : ℕ) (info : ExtendedCommitInfo) :
    AppM ExtendedCommitInfoWithMapping :=
  if height = 1 then pure { extendedCommitInfo := info, idToCurrencyPair := [] }
  else do
    let maxNum ← reads fun s => s.oracle.getNumCurrencyPairs
    let (votes, ids) ← onBase (pruneVotes maxNum info.votes [])
    let pruned : ExtendedCommitInfo := { info with votes := votes }
    wrapErr "failed to validate vote extensions in prepare_proposal"
      (onBase (validateVoteExtensions height pruned))
    let mapping ← wrapErr "failed to get id to currency pair mapping"
      (getIdToCurrencyPair completion ids)
    pure { extendedCommitInfo := pruned, idToCurrencyPair := mapping }

/-- The checks of one vote against the last commit: a vote pruned by the proposer may differ in
its flag. -/
def voteMatches (last : VoteInfo) (vote : ExtendedVoteInfo) : Except Report Unit :=
  if last.validator.address ≠ vote.validator.address then
    .error ["last commit vote address does not match extended commit vote address"]
  else if last.validator.power ≠ vote.validator.power then
    .error ["last commit vote power does not match extended commit vote power"]
  else if vote.sigInfo = .flag .absent ∧ vote.voteExtension = [] ∧ vote.extensionSignature = none then
    .ok ()
  else if vote.sigInfo ≠ last.sigInfo then
    .error ["last commit vote sig info does not match extended commit vote sig info"]
  else .ok ()

/-- The votes of two commits, one by one. -/
def votesMatch : List VoteInfo → List ExtendedVoteInfo → Except Report Unit
  | last :: lasts, vote :: votes =>
    match voteMatches last vote with
    | .ok _ => votesMatch lasts votes
    | .error e => .error e
  | _, _ => .ok ()

/-- `validate_extended_commit_against_last_commit`. -/
def validateAgainstLastCommit (last : CommitInfo) (info : ExtendedCommitInfo) :
    Except Report Unit :=
  if last.round ≠ info.round then
    .error ["last commit round does not match extended commit round"]
  else if last.votes.length ≠ info.votes.length then
    .error ["last commit votes length does not match extended commit votes length"]
  else votesMatch last.votes info.votes

/-- The ids of the prices of the votes of a proposal, every one of which has to be accepted. -/
def verifyVotes (maxNumCurrencyPairs : ℕ) :
    List ExtendedVoteInfo → List ℕ → Except Report (List ℕ)
  | [], ids => .ok ids
  | vote :: rest, ids =>
    match verifyVoteExtension vote.voteExtension maxNumCurrencyPairs with
    | .ok new => verifyVotes maxNumCurrencyPairs rest (extendIds ids new)
    | .error e => .error ("failed to verify vote extension in validate_proposal" :: e)

/-- `validate_id_to_currency_pair_mapping`. -/
def validateMapping (completion : Completion) (ids : List ℕ) (mapping : CurrencyPairMapping) :
    AppM Unit := do
  let expected ← wrapErr "failed to get id to currency pair mapping"
    (getIdToCurrencyPair completion ids)
  ensure (CurrencyPairMapping.same expected mapping = true)
    ["failed to validate currency pair mapping"]

/-- `ProposalHandler::validate_proposal`. -/
def validateExtendedCommitInfo (completion : Completion) (height : ℕ) (last : CommitInfo)
    (info : ExtendedCommitInfoWithMapping) : AppM Unit :=
  if height = 1 then pure ()
  else if info.extendedCommitInfo.votes = [] then
    ensure (last.round = info.extendedCommitInfo.round)
      ["last commit round does not match extended commit round"]
  else do
    lift (validateAgainstLastCommit last info.extendedCommitInfo)
    wrapErr "failed to validate vote extensions in validate_extended_commit_info"
      (onBase (validateVoteExtensions height info.extendedCommitInfo))
    let maxNum ← reads fun s => s.oracle.getNumCurrencyPairs
    let ids ← lift (verifyVotes maxNum info.extendedCommitInfo.votes [])
    validateMapping completion ids info.idToCurrencyPair

/-! ## Prices -/

/-- `i128::from_be_bytes`. -/
def i128FromBeBytes (bytes : Bytes) : ℤ :=
  let unsigned : ℕ := bytes.foldl (fun acc b => acc * 256 + b.toNat) 0
  if unsigned < 2 ^ 127 then (unsigned : ℤ) else (unsigned : ℤ) - 2 ^ 128

/-- `OracleVoteExtension::try_from_raw`: every price has 16 bytes. -/
def tryPricesFromRaw : RawOracleVoteExtension → Except Report (List (ℕ × ℤ))
  | [] => .ok []
  | (id, price) :: rest =>
    if price.length = 16 then
      match tryPricesFromRaw rest with
      | .ok prices => .ok ((id, i128FromBeBytes price) :: prices)
      | .error e => .error e
    else
      .error ["failed to convert raw price feed oracle vote extension to native",
        "failed decoding price value in .prices field for key `" ++ toString id ++ "`"]

/-- The decoded votes. -/
def decodeVotes : List ExtendedVoteInfo → Except Report (List (List (ℕ × ℤ)))
  | [] => .ok []
  | vote :: rest =>
    match codec.decodeOracleVoteExtension vote.voteExtension with
    | none => .error ["failed to decode price feed oracle vote extension"]
    | some raw =>
      match tryPricesFromRaw raw, decodeVotes rest with
      | .ok prices, .ok votes => .ok (prices :: votes)
      | .error e, _ => .error e
      | _, .error e => .error e

/-- A list of prices for every currency pair, in the order in which the pairs appear. -/
abbrev PriceLists := List (CurrencyPairInfo × List ℤ)

/-- `entry(currency_pair).and_modify(push).or_insert(vec![price])`. -/
def PriceLists.push (info : CurrencyPairInfo) (price : ℤ) : PriceLists → PriceLists
  | [] => [(info, [price])]
  | (i, prices) :: rest =>
    if i = info then (i, prices ++ [price]) :: rest else (i, prices) :: PriceLists.push info price rest

/-- The price lists after one more voted price: one for an id without a pair is skipped. -/
def collectPrice (mapping : CurrencyPairMapping) (lists : PriceLists) (price : ℕ × ℤ) :
    PriceLists :=
  match CurrencyPairMapping.get mapping price.1 with
  | none => lists
  | some info => PriceLists.push info price.2 lists

/-- `median`. -/
def median (prices : List ℤ) : Option ℤ :=
  let sorted := prices.insertionSort (· ≤ ·)
  let midpoint := sorted.length / 2
  if sorted.length % 2 = 1 then sorted[midpoint]?
  else
    match sorted[midpoint]?, sorted[midpoint - 1]? with
    | some high, some low =>
      let sum := high.tdiv 2 + low.tdiv 2
      some (if high.tmod 2 = 1 ∧ low.tmod 2 = 1 then sum + 1 else sum)
    | _, _ => none

/-- `aggregate_oracle_votes`: the median price of every currency pair. -/
def aggregateOracleVotes (votes : List (List (ℕ × ℤ))) (mapping : CurrencyPairMapping) :
    List (CurrencyPair × ℤ) :=
  (votes.flatten.foldl (collectPrice mapping) []).filterMap fun entry =>
    (median entry.2).map fun price => (entry.1.currencyPair, price)

/-- `calculate_prices_from_vote_extensions`. -/
def calculatePrices (info : ExtendedCommitInfoWithMapping) :
    Except Report (List (CurrencyPair × ℤ)) :=
  match decodeVotes info.extendedCommitInfo.votes with
  | .error e => .error e
  | .ok votes => .ok (aggregateOracleVotes votes info.idToCurrencyPair)

/-- One price is put and its event is recorded. -/
def putPrice (time : Time) (height : ℕ) (price : CurrencyPair × ℤ) : AppM Unit := do
  wrapErr "failed to put price"
    (onOracle (putPriceForCurrencyPair price.1
      { price := price.2, blockTimestamp := time, blockHeight := height }))
  onBase (writes (Base.record (.priceUpdate price.1 price.2)))

/-- `apply_prices_from_vote_extensions`. -/
def applyPrices (info : ExtendedCommitInfoWithMapping) (time : Time) (height : ℕ) : AppM Unit := do
  let prices ← wrapErr "failed to calculate prices from vote extensions"
    (lift (calculatePrices info))
  forEach prices (putPrice time height)

end

end Astria.Sequencer
