import Astria.Core.Prices
import Astria.Lib.IndexMap
import Astria.Sequencer.OracleStore
import Astria.Sequencer.SkipExecution

/-!
# Making vote extensions

A validator attaches the prices of its oracle sidecar to its vote, by the ids of their currency pairs
(`app/vote_extension.rs`, lines 66–212, `astria-core/src/oracles/price_feed/service.rs`).  The ids are
looked up concurrently: `PriceCompletion` stands for the order in which a node happens to finish them.  A
validator without prices attaches nothing.

Results:
* `i128FromBeBytes_toBeBytes`: prices are read back from their bytes;
* `handleExtendVote_accepted`: what a validator attaches is accepted, and says what its sidecar has said.
-/

namespace Astria.Sequencer

open Astria.Core Astria.Lib Exec

/-! ## The prices of the sidecar -/

/-- `CurrencyPair::from_str`: the two sides of the first slash. -/
def parseCurrencyPair (s : String) : Option CurrencyPair :=
  match s.toList.span (· ≠ '/') with
  | (base, _ :: quote) => CurrencyPair.tryFromRaw (String.ofList base) (String.ofList quote)
  | (_, []) => none

/-- `Price::from_str`, which is `i128::from_str`: decimal digits after an optional sign. -/
def parsePrice (s : String) : Option ℤ :=
  let (negative, digits) := match s.toList with
    | '-' :: rest => (true, rest)
    | '+' :: rest => (false, rest)
    | chars => (false, chars)
  if digits = [] ∨ digits.any (fun c => !('0' ≤ c && c ≤ '9')) then none
  else
    let value : ℕ := digits.foldl (fun acc c => acc * 10 + (c.toNat - 48)) 0
    Machine.toI128 (if negative then -(value : ℤ) else value)

/-- A pair and a price of a response. -/
def parsePriceEntry (entry : String × String) : Option (CurrencyPair × ℤ) := do
  let pair ← parseCurrencyPair entry.1
  let price ← parsePrice entry.2
  some (pair, price)

/-- `QueryPricesResponse::try_from_raw`: the prices of a response. -/
def tryResponseFromRaw (raw : List (String × String)) : Option (IndexMap CurrencyPair ℤ) :=
  (raw.mapM parsePriceEntry).map IndexMap.collect

example : (tryResponseFromRaw [("BTC/USD", "-5"), ("ETH/USD", "7")]).map
    (fun prices => prices.entries.map fun entry => (entry.1.toString, entry.2)) =
      some [("BTC/USD", -5), ("ETH/USD", 7)] := by decide

/-! ## Vote extensions -/

/-- The order in which the lookups of the ids of a response are completed. -/
structure PriceCompletion where
  order : List (CurrencyPair × ℤ) → List (CurrencyPair × ℤ)
  perm : ∀ entries, (order entries).Perm entries

/-- `transform_oracle_service_prices`: the prices by id; a pair without an id is skipped. -/
def transformOracleServicePrices (completion : PriceCompletion) (o : Oracle)
    (prices : IndexMap CurrencyPair ℤ) : IndexMap ℕ ℤ :=
  .collect ((completion.order prices.entries).filterMap fun entry =>
    (o.pairToId entry.1).map fun id => (id, entry.2))

/-- `i128::to_be_bytes`. -/
def i128ToBeBytes (x : ℤ) : Bytes := Sha256.bigEndian 16 (x % 2 ^ 128).toNat

/-- `OracleVoteExtension::into_raw`: the ids ascend. -/
def pricesIntoRaw (prices : IndexMap ℕ ℤ) : RawOracleVoteExtension :=
  IndexMap.sortEntries (· < ·) (prices.entries.map fun entry => (entry.1, i128ToBeBytes entry.2))

/-- The encoding of vote extensions. -/
class VoteExtensionCodec where
  /-- `RawOracleVoteExtension::encode_to_vec`. -/
  encodeOracleVoteExtension : RawOracleVoteExtension → Bytes

/-- The answer of the sidecar, if there is one: its prices, or an error. -/
abbrev Sidecar := Option (Except String (List (String × String)))

section

variable [codec : VoteExtensionCodec]

/-- `Handler::extend_vote`. -/
def extendVote (completion : PriceCompletion) (sidecar : Sidecar) (o : Oracle) : Except Report Bytes :=
  match sidecar with
  | none => .error ["oracle client not set"]
  | some (.error e) => .error ["failed to get prices from oracle sidecar: " ++ e]
  | some (.ok raw) =>
    match tryResponseFromRaw raw with
    | none => .error ["failed to validate prices server response"]
    | some prices =>
      .ok (codec.encodeOracleVoteExtension
        (pricesIntoRaw (transformOracleServicePrices completion o prices)))

/-- The prices that the sidecar has sent, if it has answered and all its texts parse. -/
def Sidecar.response (sidecar : Sidecar) : Option (IndexMap CurrencyPair ℤ) :=
  match sidecar with
  | some (.ok raw) => tryResponseFromRaw raw
  | _ => none

/-- `Consensus::handle_extend_vote`: a validator that fails attaches nothing. -/
def handleExtendVote (completion : PriceCompletion) (sidecar : Sidecar) (o : Oracle) : Bytes :=
  match extendVote completion sidecar o with
  | .ok bytes => bytes
  | .error _ => []

/-- `Handler::verify_vote_extension`: whether a vote extension is accepted. -/
def handleVerifyVoteExtension [BlockCodec] (bytes : Bytes) (o : Oracle) : Bool :=
  if bytes = [] then true
  else
    match verifyVoteExtension bytes o.getNumCurrencyPairs with
    | .ok _ => true
    | .error _ => false

/-- What is assumed of the encoding: no prices take no bytes, and the prices of a map from ids of 64 bits
are read back. -/
structure VoteExtensionCodec.Laws [BlockCodec] : Prop where
  nil : codec.encodeOracleVoteExtension [] = []
  decodes : ∀ raw : RawOracleVoteExtension, SortedMap.Sorted (· < ·) raw →
    (∀ entry ∈ raw, entry.1 ≤ u64Max ∧ entry.2.length = 16) →
    BlockCodec.decodeOracleVoteExtension (codec.encodeOracleVoteExtension raw) = some raw

end

/-! ## Prices as bytes -/

theorem foldl_bigEndian (n x : ℕ) :
    (Sha256.bigEndian n x).foldl (fun acc b => acc * 256 + b.toNat) 0 = x % 256 ^ n := by
  induction n generalizing x with
  | zero => simp [Sha256.bigEndian, Nat.mod_one]
  | succ n ih =>
    rw [Sha256.bigEndian, List.foldl_append, ih]
    have hbyte : (UInt8.ofNat (x % 256)).toNat = x % 256 := by
      rw [UInt8.toNat_ofNat']
      omega
    rw [List.foldl_cons, List.foldl_nil, hbyte, pow_succ', Nat.mod_mul]
    omega

theorem length_i128ToBeBytes (x : ℤ) : (i128ToBeBytes x).length = 16 := Sha256.length_bigEndian 16 _

/-- Prices are read back from their bytes. -/
theorem i128FromBeBytes_toBeBytes {x : ℤ} (h : IsI128 x) : i128FromBeBytes (i128ToBeBytes x) = x := by
  obtain ⟨hlow, hhigh⟩ := h
  have hunsigned : (i128ToBeBytes x).foldl (fun acc b => acc * 256 + b.toNat) 0 = (x % 2 ^ 128).toNat := by
    unfold i128ToBeBytes
    rw [foldl_bigEndian]
    exact Nat.mod_eq_of_lt (by omega)
  unfold i128FromBeBytes
  rw [hunsigned]
  dsimp only
  split_ifs <;> omega

theorem parsePrice_isI128 {s : String} {price : ℤ} (h : parsePrice s = some price) : IsI128 price := by
  have htoI128 {x : ℤ} (hx : Machine.toI128 x = some price) : IsI128 price := by
    unfold Machine.toI128 at hx
    split_ifs at hx with hi
    obtain rfl := Option.some.inj hx
    exact hi
  unfold parsePrice at h
  dsimp only at h
  split_ifs at h <;> exact htoI128 h

/-- What is read from a list of texts is read from its elements. -/
theorem mem_of_mapM_eq_some {α β : Type} {f : α → Option β} {l : List α} {l' : List β} {b : β}
    (h : l.mapM f = some l') (hb : b ∈ l') : ∃ a ∈ l, f a = some b := by
  induction l generalizing l' with
  | nil =>
    obtain rfl := Option.some.inj h
    cases hb
  | cons a l ih =>
    rw [List.mapM_cons] at h
    obtain ⟨c, hc, h⟩ := Option.bind_eq_some_iff.mp h
    obtain ⟨cs, hcs, h⟩ := Option.bind_eq_some_iff.mp h
    obtain rfl := Option.some.inj h
    rcases List.mem_cons.mp hb with rfl | hb
    · exact ⟨a, List.mem_cons_self, hc⟩
    · obtain ⟨a', hmem, ha'⟩ := ih hcs hb
      exact ⟨a', List.mem_cons_of_mem a hmem, ha'⟩

/-- The prices of a response have 128 bits. -/
theorem tryResponseFromRaw_isI128 {raw : List (String × String)} {prices : IndexMap CurrencyPair ℤ}
    (h : tryResponseFromRaw raw = some prices) : ∀ entry ∈ prices.entries, IsI128 entry.2 := by
  obtain ⟨parsed, hparsed, rfl⟩ := Option.map_eq_some_iff.mp h
  intro entry hentry
  obtain ⟨text, -, htext⟩ := mem_of_mapM_eq_some hparsed (IndexMap.mem_of_mem_collect hentry)
  obtain ⟨pair, -, htext⟩ := Option.bind_eq_some_iff.mp htext
  obtain ⟨price, hprice, htext⟩ := Option.bind_eq_some_iff.mp htext
  obtain rfl := Option.some.inj htext
  exact parsePrice_isI128 hprice

theorem Sidecar.response_isI128 {sidecar : Sidecar} {response : IndexMap CurrencyPair ℤ}
    (h : sidecar.response = some response) : ∀ entry ∈ response.entries, IsI128 entry.2 := by
  unfold Sidecar.response at h
  split at h
  · exact tryResponseFromRaw_isI128 h
  · cases h

/-! ## What a validator attaches -/

section

variable {o : Oracle} {prices : IndexMap CurrencyPair ℤ}

/-- The ids of different pairs differ, so that the map of the prices is as the lookups are completed. -/
theorem entries_transform (ho : o.Consistent) (completion : PriceCompletion) :
    (transformOracleServicePrices completion o prices).entries =
      (completion.order prices.entries).filterMap fun entry =>
        (o.pairToId entry.1).map fun id => (id, entry.2) := by
  refine IndexMap.entries_collect ?_
  have hkeys : (((completion.order prices.entries).filterMap fun entry =>
      (o.pairToId entry.1).map fun id => (id, entry.2)).map (·.1)) =
        ((completion.order prices.entries).map (·.1)).filterMap o.pairToId := by
    rw [List.map_filterMap, List.filterMap_map]
    refine List.filterMap_congr fun entry _ => ?_
    change Option.map _ (Option.map _ _) = o.pairToId entry.1
    cases o.pairToId entry.1 <;> rfl
  rw [hkeys]
  refine List.Nodup.filterMap (fun pair pair' id hid hid' => ?_) ?_
  · have hpair := (ho.inverse pair id).mp hid
    have hpair' := (ho.inverse pair' id).mp hid'
    exact Option.some.inj (hpair.symm.trans hpair')
  · exact ((completion.perm prices.entries).map _).nodup_iff.mpr prices.nodup

/-- What is attached for a pair under its id. -/
theorem get_transform (ho : o.Consistent) (completion : PriceCompletion) {id : ℕ} {price : ℤ} :
    (transformOracleServicePrices completion o prices).get id = some price ↔
      ∃ pair, o.idToPair id = some pair ∧ prices.get pair = some price := by
  simp only [IndexMap.get_eq_some, entries_transform ho, List.mem_filterMap, Option.map_eq_some_iff]
  constructor
  · rintro ⟨⟨pair, price'⟩, hmem, id', hid, heq⟩
    obtain ⟨rfl, rfl⟩ := Prod.mk.inj heq
    exact ⟨pair, (ho.inverse pair id').mp hid, (completion.perm _).mem_iff.mp hmem⟩
  · rintro ⟨pair, hpair, hmem⟩
    exact ⟨(pair, price), (completion.perm _).mem_iff.mpr hmem, id, (ho.inverse pair id).mpr hpair, rfl⟩

/-- There are at most as many prices as pairs. -/
theorem length_transform (ho : o.Consistent) (completion : PriceCompletion) :
    (transformOracleServicePrices completion o prices).entries.length ≤ o.getNumCurrencyPairs := by
  let pairs := prices.keys.filter fun pair => (o.pairToId pair).isSome
  have hlength : (transformOracleServicePrices completion o prices).entries.length = pairs.length := by
    rw [entries_transform ho, ((completion.perm prices.entries).filterMap _).length_eq,
      List.length_filterMap_eq_countP, ← List.countP_eq_length_filter]
    unfold IndexMap.keys
    rw [List.countP_map]
    exact List.countP_congr fun entry _ => by simp
  have hsub : (pairs.toFinset : Set CurrencyPair) ⊆ o.storedPairs := by
    intro pair hpair
    have hsome : (o.pairToId pair).isSome = true := by
      have hmem := List.mem_toFinset.mp (Finset.mem_coe.mp hpair)
      exact (List.mem_filter.mp hmem).2
    rw [ho.id, Option.isSome_map] at hsome
    exact hsome
  have hcard := Set.encard_le_encard hsub
  rw [ho.count, Set.encard_coe_eq_coe_finsetCard, List.toFinset_card_of_nodup] at hcard
  · rw [hlength]
    exact_mod_cast hcard
  · exact prices.nodup.filter _

end

/-! ## The raw prices -/

/-- The prices with their bytes. -/
def priceBytes (prices : IndexMap ℕ ℤ) : IndexMap ℕ Bytes :=
  { entries := prices.entries.map fun entry => (entry.1, i128ToBeBytes entry.2)
    nodup := by
      rw [List.map_map]
      exact prices.nodup }

theorem pricesIntoRaw_eq (prices : IndexMap ℕ ℤ) :
    pricesIntoRaw prices = ((priceBytes prices).sortKeys (· < ·)).entries := rfl

theorem sorted_pricesIntoRaw (prices : IndexMap ℕ ℤ) :
    SortedMap.Sorted (· < ·) (pricesIntoRaw prices) :=
  IndexMap.sorted_sortEntries _ _

theorem mem_pricesIntoRaw {prices : IndexMap ℕ ℤ} {id : ℕ} {bytes : Bytes} :
    (id, bytes) ∈ pricesIntoRaw prices ↔
      ∃ price, prices.get id = some price ∧ i128ToBeBytes price = bytes := by
  rw [pricesIntoRaw_eq, ← IndexMap.get_eq_some, IndexMap.get_sortKeys, IndexMap.get_eq_some]
  constructor
  · intro hmem
    obtain ⟨⟨id', price⟩, hprice, heq⟩ := List.mem_map.mp hmem
    obtain ⟨rfl, rfl⟩ := Prod.mk.inj heq
    exact ⟨price, IndexMap.get_eq_some.mpr hprice, rfl⟩
  · rintro ⟨price, hprice, rfl⟩
    exact List.mem_map.mpr ⟨(id, price), IndexMap.get_eq_some.mp hprice, rfl⟩

/-- The raw prices depend on what the ids are mapped to only. -/
theorem pricesIntoRaw_ext {prices prices' : IndexMap ℕ ℤ} (h : ∀ id, prices.get id = prices'.get id) :
    pricesIntoRaw prices = pricesIntoRaw prices' := by
  refine (sorted_pricesIntoRaw prices).ext (sorted_pricesIntoRaw prices') fun id => ?_
  apply Option.ext
  intro bytes
  rw [(sorted_pricesIntoRaw prices).lookup_eq_some, (sorted_pricesIntoRaw prices').lookup_eq_some,
    mem_pricesIntoRaw, mem_pricesIntoRaw, h]

theorem length_pricesIntoRaw (prices : IndexMap ℕ ℤ) :
    (pricesIntoRaw prices).length = prices.entries.length := by
  have hperm : (pricesIntoRaw prices).Perm (priceBytes prices).entries := by
    refine (List.perm_ext_iff_of_nodup ?_ ?_).mpr fun entry => ?_
    · exact List.Nodup.of_map _ (sorted_pricesIntoRaw prices).nodup
    · exact List.Nodup.of_map _ (priceBytes prices).nodup
    · rw [pricesIntoRaw_eq, ← IndexMap.get_eq_some, IndexMap.get_sortKeys, IndexMap.get_eq_some]
  rw [hperm.length_eq]
  exact List.length_map _

theorem tryPricesFromRaw_of_length {raw : RawOracleVoteExtension} (h : ∀ entry ∈ raw, entry.2.length = 16) :
    tryPricesFromRaw raw = .ok (raw.map fun entry => (entry.1, i128FromBeBytes entry.2)) := by
  induction raw with
  | nil => rfl
  | cons entry rest ih =>
    obtain ⟨hentry, hrest⟩ := List.forall_mem_cons.mp h
    rw [tryPricesFromRaw, if_pos hentry, ih hrest]
    rfl

/-- Raw prices of 128 bits are read back. -/
theorem tryPricesFromRaw_pricesIntoRaw {prices : IndexMap ℕ ℤ}
    (h : ∀ entry ∈ prices.entries, IsI128 entry.2) :
    ∃ native, tryPricesFromRaw (pricesIntoRaw prices) = .ok native ∧
      ∀ id price, (id, price) ∈ native ↔ prices.get id = some price := by
  have hlength : ∀ entry ∈ pricesIntoRaw prices, entry.2.length = 16 := by
    rintro ⟨id, bytes⟩ hmem
    obtain ⟨price, -, rfl⟩ := mem_pricesIntoRaw.mp hmem
    exact length_i128ToBeBytes price
  refine ⟨_, tryPricesFromRaw_of_length hlength, fun id price => ?_⟩
  have hread {price : ℤ} (hget : prices.get id = some price) :
      i128FromBeBytes (i128ToBeBytes price) = price :=
    i128FromBeBytes_toBeBytes (h _ (IndexMap.get_eq_some.mp hget))
  rw [List.mem_map]
  constructor
  · rintro ⟨⟨id', bytes⟩, hmem, heq⟩
    obtain ⟨rfl, hprice⟩ := Prod.mk.inj heq
    obtain ⟨price', hget, hbytes⟩ := mem_pricesIntoRaw.mp hmem
    rw [← hbytes, hread hget] at hprice
    rw [hget, hprice]
  · intro hget
    refine ⟨(id, i128ToBeBytes price), mem_pricesIntoRaw.mpr ⟨price, hget, rfl⟩, ?_⟩
    dsimp only
    rw [hread hget]

/-! ## Answers of the sidecar -/

section

variable [VoteExtensionCodec]

theorem handleExtendVote_none (completion : PriceCompletion) {sidecar : Sidecar} (o : Oracle)
    (h : sidecar.response = none) : handleExtendVote completion sidecar o = [] := by
  unfold handleExtendVote extendVote
  cases sidecar with
  | none => rfl
  | some result =>
    cases result with
    | error e => rfl
    | ok raw =>
      have hraw : tryResponseFromRaw raw = none := h
      dsimp only
      rw [hraw]

theorem handleExtendVote_some (completion : PriceCompletion) {sidecar : Sidecar} (o : Oracle)
    {response : IndexMap CurrencyPair ℤ} (h : sidecar.response = some response) :
    handleExtendVote completion sidecar o = VoteExtensionCodec.encodeOracleVoteExtension
      (pricesIntoRaw (transformOracleServicePrices completion o response)) := by
  unfold handleExtendVote extendVote
  cases sidecar with
  | none => cases h
  | some result =>
    cases result with
    | error e => cases h
    | ok raw =>
      have hraw : tryResponseFromRaw raw = some response := h
      dsimp only
      rw [hraw]

end

/-! ## Vote extensions of a run -/

section

variable [VoteExtensionCodec] [BlockCodec] {o : Oracle}

/-- What a validator attaches: the prices of its sidecar, whichever lookup is completed first, or nothing. -/
theorem handleExtendVote_eq (hlaws : VoteExtensionCodec.Laws) (ho : o.Consistent) (sidecar : Sidecar) :
    ∃ prices : IndexMap ℕ ℤ, (∀ completion, handleExtendVote completion sidecar o =
        VoteExtensionCodec.encodeOracleVoteExtension (pricesIntoRaw prices)) ∧
      prices.entries.length ≤ o.getNumCurrencyPairs ∧
      (∀ id price, prices.get id = some price → IsI128 price) ∧
      ∀ id price, prices.get id = some price ↔ ∃ response pair, sidecar.response = some response ∧
        o.idToPair id = some pair ∧ response.get pair = some price := by
  cases hresponse : sidecar.response with
  | none =>
    refine ⟨IndexMap.empty, fun completion => ?_, Nat.zero_le _, ?_, fun id price => ?_⟩
    · rw [handleExtendVote_none completion o hresponse]
      exact hlaws.nil.symm
    · intro id price hprice
      cases hprice
    · constructor
      · intro hprice
        cases hprice
      · rintro ⟨response, pair, hsome, -⟩
        cases hsome
  | some response =>
    let first : PriceCompletion := { order := id, perm := List.Perm.refl }
    refine ⟨transformOracleServicePrices first o response, fun completion => ?_,
      length_transform ho first, fun id price hprice => ?_, fun id price => ?_⟩
    · rw [handleExtendVote_some completion o hresponse, pricesIntoRaw_ext fun id =>
        Option.ext fun price => (get_transform ho completion).trans (get_transform ho first).symm]
    · obtain ⟨pair, -, hget⟩ := (get_transform ho first).mp hprice
      exact Sidecar.response_isI128 hresponse _ (IndexMap.get_eq_some.mp hget)
    · rw [get_transform ho first]
      constructor
      · rintro ⟨pair, hpair, hget⟩
        exact ⟨response, pair, rfl, hpair, hget⟩
      · rintro ⟨response', pair, hsome, hpair, hget⟩
        obtain rfl := Option.some.inj hsome
        exact ⟨pair, hpair, hget⟩

omit [VoteExtensionCodec] in
/-- Prices leave the number of pairs. -/
theorem applyPrices_numCurrencyPairs {info : ExtendedCommitInfoWithMapping} {time : Time} {height : ℕ}
    {s s' : State} {r : Unit × List Event} (h : applyDelta (applyPrices info time height) s = .ok r s') :
    s'.oracle.getNumCurrencyPairs = s.oracle.getNumCurrencyPairs := by
  obtain ⟨_, t, happly, -, rfl⟩ := applyDelta_eq_ok.mp h
  simp only [applyPrices, bind_eq_ok, mapErr_eq_ok, lift_eq_ok] at happly
  obtain ⟨prices, t₀, ⟨-, rfl⟩, hprices⟩ := happly
  refine forEach_invariant
    (I := fun t => t.oracle.getNumCurrencyPairs = s.oracle.getNumCurrencyPairs)
    (fun price _ t t' ht hput => ?_) rfl hprices
  simp only [putPrice, bind_eq_ok, mapErr_eq_ok] at hput
  obtain ⟨_, q, hput, hrecord⟩ := hput
  obtain ⟨o, hrun, rfl⟩ := onOracle_eq_ok.mp hput
  rw [onBase_oracle hrecord]
  simp only [putPriceForCurrencyPair, bind_eq_ok, reads_eq_ok, require_eq_ok, writes_eq_ok] at hrun
  obtain ⟨_, _, ⟨-, rfl⟩, state, _, ⟨-, rfl⟩, nonce, _, ⟨-, rfl⟩, rfl⟩ := hrun
  exact ht

variable [External] [UpgradeCodec] [TransactionCodec] {handler : UpgradesHandler}

/-- In every state after a valid genesis the vote extension of a validator with any sidecar is accepted,
also by the proposer of the next block, once the prices of this one were applied.  Its prices are those of
the sidecar, under the ids of their pairs, and without a response of the sidecar it is empty. -/
theorem handleExtendVote_accepted (hlaws : VoteExtensionCodec.Laws) {genesis : OracleGenesis}
    (hvalid : genesis.Valid) {s₀ s : State}
    (hgenesis : genesis.handleGenesis Oracle.empty = .ok () s₀.oracle) (hrun : OracleRun handler s₀ s)
    (hnext : s.oracle.getNextCurrencyPairId ≤ u64Max) (completion : PriceCompletion) (sidecar : Sidecar) :
    let bytes := handleExtendVote completion sidecar s.oracle
    (∀ completion', handleExtendVote completion' sidecar s.oracle = bytes) ∧
      handleVerifyVoteExtension bytes s.oracle = true ∧
      (∀ info time height r s', applyDelta (applyPrices info time height) s = .ok r s' →
        ∃ ids, verifyVoteExtension bytes s'.oracle.getNumCurrencyPairs = .ok ids) ∧
      (sidecar.response = none → bytes = []) ∧
      ∃ raw native, BlockCodec.decodeOracleVoteExtension bytes = some raw ∧
        tryPricesFromRaw raw = .ok native ∧
        ∀ id price, (id, price) ∈ native ↔ ∃ response pair, sidecar.response = some response ∧
          s.oracle.idToPair id = some pair ∧ response.get pair = some price := by
  have ho : s.oracle.Consistent := (hrun.evolves (OracleGenesis.handleGenesis_consistent hvalid hgenesis)).1
  obtain ⟨prices, hbytes, hlength, hsound, hresponse⟩ := handleExtendVote_eq hlaws ho sidecar
  intro bytes
  have hraw : BlockCodec.decodeOracleVoteExtension bytes = some (pricesIntoRaw prices) := by
    change BlockCodec.decodeOracleVoteExtension (handleExtendVote completion sidecar s.oracle) = _
    rw [hbytes]
    refine hlaws.decodes _ (sorted_pricesIntoRaw prices) ?_
    rintro ⟨id, price⟩ hmem
    obtain ⟨price, hget, rfl⟩ := mem_pricesIntoRaw.mp hmem
    obtain ⟨-, pair, -, hpair, -⟩ := (hresponse id price).mp hget
    have hbelow := ho.below pair id ((ho.inverse pair id).mpr hpair)
    exact ⟨hbelow.le.trans hnext, length_i128ToBeBytes price⟩
  have hverify : verifyVoteExtension bytes s.oracle.getNumCurrencyPairs =
      .ok ((pricesIntoRaw prices).map (·.1)) := by
    have hcount : ¬s.oracle.getNumCurrencyPairs < (pricesIntoRaw prices).length := by
      rw [length_pricesIntoRaw]
      exact Nat.not_lt.mpr hlength
    have hshort : ((pricesIntoRaw prices).any fun price => maximumPriceByteLen < price.2.length) = false := by
      rw [List.any_eq_false]
      rintro ⟨id, price⟩ hmem
      obtain ⟨price, -, rfl⟩ := mem_pricesIntoRaw.mp hmem
      simp [length_i128ToBeBytes, maximumPriceByteLen]
    unfold verifyVoteExtension
    rw [hraw]
    dsimp only
    rw [if_neg hcount, hshort, if_neg Bool.false_ne_true]
  obtain ⟨native, hnative, hmem⟩ := tryPricesFromRaw_pricesIntoRaw fun entry hentry =>
    hsound entry.1 entry.2 (IndexMap.get_eq_some.mpr hentry)
  refine ⟨fun completion' => ?_, ?_, fun info time height r s' happly => ?_,
    handleExtendVote_none completion s.oracle, pricesIntoRaw prices, native, hraw, hnative,
    fun id price => ?_⟩
  · exact (hbytes completion').trans (hbytes completion).symm
  · unfold handleVerifyVoteExtension
    rw [hverify]
    exact ite_self true
  · rw [applyPrices_numCurrencyPairs happly]
    exact ⟨_, hverify⟩
  · exact (hmem id price).trans (hresponse id price)

end

/-! ## A vote extension with one price -/

namespace TestPrices

open TestUtils TestVotes TestNode

/-- `OracleVoteExtension` of `connect/abci/v2`. -/
scoped instance : VoteExtensionCodec where
  encodeOracleVoteExtension raw :=
    raw.flatMap fun entry => messageField 1 (uint64Field 1 entry.1 ++ bytesField 2 entry.2)

/-- A number is read. -/
theorem readFields_uint64Field (fuel : ℕ) {number x : ℕ} (hnumber : number ≤ 15) (hx : x ≤ u64Max)
    (hpos : x ≠ 0) (rest : Bytes) :
    readFields (fuel + 1) (uint64Field number x ++ rest) =
      (readFields fuel rest).map fun fields => (number, .number x) :: fields := by
  have hbytes : uint64Field number x ++ rest ≠ [] := by
    unfold uint64Field varint
    rw [if_neg hpos]
    split_ifs <;> simp
  have htag : 8 * number < 128 ^ (9 + 1) := by omega
  have hvalue : x < 128 ^ (9 + 1) := hx.trans_lt (by decide)
  have hsplit : uint64Field number x ++ rest = varint 10 (8 * number) ++ (varint 10 x ++ rest) := by
    simp [uint64Field, hpos]
  have hmod : 8 * number % 8 = 0 := by omega
  have hdiv : 8 * number / 8 = number := by omega
  rw [readFields.eq_3 _ _ hbytes, hsplit, readVarint_varint 9 htag]
  dsimp only [Option.bind_eq_bind, Option.bind_some]
  rw [readVarint_varint 9 hvalue]
  dsimp only [Option.bind_some]
  rw [hmod, hdiv, if_pos rfl]
  cases readFields fuel rest <;> rfl

/-- An entry is read back. -/
theorem readPrice_entry {id : ℕ} {price : Bytes} (hid : id ≤ u64Max) (hprice : price.length = 16) :
    readPrice (uint64Field 1 id ++ bytesField 2 price) = some (id, price) := by
  have hne : price ≠ [] := fun hnil => by
    rw [hnil] at hprice
    cases hprice
  have hfield : bytesField 2 price = messageField 2 price := if_neg hne
  have hmessage (fuel : ℕ) : readFields (fuel + 1) (messageField 2 price) =
      some [(2, .bytes price)] := by
    have hread := readFields_messageField fuel (by decide : 2 ≤ 15) (hprice.trans_le (by decide)) []
    rw [List.append_nil] at hread
    rw [hread]
    cases fuel <;> rfl
  have hpos := length_messageField_pos 2 price
  unfold readPrice
  rw [hfield]
  by_cases hzero : id = 0
  · have hempty : uint64Field 1 id = [] := if_pos hzero
    obtain ⟨fuel, hfuel⟩ : ∃ fuel, (messageField 2 price).length = fuel + 1 :=
      ⟨(messageField 2 price).length - 1, by omega⟩
    rw [hempty, List.nil_append, hfuel, hmessage, hzero]
    rfl
  · have hnumber : 0 < (uint64Field 1 id).length := by
      unfold uint64Field varint
      rw [if_neg hzero]
      split_ifs <;> simp
    obtain ⟨fuel, hfuel⟩ : ∃ fuel, (uint64Field 1 id ++ messageField 2 price).length = fuel + 1 + 1 := by
      rw [List.length_append]
      exact ⟨(uint64Field 1 id).length + (messageField 2 price).length - 2, by omega⟩
    rw [hfuel, readFields_uint64Field (fuel + 1) (by decide) hid hzero, hmessage]
    rfl

/-- A price goes behind those with smaller ids. -/
theorem insertPrice_last {id : ℕ} {price : Bytes} {prices : RawOracleVoteExtension}
    (h : ∀ entry ∈ prices, entry.1 < id) : insertPrice id price prices = prices ++ [(id, price)] := by
  induction prices with
  | nil => rfl
  | cons entry rest ih =>
    obtain ⟨hentry, hrest⟩ := List.forall_mem_cons.mp h
    rw [insertPrice, if_neg (by omega), if_neg (by omega), ih hrest]
    rfl

theorem length_varint_le (fuel x : ℕ) : (varint fuel x).length ≤ fuel := by
  induction fuel generalizing x with
  | zero => exact Nat.le_refl 0
  | succ fuel ih =>
    rw [varint]
    split_ifs
    · simp
    · rw [List.length_cons]
      exact Nat.succ_le_succ (ih (x / 128))

theorem length_entry_le (id : ℕ) {price : Bytes} (hprice : price.length = 16) :
    (uint64Field 1 id ++ bytesField 2 price).length ≤ u64Max := by
  have hid : (uint64Field 1 id).length ≤ 20 := by
    unfold uint64Field
    split_ifs
    · exact Nat.zero_le 20
    · rw [List.length_append]
      exact Nat.add_le_add (length_varint_le 10 _) (length_varint_le 10 id)
  have hbytes : (bytesField 2 price).length ≤ 36 := by
    unfold bytesField messageField
    split_ifs
    · exact Nat.zero_le 36
    · have htag := length_varint_le 10 (8 * 2 + 2)
      have hlength := length_varint_le 10 price.length
      rw [List.length_append, List.length_append]
      omega
  rw [List.length_append]
  exact (Nat.add_le_add hid hbytes).trans (by decide)

/-- Prices that ascend are read one behind the other. -/
theorem readPrices_flatMap {raw : RawOracleVoteExtension} (hsorted : SortedMap.Sorted (· < ·) raw)
    (hraw : ∀ entry ∈ raw, entry.1 ≤ u64Max ∧ entry.2.length = 16) :
    TestVotes.readPrices (VoteExtensionCodec.encodeOracleVoteExtension raw) = some raw := by
  let message (entry : ℕ × Bytes) : Bytes := uint64Field 1 entry.1 ++ bytesField 2 entry.2
  have hencode : VoteExtensionCodec.encodeOracleVoteExtension raw =
      (raw.map message).flatMap (messageField 1) := (List.flatMap_map ..).symm
  have hsize : ∀ bytes ∈ raw.map message, bytes.length ≤ u64Max := by
    intro bytes hmem
    obtain ⟨entry, hentry, rfl⟩ := List.mem_map.mp hmem
    exact length_entry_le entry.1 (hraw entry hentry).2
  have hfold {f : RawOracleVoteExtension → ℕ × FieldValue → Option RawOracleVoteExtension}
      (hf : ∀ acc bs, f acc (1, .bytes bs) =
        (readPrice bs).map fun entry => insertPrice entry.1 entry.2 acc) :
      ∀ acc : RawOracleVoteExtension, SortedMap.Sorted (· < ·) (acc ++ raw) →
        ((raw.map message).map fun bs => (1, FieldValue.bytes bs)).foldlM f acc = some (acc ++ raw) := by
    clear hencode hsize hsorted
    induction raw with
    | nil => intro acc _; simp
    | cons entry rest ih =>
      intro acc hsorted
      obtain ⟨⟨hid, hprice⟩, hrest⟩ := List.forall_mem_cons.mp hraw
      have hlast : ∀ entry' ∈ acc, entry'.1 < entry.1 := fun entry' hmem =>
        (List.pairwise_append.mp hsorted).2.2 entry' hmem entry List.mem_cons_self
      have happend : acc ++ entry :: rest = (acc ++ [entry]) ++ rest := by simp
      rw [List.map_cons, List.map_cons, List.foldlM_cons, hf, readPrice_entry hid hprice, Option.map_some,
        insertPrice_last hlast, happend]
      exact ih hrest (acc ++ [entry]) (happend ▸ hsorted)
  unfold TestVotes.readPrices
  rw [hencode, readFields_flatMap _ (Nat.le_refl _) hsize]
  exact hfold (fun _ _ => rfl) [] hsorted

theorem laws : VoteExtensionCodec.Laws := ⟨rfl, fun _ hsorted hraw => readPrices_flatMap hsorted hraw⟩

/-- The test genesis of the oracle, when the pair with the id 0 was removed and one with the id 2 added. -/
def changed : State :=
  after (signedTransaction judyKey 1 (.currencyPairsChange (.addition [usdPair "SOL" (by decide)])))
    (after (signedTransaction judyKey 0 (.currencyPairsChange (.removal [usdPair "BTC" (by decide)])))
      oracleGenesisState)

/-- A sidecar with prices for pairs that are known and for one that is not. -/
def answer : List (String × String) :=
  [("SOL/USD", "-7"), ("BTC/USD", "5834065777"), ("ETH/USD", "3138872234")]

set_option maxRecDepth 10000 in
/-- The lookups are completed in reverse. -/
theorem handleExtendVote_accepted_changed :
    let completion : PriceCompletion := { order := List.reverse, perm := List.reverse_perm }
    let bytes := handleExtendVote completion (some (.ok answer)) changed.oracle
    (BlockCodec.decodeOracleVoteExtension bytes).map (fun raw => raw.map (·.1)) = some [1, 2] ∧
      handleVerifyVoteExtension bytes changed.oracle = true := by
  intro completion bytes
  have hrun : OracleRun withoutUpgrades oracleGenesisState changed :=
    (OracleRun.transaction _ _).trans (OracleRun.transaction _ _)
  have haccepted := handleExtendVote_accepted laws testOracleGenesis_valid rfl hrun (by decide +kernel)
    completion (some (.ok answer))
  exact ⟨by decide +kernel, haccepted.2.1⟩

end TestPrices

end Astria.Sequencer
