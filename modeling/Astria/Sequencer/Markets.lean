import Astria.Sequencer.ValidatorCount

/-!
# The market map

The markets of the price feed are stored in one map, keyed by the currency pairs of their tickers, which
the Aspen upgrade stores first.  Creations, removals and updates go through their lists one market at a
time (`crates/astria-sequencer/src/action_handler/impls/markets_change.rs`).

Results:
* `createMarkets_eq_ok`, `removeMarkets_eq`, `updateMarkets_eq_ok`: what the three loops come to;
* `MarketsChange.followsDoc_iff`: an execution is as documented exactly if a map is stored or the change is
  an update;
* `SequencerStep.marketsHave`: every step keeps what every change of markets keeps;
* `marketsChange_sound_iff`: both, for every state of a run.
-/

namespace Astria.Sequencer

open Astria.Core Astria.Lib Exec

/-! ## Markets by key -/

/-- The key of a market: the currency pair of its ticker. -/
def tickerKey (market : Market) : String := market.ticker.currencyPair.toString

/-- The market under a key of the map that is stored, if one is. -/
def marketAt (stored : Option MarketMap) (key : String) : Option Market :=
  stored.bind fun marketMap => SortedMap.lookup key marketMap.markets

/-- The markets by key after those of a list were put in, the later over the earlier. -/
def putMarkets (new : List Market) (f : String → Option Market) : String → Option Market :=
  new.foldl (fun f market => Function.update f (tickerKey market) (some market)) f

/-- Every market is under its own key, and no key is there twice. -/
structure MarketMap.Keyed (marketMap : MarketMap) : Prop where
  ownKey : ∀ entry ∈ marketMap.markets, entry.1 = tickerKey entry.2
  nodup : (marketMap.markets.map (·.1)).Nodup

/-- No two markets share a currency pair. -/
theorem MarketMap.Keyed.nodup_currencyPair {marketMap : MarketMap} (h : marketMap.Keyed) :
    (marketMap.markets.map fun entry => entry.2.ticker.currencyPair).Nodup := by
  have hkeys : marketMap.markets.map (·.1) =
      (marketMap.markets.map fun entry => entry.2.ticker.currencyPair).map CurrencyPair.toString := by
    rw [List.map_map]
    exact List.map_congr_left h.ownKey
  exact List.Nodup.of_map _ (hkeys ▸ h.nodup)

/-! ## The loops -/

section

variable {markets markets' : List (String × Market)} {new : List Market}

theorem any_key_iff {key : String} :
    (markets.any fun entry => entry.1 = key) = true ↔ key ∈ markets.map (·.1) := by
  rw [List.any_eq_true, List.mem_map]
  simp only [decide_eq_true_eq]

/-- A creation appends its markets if no key is taken, by the map or by an earlier market of the list. -/
theorem createMarkets_eq_ok :
    createMarkets new markets = .ok markets' ↔
      ((new.map tickerKey).Nodup ∧ ∀ market ∈ new, tickerKey market ∉ markets.map (·.1)) ∧
        markets' = markets ++ new.map fun market => (tickerKey market, market) := by
  induction new generalizing markets with
  | nil => simp [createMarkets, eq_comm]
  | cons market rest ih =>
    have hstep : createMarkets (market :: rest) markets =
        if tickerKey market ∈ markets.map (·.1) then
          .error ["market for ticker " ++ tickerKey market ++ " already exists"]
        else createMarkets rest (markets ++ [(tickerKey market, market)]) := by
      rw [createMarkets]
      simp only [any_key_iff]
      rfl
    rw [hstep]
    split_ifs with htaken
    · constructor
      · intro h
        cases h
      · rintro ⟨⟨-, hfresh⟩, -⟩
        exact absurd htaken (hfresh market (List.mem_cons_self ..))
    · rw [ih, List.append_assoc]
      refine and_congr ⟨?_, ?_⟩ Iff.rfl
      · rintro ⟨hnodup, hfresh⟩
        have hrest : ∀ other ∈ rest,
            tickerKey other ∉ markets.map (·.1) ∧ tickerKey other ≠ tickerKey market := by
          intro other hmem
          simpa using hfresh other hmem
        refine ⟨List.nodup_cons.mpr ⟨?_, hnodup⟩,
          List.forall_mem_cons.mpr ⟨htaken, fun other hmem => (hrest other hmem).1⟩⟩
        intro hmem
        obtain ⟨other, hother, heq⟩ := List.mem_map.mp hmem
        exact (hrest other hother).2 heq
      · rintro ⟨hnodup, hfresh⟩
        obtain ⟨hnew, hnodup⟩ := List.nodup_cons.mp hnodup
        refine ⟨hnodup, ?_⟩
        intro other hmem
        have hne : tickerKey other ≠ tickerKey market := fun heq => hnew (heq ▸ List.mem_map_of_mem hmem)
        have hold := hfresh other (List.mem_cons_of_mem _ hmem)
        simpa [hne] using hold

/-- A removal leaves the markets whose keys are not listed. -/
theorem removeMarkets_eq (old : List Market) (markets : List (String × Market)) :
    old.foldl
        (fun acc market => acc.filter fun entry => entry.1 ≠ market.ticker.currencyPair.toString) markets =
      markets.filter fun entry => entry.1 ∉ old.map tickerKey := by
  induction old generalizing markets with
  | nil => simp
  | cons market rest ih =>
    rw [List.foldl_cons, ih, List.filter_filter]
    refine List.filter_congr fun entry _ => ?_
    simp [tickerKey, Bool.and_comm]

/-- An entry after a market was put in the place of the one under its key. -/
def replaceEntry (market : Market) (entry : String × Market) : String × Market :=
  if entry.1 = tickerKey market then (tickerKey market, market) else entry

theorem replaceEntry_fst (market : Market) (entry : String × Market) :
    (replaceEntry market entry).1 = entry.1 := by
  unfold replaceEntry
  split_ifs with h
  · exact h.symm
  · rfl

theorem keys_replace (market : Market) (markets : List (String × Market)) :
    (markets.map (replaceEntry market)).map (·.1) = markets.map (·.1) := by
  rw [List.map_map]
  exact List.map_congr_left fun entry _ => replaceEntry_fst market entry

/-- An update replaces one market after the other if all of them are there. -/
theorem updateMarkets_eq_ok :
    updateMarkets new markets = .ok markets' ↔
      (∀ market ∈ new, tickerKey market ∈ markets.map (·.1)) ∧
        markets' = new.foldl (fun markets market => markets.map (replaceEntry market)) markets := by
  induction new generalizing markets with
  | nil => simp [updateMarkets, eq_comm]
  | cons market rest ih =>
    have hstep : updateMarkets (market :: rest) markets =
        if tickerKey market ∈ markets.map (·.1) then updateMarkets rest (markets.map (replaceEntry market))
        else .error ["market for ticker " ++ tickerKey market ++ " not found in market map"] := by
      rw [updateMarkets]
      simp only [any_key_iff]
      rfl
    rw [hstep, List.forall_mem_cons, List.foldl_cons]
    split_ifs with hpresent
    · rw [ih, keys_replace]
      simp only [hpresent, true_and]
    · simp [hpresent]

/-! ## What the loops do to the markets by key -/

theorem lookup_append_new {market : Market} (hfresh : tickerKey market ∉ markets.map (·.1)) :
    (fun key => SortedMap.lookup key (markets ++ [(tickerKey market, market)])) =
      Function.update (fun key => SortedMap.lookup key markets) (tickerKey market) (some market) := by
  funext key
  have happend := IndexMap.updateEntries_of_not_mem (fun _ => market) hfresh
  rw [← happend, IndexMap.lookup_updateEntries, Function.update_apply]

theorem lookup_create (hnodup : (new.map tickerKey).Nodup)
    (hfresh : ∀ market ∈ new, tickerKey market ∉ markets.map (·.1)) :
    (fun key => SortedMap.lookup key (markets ++ new.map fun market => (tickerKey market, market))) =
      putMarkets new fun key => SortedMap.lookup key markets := by
  induction new generalizing markets with
  | nil =>
    rw [List.map_nil, List.append_nil]
    rfl
  | cons market rest ih =>
    obtain ⟨hnew, hnodup⟩ := List.nodup_cons.mp hnodup
    obtain ⟨hmarket, hrest⟩ := List.forall_mem_cons.mp hfresh
    have hfresh' : ∀ other ∈ rest, tickerKey other ∉ (markets ++ [(tickerKey market, market)]).map (·.1) := by
      intro other hmem
      have hne : tickerKey other ≠ tickerKey market := fun heq => hnew (heq ▸ List.mem_map_of_mem hmem)
      simpa [hne] using hrest other hmem
    have htail := ih hnodup hfresh'
    rw [lookup_append_new hmarket, List.append_assoc] at htail
    exact htail

theorem lookup_remove (keys : List String) (markets : List (String × Market)) (key : String) :
    SortedMap.lookup key (markets.filter fun entry => entry.1 ∉ keys) =
      if key ∈ keys then none else SortedMap.lookup key markets := by
  induction markets with
  | nil => simp [SortedMap.lookup_nil]
  | cons entry rest ih =>
    rw [List.filter_cons, SortedMap.lookup_cons]
    by_cases hlisted : entry.1 ∈ keys
    · rw [if_neg (by simpa using hlisted), ih]
      by_cases hkey : entry.1 = key
      · rw [if_pos (hkey ▸ hlisted), if_pos (hkey ▸ hlisted)]
      · rw [if_neg hkey]
    · rw [if_pos (by simpa using hlisted), SortedMap.lookup_cons, ih]
      by_cases hkey : entry.1 = key
      · rw [if_pos hkey, if_neg (hkey ▸ hlisted), if_pos hkey]
      · rw [if_neg hkey, if_neg hkey]

theorem lookup_replace {market : Market} (hpresent : tickerKey market ∈ markets.map (·.1)) :
    (fun key => SortedMap.lookup key (markets.map (replaceEntry market))) =
      Function.update (fun key => SortedMap.lookup key markets) (tickerKey market) (some market) := by
  funext key
  rw [Function.update_apply]
  induction markets with
  | nil => cases hpresent
  | cons entry rest ih =>
    rw [List.map_cons, SortedMap.lookup_cons, SortedMap.lookup_cons, replaceEntry_fst]
    by_cases hentry : entry.1 = key
    · rw [if_pos hentry, if_pos hentry]
      by_cases hkey : key = tickerKey market
      · rw [if_pos hkey, replaceEntry, if_pos (hentry.trans hkey)]
      · rw [if_neg hkey, replaceEntry, if_neg (hentry ▸ hkey)]
    · rw [if_neg hentry, if_neg hentry]
      by_cases hrest : tickerKey market ∈ rest.map (·.1)
      · exact ih hrest
      · have hhead : tickerKey market = entry.1 := (List.mem_cons.mp hpresent).resolve_right hrest
        have hsame : rest.map (replaceEntry market) = rest := by
          refine (List.map_congr_left ?_).trans (List.map_id rest)
          intro other hmem
          exact if_neg fun heq => hrest (List.mem_map.mpr ⟨other, hmem, heq⟩)
        have hkey : key ≠ tickerKey market := fun heq => hentry (heq.trans hhead).symm
        rw [hsame, if_neg hkey]

theorem lookup_update (hpresent : ∀ market ∈ new, tickerKey market ∈ markets.map (·.1)) :
    (fun key => SortedMap.lookup key
        (new.foldl (fun markets market => markets.map (replaceEntry market)) markets)) =
      putMarkets new fun key => SortedMap.lookup key markets := by
  induction new generalizing markets with
  | nil => rfl
  | cons market rest ih =>
    obtain ⟨hmarket, hrest⟩ := List.forall_mem_cons.mp hpresent
    have htail := @ih (markets.map (replaceEntry market)) (by rwa [keys_replace])
    rw [lookup_replace hmarket] at htail
    exact htail

end

/-! ## Changes -/

/-- What the documentation of `MarketsChange` promises: the markets before a change, whether it succeeds,
and the markets after it.  An update of no markets of an empty map may fail, as there is nothing to
replace. -/
def MarketsChange.Documented (act : MarketsChange) (stored : Option MarketMap) (succeeds : Bool)
    (after : Option MarketMap) : Prop :=
  match act with
  | .creation new =>
    if (new.map tickerKey).Nodup ∧ ∀ market ∈ new, marketAt stored (tickerKey market) = none then
      succeeds = true ∧ after.isSome = true ∧ marketAt after = putMarkets new (marketAt stored)
    else succeeds = false ∧ after = stored
  | .removal old =>
    succeeds = true ∧
      marketAt after = fun key => if key ∈ old.map tickerKey then none else marketAt stored key
  | .update new =>
    if stored.isSome = true ∧ ∀ market ∈ new, (marketAt stored (tickerKey market)).isSome = true then
      (succeeds = true ∨ stored = some ⟨[]⟩) ∧ marketAt after = putMarkets new (marketAt stored)
    else succeeds = false ∧ after = stored

/-- The execution of a change does what its documentation promises. -/
def MarketsChange.FollowsDoc (act : MarketsChange) (s : Base) : Prop :=
  MarketsChange.Documented act s.marketMap.marketMap (isOk (MarketsChange.checkAndExecute act s))
    (final (MarketsChange.checkAndExecute act s)).marketMap.marketMap

theorem marketAt_some (markets : List (String × Market)) :
    marketAt (some ⟨markets⟩) = fun key => SortedMap.lookup key markets := rfl

theorem marketAt_eq_none_iff {markets : List (String × Market)} {key : String} :
    marketAt (some ⟨markets⟩) key = none ↔ key ∉ markets.map (·.1) := by
  rw [marketAt_some, ← SortedMap.lookup_isSome_iff, Option.not_isSome_iff_eq_none]

theorem marketAt_isSome_iff {markets : List (String × Market)} {key : String} :
    (marketAt (some ⟨markets⟩) key).isSome = true ↔ key ∈ markets.map (·.1) := by
  rw [marketAt_some, SortedMap.lookup_isSome_iff]

/-- A creation that is applied to a map does what is promised. -/
theorem documented_createMarkets (new : List Market) (markets : List (String × Market)) :
    (∀ markets', createMarkets new markets = .ok markets' →
      MarketsChange.Documented (.creation new) (some ⟨markets⟩) true (some ⟨markets'⟩)) ∧
    ∀ e, createMarkets new markets = .error e →
      MarketsChange.Documented (.creation new) (some ⟨markets⟩) false (some ⟨markets⟩) := by
  have hiff : (∀ market ∈ new, marketAt (some ⟨markets⟩) (tickerKey market) = none) ↔
      ∀ market ∈ new, tickerKey market ∉ markets.map (·.1) :=
    forall₂_congr fun _ _ => marketAt_eq_none_iff
  constructor
  · intro markets' happly
    obtain ⟨⟨hnodup, hfresh⟩, rfl⟩ := createMarkets_eq_ok.mp happly
    exact (if_pos ⟨hnodup, hiff.mpr hfresh⟩).mpr ⟨rfl, rfl, lookup_create hnodup hfresh⟩
  · intro e happly
    refine (if_neg ?_).mpr ⟨rfl, rfl⟩
    rintro ⟨hnodup, hfresh⟩
    rw [createMarkets_eq_ok.mpr ⟨⟨hnodup, hiff.mp hfresh⟩, rfl⟩] at happly
    cases happly

/-- So does an update. -/
theorem documented_updateMarkets (new : List Market) (markets : List (String × Market)) :
    (∀ markets', MarketsChange.apply (.update new) markets = .ok markets' →
      MarketsChange.Documented (.update new) (some ⟨markets⟩) true (some ⟨markets'⟩)) ∧
    ∀ e, MarketsChange.apply (.update new) markets = .error e →
      MarketsChange.Documented (.update new) (some ⟨markets⟩) false (some ⟨markets⟩) := by
  have hiff : (∀ market ∈ new, (marketAt (some ⟨markets⟩) (tickerKey market)).isSome = true) ↔
      ∀ market ∈ new, tickerKey market ∈ markets.map (·.1) :=
    forall₂_congr fun _ _ => marketAt_isSome_iff
  constructor
  · intro markets' happly
    unfold MarketsChange.apply at happly
    dsimp only at happly
    split_ifs at happly
    obtain ⟨hpresent, rfl⟩ := updateMarkets_eq_ok.mp happly
    exact (if_pos ⟨rfl, hiff.mpr hpresent⟩).mpr ⟨Or.inl rfl, lookup_update hpresent⟩
  · intro e happly
    by_cases hpresent : ∀ market ∈ new, tickerKey market ∈ markets.map (·.1)
    · have hempty : markets = [] := by
        by_contra hne
        unfold MarketsChange.apply at happly
        dsimp only at happly
        rw [if_neg hne, updateMarkets_eq_ok.mpr ⟨hpresent, rfl⟩] at happly
        cases happly
      subst hempty
      -- no market is present in an empty map
      obtain rfl : new = [] :=
        List.eq_nil_iff_forall_not_mem.mpr fun market hmem => absurd (hpresent market hmem) List.not_mem_nil
      have hall : ∀ market ∈ ([] : List Market), (marketAt (some ⟨[]⟩) (tickerKey market)).isSome = true :=
        fun _ hmem => absurd hmem List.not_mem_nil
      rw [MarketsChange.Documented, if_pos ⟨rfl, hall⟩]
      exact ⟨Or.inr rfl, rfl⟩
    · refine (if_neg ?_).mpr ⟨rfl, rfl⟩
      rintro ⟨-, hall⟩
      exact hpresent (hiff.mp hall)

/-- A change that is applied to a map does what is promised. -/
theorem MarketsChange.documented_apply (act : MarketsChange) (markets : List (String × Market)) :
    (∀ markets', MarketsChange.apply act markets = .ok markets' →
      MarketsChange.Documented act (some ⟨markets⟩) true (some ⟨markets'⟩)) ∧
    ∀ e, MarketsChange.apply act markets = .error e →
      MarketsChange.Documented act (some ⟨markets⟩) false (some ⟨markets⟩) := by
  cases act with
  | creation new => exact documented_createMarkets new markets
  | update new => exact documented_updateMarkets new markets
  | removal old =>
    constructor
    · intro markets' happly
      obtain rfl := Except.ok.inj happly
      refine ⟨rfl, ?_⟩
      rw [removeMarkets_eq, marketAt_some]
      exact funext (lookup_remove (old.map tickerKey) markets)
    · intro e happly
      cases happly

section

variable {act : MarketsChange} {s : Base} {c : TransactionContext} {height : ℕ}

/-- The checks before the change, for a transaction of the sudo address. -/
theorem MarketsChange.checkAndExecute_sudo (hc : s.ephemeral.transactionContext = some c)
    (hsudo : s.authority.sudoAddress = some c.addressBytes) (hheight : s.chain.blockHeight = some height) :
    MarketsChange.checkAndExecute act s =
      match s.marketMap.marketMap with
      | none => .error ["market map not found in state"] s
      | some marketMap =>
        match MarketsChange.apply act marketMap.markets with
        | .error e => .error e s
        | .ok markets => .ok () ((s.putMarketMap ⟨markets⟩).putMarketMapLastUpdatedHeight height) := by
  have hvalid : validateSignerIsSudo "failed to get sudo address from state" "signer is not the sudo key" s =
      .ok () s := by
    simp only [validateSignerIsSudo, bind_eq_ok, getTransactionContext_eq_ok, mapErr_eq_ok, tryReads_eq_ok,
      ensure_eq_ok, Base.getSudoAddress_eq_ok]
    exact ⟨c, s, ⟨hc, rfl⟩, c.addressBytes, s, ⟨hsudo, rfl⟩, rfl, rfl⟩
  unfold MarketsChange.checkAndExecute
  rw [bind_of_ok hvalid, bind_of_ok (reads_eq_ok.mpr ⟨rfl, rfl⟩)]
  cases s.marketMap.marketMap with
  | none => rfl
  | some marketMap =>
    rw [bind_of_ok (require_eq_ok.mpr ⟨rfl, rfl⟩)]
    dsimp only
    cases happly : MarketsChange.apply act marketMap.markets with
    | error e => rfl
    | ok markets =>
      rw [bind_of_ok (lift_eq_ok.mpr ⟨rfl, rfl⟩), bind_of_ok (a := ()) (writes_eq_ok.mpr rfl)]
      have hread : wrapErr "failed to get block height" (tryReads Base.getBlockHeight)
          (s.putMarketMap ⟨markets⟩) = .ok height (s.putMarketMap ⟨markets⟩) := by
        rw [mapErr_eq_ok, tryReads_eq_ok]
        exact ⟨by simp [Base.getBlockHeight, Base.putMarketMap, hheight], rfl⟩
      rw [bind_of_ok hread]
      rfl

/-- The changes that are to fail if no map is stored: an update, and a creation that lists a key twice. -/
def MarketsChange.NeedsMap (act : MarketsChange) : Prop :=
  match act with
  | .creation new => ¬(new.map tickerKey).Nodup
  | .removal _ => False
  | .update _ => True

/-- A change does what its documentation promises exactly if a map is stored or it is to fail without
one. -/
theorem MarketsChange.followsDoc_iff (hc : s.ephemeral.transactionContext = some c)
    (hsudo : s.authority.sudoAddress = some c.addressBytes) (hheight : s.chain.blockHeight = some height) :
    MarketsChange.FollowsDoc act s ↔ s.marketMap.marketMap ≠ none ∨ MarketsChange.NeedsMap act := by
  unfold MarketsChange.FollowsDoc
  rw [MarketsChange.checkAndExecute_sudo hc hsudo hheight]
  cases hstored : s.marketMap.marketMap with
  | none =>
    simp only [isOk, final, hstored]
    cases act with
    | creation new => simp [MarketsChange.Documented, MarketsChange.NeedsMap, marketAt]
    | removal old => simp [MarketsChange.Documented, MarketsChange.NeedsMap]
    | update new => simp [MarketsChange.Documented, MarketsChange.NeedsMap]
  | some marketMap =>
    obtain ⟨hok, herror⟩ := MarketsChange.documented_apply act marketMap.markets
    refine ⟨fun _ => Or.inl (Option.some_ne_none _), fun _ => ?_⟩
    dsimp only
    cases happly : MarketsChange.apply act marketMap.markets with
    | error e => exact hstored.symm ▸ herror e happly
    | ok markets => exact hok markets happly

/-- What a change that succeeds has done. -/
theorem MarketsChange.checkAndExecute_eq_ok {s' : Base} {u : Unit}
    (h : MarketsChange.checkAndExecute act s = .ok u s') :
    ∃ marketMap markets height, s.marketMap.marketMap = some marketMap ∧
      MarketsChange.apply act marketMap.markets = .ok markets ∧
      s' = (s.putMarketMap ⟨markets⟩).putMarketMapLastUpdatedHeight height := by
  simp only [MarketsChange.checkAndExecute, bind_eq_ok, reads_eq_ok, require_eq_ok, lift_eq_ok, writes_eq_ok,
    mapErr_eq_ok, tryReads_eq_ok, and_assoc, exists_and_left, exists_eq_left] at h
  obtain ⟨_, t, hvalid, marketMap, hstored, markets, happly, _, height, -, rfl⟩ := h
  obtain rfl := validateSignerIsSudo_state hvalid
  exact ⟨marketMap, markets, height, hstored, happly, rfl⟩

theorem MarketMap.Keyed.replace {marketMap : MarketMap} (h : marketMap.Keyed) (new : List Market) :
    (⟨new.foldl (fun markets market => markets.map (replaceEntry market)) marketMap.markets⟩ :
      MarketMap).Keyed := by
  induction new generalizing marketMap with
  | nil => exact h
  | cons market rest ih =>
    refine @ih ⟨marketMap.markets.map (replaceEntry market)⟩ ⟨?_, ?_⟩
    · intro entry hmem
      obtain ⟨old, hold, rfl⟩ := List.mem_map.mp hmem
      unfold replaceEntry
      split_ifs
      · rfl
      · exact h.ownKey old hold
    · show ((marketMap.markets.map (replaceEntry market)).map (·.1)).Nodup
      rw [keys_replace]
      exact h.nodup

/-- A change keeps every market under its own key. -/
theorem MarketMap.Keyed.apply {marketMap : MarketMap} {markets' : List (String × Market)}
    (h : marketMap.Keyed) (happly : MarketsChange.apply act marketMap.markets = .ok markets') :
    (⟨markets'⟩ : MarketMap).Keyed := by
  cases act with
  | creation new =>
    obtain ⟨⟨hnodup, hfresh⟩, rfl⟩ := createMarkets_eq_ok.mp happly
    constructor
    · intro entry hmem
      rcases List.mem_append.mp hmem with hold | hnew
      · exact h.ownKey entry hold
      · obtain ⟨market, -, rfl⟩ := List.mem_map.mp hnew
        rfl
    · have hkeys : (new.map fun market => (tickerKey market, market)).map (·.1) = new.map tickerKey := by
        rw [List.map_map]
        rfl
      rw [List.map_append, hkeys]
      refine List.nodup_append'.mpr ⟨h.nodup, hnodup, ?_⟩
      intro key hold hnew
      obtain ⟨market, hmem, rfl⟩ := List.mem_map.mp hnew
      exact hfresh market hmem hold
  | removal old =>
    obtain rfl := Except.ok.inj happly
    rw [removeMarkets_eq]
    exact ⟨fun entry hmem => h.ownKey entry (List.mem_of_mem_filter hmem),
      h.nodup.sublist (List.filter_sublist.map _)⟩
  | update new =>
    simp only [MarketsChange.apply] at happly
    split_ifs at happly
    obtain ⟨-, rfl⟩ := updateMarkets_eq_ok.mp happly
    exact h.replace new

end

/-! ## Steps -/

section

variable [ext : External]

omit ext in
/-- The market map is as it was, and a block height that was stored still is. -/
structure Base.SameMarkets (s s' : Base) : Prop where
  marketMap : s'.marketMap.marketMap = s.marketMap.marketMap
  blockHeight : s.chain.blockHeight.isSome = true → s'.chain.blockHeight.isSome = true

omit ext in
instance : IsPreorder Base Base.SameMarkets where
  refl _ := ⟨rfl, id⟩
  trans _ _ _ h h' := ⟨h'.marketMap.trans h.marketMap, h'.blockHeight ∘ h.blockHeight⟩

omit ext in
theorem nonMarketWrites_sameMarkets : NonMarketWrites Base.SameMarkets := by
  constructor <;> intros <;> exact ⟨rfl, id⟩

theorem validatorWrites_sameMarkets : ValidatorWrites Base.SameMarkets := by
  constructor <;> intros <;> exact ⟨rfl, id⟩

theorem fundsWrites_sameMarkets : FundsWrites Base.SameMarkets := by
  constructor <;> intros <;> exact ⟨rfl, id⟩

omit ext in
theorem configWrites_sameMarkets : ConfigWrites Base.SameMarkets := by
  constructor <;> intros <;> exact ⟨rfl, id⟩

omit ext in
theorem transactionWrites_sameMarkets : TransactionWrites Base.SameMarkets := by
  constructor <;> intros <;> exact ⟨rfl, id⟩

theorem genesisWrites_sameMarkets : GenesisWrites Base.SameMarkets := by
  constructor <;> intros <;> first | exact ⟨rfl, id⟩ | exact ⟨rfl, fun _ => rfl⟩

/-- The stored market map is as `P` says, and a block height is stored. -/
structure Base.MarketsHave (P : MarketMap → Prop) (s : Base) : Prop where
  stored : ∀ marketMap ∈ s.marketMap.marketMap, P marketMap
  blockHeight : s.chain.blockHeight.isSome = true

omit ext in
theorem Base.MarketsHave.congr {P : MarketMap → Prop} {s s' : Base} (h : s.MarketsHave P)
    (hsame : s.SameMarkets s') : s'.MarketsHave P :=
  ⟨hsame.marketMap ▸ h.stored, hsame.blockHeight h.blockHeight⟩

/-- `P` holds after every change of a market map of which it holds. -/
def KeptByChanges (P : MarketMap → Prop) : Prop :=
  ∀ act marketMap markets, P marketMap → MarketsChange.apply act marketMap.markets = .ok markets →
    P ⟨markets⟩

/-- `P` holds of the markets that the upgrade stores. -/
def Upgrades.GenesisHas (P : MarketMap → Prop) (upgrades : Upgrades) : Prop :=
  ∀ aspen ∈ upgrades.aspen, P aspen.marketMapGenesis.marketMap

/-- Only a change of markets reaches the market map. -/
theorem Action.checkAndExecute_sameMarkets {act : Action} {s s' : State} {u : Unit}
    (hkind : act.kind ≠ .marketsChange) (h : Action.checkAndExecute act s = .ok u s') :
    s.base.SameMarkets s'.base := by
  cases hconfigures : ActionKind.configuresBridge act.kind with
  | true => exact Action.checkAndExecute_keepsConfig configWrites_sameMarkets hconfigures h
  | false =>
    cases hleaves : ActionKind.leavesFunds act.kind with
    | false => exact Action.checkAndExecute_keepsMoves fundsWrites_sameMarkets hconfigures hleaves h
    | true =>
      by_cases hvalidator : act.kind = .validatorUpdate
      · cases act with
        | validatorUpdate act =>
          obtain ⟨b, hb, rfl⟩ := onBase_eq_ok.mp h
          exact (ValidatorUpdate.checkAndExecute_keeps validatorWrites_sameMarkets act).of_ok hb
        | _ => cases hvalidator
      · exact Action.checkAndExecute_keepsNonMarket nonMarketWrites_sameMarkets hleaves hvalidator hkind h

variable {P : MarketMap → Prop}

omit ext in
theorem Base.MarketsHave.change {act : MarketsChange} {s s' : Base} {u : Unit} (hP : KeptByChanges P)
    (h : s.MarketsHave P) (hexec : MarketsChange.checkAndExecute act s = .ok u s') : s'.MarketsHave P := by
  obtain ⟨marketMap, markets, height, hstored, happly, rfl⟩ := MarketsChange.checkAndExecute_eq_ok hexec
  refine ⟨?_, h.blockHeight⟩
  intro after hafter
  obtain rfl := Option.some.inj hafter
  exact hP act marketMap markets (h.stored marketMap hstored) happly

theorem Base.MarketsHave.action {source : AddressBytes} {act : Action} {s s' : State} {u : Unit}
    (hP : KeptByChanges P) (h : s.base.MarketsHave P)
    (hexec : executeAction source act s = .ok u s') : s'.base.MarketsHave P := by
  by_cases hkind : act.kind = .marketsChange
  · cases act with
    | marketsChange act =>
      rw [executeAction_eq (by rw [hkind]; decide)] at hexec
      simp only [mapErr_eq_ok, bind_eq_ok] at hexec
      obtain ⟨_, t, hact, hfees⟩ := hexec
      obtain ⟨b, hb, rfl⟩ := onBase_eq_ok.mp hact
      obtain ⟨c, hc, rfl⟩ := onBase_eq_ok.mp hfees
      exact (h.change hP hb).congr
        (checkAndPayFees_keepsOk fundsWrites_sameMarkets transactionWrites_sameMarkets hc)
    | _ => cases hkind
  · exact h.congr (executeAction_keeps fundsWrites_sameMarkets transactionWrites_sameMarkets
      (fun t ht => Action.checkAndExecute_sameMarkets hkind ht) hexec)

/-! ## Blocks -/

theorem handleAspenUpgrade_sameMarkets : Keeps Base.SameMarkets handleAspenUpgrade := by
  refine Keeps.bind (by simp) fun set => Keeps.bind (keeps_writes fun _ => ⟨rfl, id⟩) fun _ => ?_
  refine Keeps.bind (keeps_writes fun _ => ⟨rfl, id⟩) fun _ => ?_
  exact keeps_forEach_writes (fun _ _ => ⟨rfl, id⟩) _

/-- An upgrade that is due stores the markets of its genesis. -/
theorem Base.MarketsHave.upgrade [UpgradeCodec] {upgrades : Upgrades} {height : ℕ} {s s' : State}
    {hashes : List Bytes32} (hgenesis : upgrades.GenesisHas P) (h : s.base.MarketsHave P)
    (hexec : executeUpgradeIfDue upgrades height s = .ok hashes s') : s'.base.MarketsHave P := by
  unfold executeUpgradeIfDue at hexec
  cases hdue : upgrades.upgradeActivatingAtHeight height with
  | none =>
    rw [hdue] at hexec
    obtain ⟨-, rfl⟩ := pure_eq_ok.mp hexec
    exact h
  | some aspen =>
    rw [hdue] at hexec
    have hexec : aspen.execute s = .ok hashes s' := hexec
    simp only [Aspen.execute, bind_eq_ok, pure_eq_ok, onBase_eq_ok, mapErr_eq_ok] at hexec
    obtain ⟨_, _, ⟨b, hchanges, rfl⟩, _, _, ⟨c, hmarket, rfl⟩, _, t, horacle, _, _, ⟨d, hauthority, rfl⟩,
      -, rfl⟩ := hexec
    have hchanged : s.base.SameMarkets b :=
      (Keeps.forEach (fun _ => keeps_writes fun _ => ⟨rfl, id⟩) _).of_ok hchanges
    rw [MarketMapGenesis.handleGenesis, writes_eq_ok] at hmarket
    obtain ⟨o, -, rfl⟩ := zoom_eq_ok.mp horacle
    have hstored : c.MarketsHave P := by
      rw [hmarket]
      refine ⟨?_, hchanged.blockHeight h.blockHeight⟩
      intro marketMap hmem
      obtain rfl := Option.some.inj hmem
      exact hgenesis aspen (Upgrades.upgradeActivatingAtHeight_eq_some.mp hdue).1
    exact hstored.congr (handleAspenUpgrade_sameMarkets.of_ok hauthority)

/-- The begin of a block reaches no markets. -/
theorem beginBlock_sameMarkets (request : BeginBlock) : Keeps Base.SameMarkets (beginBlock request) := by
  have hremove (a : AddressBytes) : Keeps Base.SameMarkets (removeValidator a) := by
    refine Keeps.bind (by simp) fun _ => Keeps.ite ?_ (by simp)
    exact Keeps.bind (keeps_writes fun _ => ⟨rfl, id⟩) fun _ => by simp
  have hmisbehaving (m : Misbehavior) : Keeps Base.SameMarkets (removeMisbehaving m) := by
    refine Keeps.bind ((hremove _).mapErr _) fun _ => Keeps.ite ?_ (by simp)
    exact Keeps.bind (by simp) fun _ => keeps_writes fun _ => ⟨rfl, id⟩
  have hauthority (l : List Misbehavior) : Keeps Base.SameMarkets (authorityBeginBlock l) := by
    refine Keeps.bind (by simp) fun _ => Keeps.ite ?_ (Keeps.forEach hmisbehaving l)
    exact Keeps.bind (by simp) fun _ => keeps_writes fun _ => ⟨rfl, id⟩
  refine Keeps.bind (keeps_writes fun _ => ⟨rfl, fun _ => rfl⟩) fun _ => ?_
  refine Keeps.bind (keeps_writes fun _ => ⟨rfl, id⟩) fun _ => ?_
  refine Keeps.bind ((hauthority _).mapErr _) fun _ => Keeps.bind (keeps_reads _) fun _ => ?_
  exact keeps_writeIbc (fun _ _ => ⟨rfl, id⟩) _

theorem Base.MarketsHave.preExecute [UpgradeCodec] {upgrades : Upgrades} {appHash : Bytes32}
    {block : BlockData} {s s' : State} {hashes : List Bytes32} (hgenesis : upgrades.GenesisHas P)
    (h : s.base.MarketsHave P) (hexec : preExecuteTransactions upgrades appHash block s = .ok hashes s') :
    s'.base.MarketsHave P := by
  simp only [preExecuteTransactions, bind_eq_ok, mapErr_eq_ok, applyDelta_eq_ok, pure_eq_ok,
    onBase_tryReads_eq_ok] at hexec
  obtain ⟨_, _, ⟨_, t, hupgrade, rfl, rfl⟩, chainId, _, ⟨-, rfl⟩, _, _, ⟨_, r, hbegin, rfl, rfl⟩, -, rfl⟩ :=
    hexec
  have hevents : s.base.SameMarkets (s.withEvents []).base := ⟨rfl, id⟩
  have hupgraded := (h.congr hevents).upgrade hgenesis hupgrade
  obtain ⟨b, hb, rfl⟩ := onBase_eq_ok.mp hbegin
  have hbegun := (beginBlock_sameMarkets _).of_ok hb
  have hstart : t.base.SameMarkets (State.withEvents [] (State.withEvents s.events t)).base := ⟨rfl, id⟩
  have hend : b.SameMarkets { b with ephemeral.events := (t.withEvents s.events).events } := ⟨rfl, id⟩
  exact ((hupgraded.congr hstart).congr hbegun).congr hend

theorem endBlock_sameMarkets (recipient : AddressBytes) : Keeps Base.SameMarkets (endBlock recipient) := by
  have hauthority : Keeps Base.SameMarkets authorityEndBlock := by
    refine Keeps.bind (by simp) fun _ => Keeps.ite ?_ (by simp)
    refine Keeps.bind (by simp) fun _ => Keeps.bind (by simp) fun _ => ?_
    exact keeps_writes fun _ => ⟨rfl, id⟩
  have hfees (fees : List Fee) : Keeps Base.SameMarkets (payBlockFees recipient fees) :=
    Keeps.forEach (fun _ => (keeps_increaseBalance fundsWrites_sameMarkets.balance _ _ _).mapErr _) _
  refine Keeps.bind (hauthority.mapErr _) fun _ => Keeps.bind (by simp) fun _ => ?_
  refine Keeps.bind (keeps_writes fun _ => ⟨rfl, id⟩) fun _ => Keeps.bind (by simp) fun _ => ?_
  exact Keeps.bind (hfees _) fun _ => by simp

theorem storeBlock_sameMarkets [BlockCodec] (handler : UpgradesHandler) (chainId : String)
    (post : PostExecution) (updates : List CometbftValidatorUpdate) (events : List Event) :
    Keeps Base.SameMarkets (storeBlock handler chainId post updates events) := by
  have hparams : Keeps Base.SameMarkets (handler.endBlock post.height) := by
    unfold UpgradesHandler.endBlock
    cases handler.upgrades.upgradeActivatingAtHeight post.height with
    | none => exact keeps_pure _
    | some aspen =>
      refine Keeps.bind (keeps_reads _) fun _ => Keeps.bind (keeps_writes fun _ => ⟨rfl, id⟩) fun _ => ?_
      exact keeps_pure _
  refine Keeps.bind (by simp) fun _ => Keeps.bind (keeps_writes fun _ => ⟨rfl, id⟩) fun _ => ?_
  refine Keeps.bind (by simp) fun _ => Keeps.bind (keeps_writes fun _ => ⟨rfl, id⟩) fun _ => ?_
  exact Keeps.bind hparams fun _ => keeps_writes fun _ => ⟨rfl, id⟩

end

section

variable [ext : External] [UpgradeCodec] [TransactionCodec] [BlockCodec] {handler : UpgradesHandler}
  {P : MarketMap → Prop}

/-- Every step keeps what every change of markets keeps. -/
theorem SequencerStep.marketsHave {s s' : State} (hP : KeptByChanges P)
    (hgenesis : handler.upgrades.GenesisHas P)
    (h : SequencerStep handler s s') (hs : s.base.MarketsHave P) : s'.base.MarketsHave P := by
  cases h with
  | prepare hprep =>
    have hstart : s.base.SameMarkets (s.withEvents []).base := ⟨rfl, id⟩
    have hprepared := (prepareTransaction_keepsAny transactionWrites_sameMarkets _).of_ok hprep
    exact (hs.congr hstart).congr hprepared
  | @action source act c _ _ hexec =>
    have hcontext : s.base.SameMarkets (s.withContext c).base := ⟨rfl, id⟩
    exact (hs.congr hcontext).action hP hexec
  | prices hprices =>
    obtain ⟨events, hrecords⟩ := hprices.onlyRecords
    exact hs.congr (hrecords ▸ ⟨rfl, id⟩)
  | preExecute hpre => exact hs.preExecute hgenesis hpre
  | postExecute hpost =>
    obtain ⟨chainId, recipient, returned, b, c, -, -, hend, hstore, rfl⟩ :=
      postExecuteTransactions_eq_ok.mp hpost
    have hevents : s.base.SameMarkets (s.withEvents []).base := ⟨rfl, id⟩
    have hended := ((hs.congr hevents).congr ((endBlock_sameMarkets _).of_ok hend))
    have hcleared : b.SameMarkets { b with ephemeral.events := [] } := ⟨rfl, id⟩
    exact ((hended.congr hcleared).congr ((storeBlock_sameMarkets _ _ _ _ _).of_ok hstore)).congr ⟨rfl, id⟩
  | _ => exact hs.congr ⟨rfl, id⟩

theorem SequencerRun.marketsHave {s s' : State} (hP : KeptByChanges P)
    (hgenesis : handler.upgrades.GenesisHas P)
    (h : SequencerRun handler s s') (hs : s.base.MarketsHave P) : s'.base.MarketsHave P := by
  induction h with
  | refl => exact hs
  | tail _ hstep ih => exact hstep.marketsHave hP hgenesis ih

omit [UpgradeCodec] [TransactionCodec] [BlockCodec] in
/-- The genesis stores no market map. -/
theorem initChain_marketsHave {genesis : GenesisAppState} {validators : List ValidatorUpdate}
    {chainId : String} {b : Base} {u : Unit}
    (h : initChain genesis validators chainId Base.empty = .ok u b) : b.MarketsHave P := by
  have hkept := (initChain_keeps genesisWrites_sameMarkets genesis validators chainId).of_ok h
  refine ⟨?_, ?_⟩
  · rw [hkept.marketMap]
    exact nofun
  · rw [initChain_blockHeight h]
    rfl

/-- In every state of a run the markets are under their own keys, if those that the upgrade stores are.
A change of markets by the sudo address does what its documentation promises, whatever map is stored,
exactly if a map is stored or the change is to fail without one. -/
theorem marketsChange_sound_iff {genesis : GenesisAppState} {validators : List ValidatorUpdate}
    {chainId : String} {b : Base} (hgenesis : initChain genesis validators chainId Base.empty = .ok () b)
    {s : State} (hrun : SequencerRun handler { base := b, oracle := Oracle.empty } s) :
    (handler.upgrades.GenesisHas MarketMap.Keyed →
      ∀ marketMap ∈ s.base.marketMap.marketMap, marketMap.Keyed ∧
        (marketMap.markets.map fun entry => entry.2.ticker.currencyPair).Nodup) ∧
    ∀ (stored : Option MarketMap) (act : MarketsChange) (c : TransactionContext),
      s.base.authority.sudoAddress = some c.addressBytes →
        (MarketsChange.FollowsDoc act { (s.withContext c).base with marketMap.marketMap := stored } ↔
          stored ≠ none ∨ MarketsChange.NeedsMap act) := by
  constructor
  · intro hkeyed marketMap hmem
    have hkept : KeptByChanges MarketMap.Keyed := fun _ _ _ h happly => h.apply happly
    have h := (hrun.marketsHave hkept hkeyed (initChain_marketsHave hgenesis)).stored marketMap hmem
    exact ⟨h, h.nodup_currencyPair⟩
  · intro stored act c hsudo
    have hany : KeptByChanges fun _ => True := fun _ _ _ _ _ => trivial
    have h := hrun.marketsHave hany (fun _ _ => trivial) (initChain_marketsHave hgenesis)
    obtain ⟨height, hheight⟩ := Option.isSome_iff_exists.mp h.blockHeight
    exact MarketsChange.followsDoc_iff (s := { (s.withContext c).base with marketMap.marketMap := stored })
      rfl hsudo hheight

end

section

open TestUtils

/-- A market of the test genesis. -/
def ethUsd : Market :=
  { ticker :=
      { currencyPair :=
          { base := "ETH", quote := "USD", base_valid := isCurrency_eth, quote_valid := isCurrency_usd }
        decimals := 8
        minProviderCount := 1
        enabled := true
        metadataJson := "" }
    providerConfigs := [] }

/-- A transaction of the sudo address. -/
def judyContext : TransactionContext :=
  { addressBytes := judyAddress.bytes
    transactionId := List.Vector.replicate 32 0
    positionInTransaction := 0 }

set_option maxRecDepth 10000 in
theorem twoValidators_sudoAddress :
    twoValidators.base.authority.sudoAddress = some judyContext.addressBytes := by decide +kernel

/-- The upgrade brings a market. -/
def withMarket : UpgradesHandler :=
  { upgrades :=
      { aspen := some
          { activationHeight := 1
            appVersion := 2
            marketMapGenesis :=
              { marketMap := { markets := [("ETH/USD", ethUsd)] }
                lastUpdated := 0
                marketAuthorities := []
                admin := judyAddress }
            oracleGenesis := { currencyPairGenesis := [], nextId := 0 } } }
    consensusParamsFromCometbft := fun _ => none }

/-- The start of the block with the upgrade. -/
def marketRun : EStateM.Result Report State (List Bytes32) :=
  preExecuteTransactions withMarket.upgrades (List.Vector.replicate 32 0) (block 1 [] []).data twoValidators

set_option maxRecDepth 10000 in
/-- The market of the upgrade is stored under its own key, and is updated as promised. -/
theorem marketsChange_sound_upgraded :
    ∃ marketMap : MarketMap, (final marketRun).base.marketMap.marketMap = some marketMap ∧
      marketMap.markets = [("ETH/USD", ethUsd)] ∧ marketMap.Keyed ∧
      MarketsChange.FollowsDoc (.update [ethUsd])
        { ((final marketRun).withContext judyContext).base with marketMap.marketMap := some marketMap } := by
  have hok : isOk marketRun = true := by decide +kernel
  obtain ⟨hashes, hexec⟩ := exists_ok_of_isOk hok
  have hrun : SequencerRun withMarket twoValidators (final marketRun) := .single (.preExecute hexec)
  have hstored : (final marketRun).base.marketMap.marketMap = some ⟨[("ETH/USD", ethUsd)]⟩ := by
    decide +kernel
  have hsudo : (final marketRun).base.authority.sudoAddress = some judyContext.addressBytes := by
    decide +kernel
  have hgenesis : withMarket.upgrades.GenesisHas MarketMap.Keyed := by
    rintro _ ⟨⟩
    exact ⟨by decide, List.nodup_singleton _⟩
  obtain ⟨hkeyed, hchange⟩ := marketsChange_sound_iff initChain_validatorsGenesis hrun
  refine ⟨_, hstored, rfl, (hkeyed hgenesis _ hstored).1, ?_⟩
  exact (hchange (some ⟨[("ETH/USD", ethUsd)]⟩) (.update [ethUsd]) judyContext hsudo).mpr
    (Or.inl (Option.some_ne_none _))

/-- It is not created in a chain that has no map yet. -/
theorem not_followsDoc_firstMarket :
    twoValidators.base.marketMap.marketMap = none ∧
      twoValidators.base.authority.sudoAddress = some judyContext.addressBytes ∧
      ¬MarketsChange.FollowsDoc (.creation [ethUsd]) (twoValidators.withContext judyContext).base := by
  have hnone : twoValidators.base.marketMap.marketMap = none := by decide +kernel
  refine ⟨hnone, twoValidators_sudoAddress, ?_⟩
  obtain ⟨height, hheight⟩ : ∃ height, twoValidators.base.chain.blockHeight = some height :=
    ⟨0, initChain_blockHeight initChain_validatorsGenesis⟩
  have hiff : MarketsChange.FollowsDoc (.creation [ethUsd]) (twoValidators.withContext judyContext).base ↔ _ :=
    MarketsChange.followsDoc_iff rfl twoValidators_sudoAddress hheight
  rw [hiff]
  rintro (hstored | hneeds)
  · exact hstored hnone
  · exact hneeds (List.nodup_singleton _)

end

end Astria.Sequencer
