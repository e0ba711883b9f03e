import Astria.Lib.Median
import Astria.Lib.Outcome
import Astria.Core.SequencerBlock
import Astria.Sequencer.ExtendedCommit
import Mathlib.Tactic.Ring

/-!
# Aggregated prices

The prices of vote extensions as `astria-core/src/oracles/price_feed/utils.rs` computes them, on
integers of 128 bits.

The mean of the two prices in the middle is computed from their halves, which are rounded towards zero,
and is corrected only if both prices are odd and positive: `% 2` is `-1` for an odd negative price.  So
the result is not the mean rounded down exactly if a negative odd price in the middle is not made up for
by a positive odd one.

Results:
* `Machine.calculatePrices_eq`: no step overflows or panics;
* `calculatePrices_perm`: the prices do not depend on the order of the votes;
* `calculatePrices_sound_iff`: the prices are the medians exactly if the halves fit.
-/

namespace Astria.Core

open Astria.Lib Astria.Sequencer

/-! ## Machine integers -/

/-- The integers of 128 bits. -/
def IsI128 (x : ℤ) : Prop := -2 ^ 127 ≤ x ∧ x < 2 ^ 127

instance (x : ℤ) : Decidable (IsI128 x) := inferInstanceAs (Decidable (_ ∧ _))

namespace Machine

/-- An integer, if it has 128 bits. -/
def toI128 (x : ℤ) : Option ℤ := if IsI128 x then some x else none

/-- `i128::checked_div`. -/
def checkedDiv (a b : ℤ) : Option ℤ := if b = 0 then none else toI128 (a.tdiv b)

/-- `i128::checked_add`. -/
def checkedAdd (a b : ℤ) : Option ℤ := toI128 (a + b)

/-- `median`. -/
def median (priceList : List ℤ) : Outcome (Option ℤ) := do
  let sorted := priceList.insertionSort (· ≤ ·)
  let midpoint := sorted.length / 2
  if sorted.length % 2 = 1 then do
    let price ← .ofOption sorted[midpoint]?
    return some price
  else
    match checkedSub midpoint 1 with
    | none => return none
    | some lowerIndex => do
      let higherPrice ← .ofOption sorted[midpoint]?
      let lowerPrice ← .ofOption sorted[lowerIndex]?
      let halfHigh ← .ofOption (checkedDiv higherPrice 2)
      let halfLow ← .ofOption (checkedDiv lowerPrice 2)
      let sum ← .ofOption (checkedAdd halfHigh halfLow)
      if higherPrice.tmod 2 = 1 ∧ lowerPrice.tmod 2 = 1 then do
        let median ← .ofOption (checkedAdd sum 1)
        return some median
      else return some sum

/-- The `filter_map` of `aggregate_oracle_votes`. -/
def medianPrices : PriceLists → Outcome (List Price)
  | [] => return []
  | (info, priceList) :: rest => do
    let median ← median priceList
    let prices ← medianPrices rest
    match median with
    | none => return prices
    | some price =>
      return { currencyPair := info.currencyPair, price := price, decimals := info.decimals } ::
        prices

/-- `calculate_prices_from_vote_extensions`. -/
def calculatePrices [codec : BlockCodec] (info : ExtendedCommitInfoWithMapping) :
    Outcome (Except Report (List Price)) :=
  match decodeVotes info.extendedCommitInfo.votes with
  | .error e => return .error e
  | .ok votes => do
    let prices ← medianPrices (votes.flatten.foldl (collectPrice info.idToCurrencyPair) [])
    return .ok prices

end Machine

theorem i128FromBeBytes_isI128 {bytes : Bytes} (h : bytes.length = 16) :
    IsI128 (i128FromBeBytes bytes) := by
  have hlt : ∀ (bs : Bytes) (acc : ℕ),
      bs.foldl (fun acc b => acc * 256 + b.toNat) acc < (acc + 1) * 256 ^ bs.length := by
    intro bs
    induction bs with
    | nil => simp
    | cons b bs ih =>
      intro acc
      have hb := b.toNat_lt
      calc (b :: bs).foldl (fun acc b => acc * 256 + b.toNat) acc
          < (acc * 256 + b.toNat + 1) * 256 ^ bs.length := ih _
        _ ≤ (acc + 1) * 256 * 256 ^ bs.length := Nat.mul_le_mul_right _ (by omega)
        _ = (acc + 1) * 256 ^ (b :: bs).length := by rw [List.length_cons, pow_succ]; ring
  have hfold := hlt bytes 0
  rw [h] at hfold
  unfold IsI128 i128FromBeBytes
  dsimp only
  split <;> omega

example : i128FromBeBytes (List.replicate 16 0xff) = -1 := by decide

/-! ## The median -/

/-- The mean of two prices as `median` computes it. -/
def meanOfHalves (low high : ℤ) : ℤ :=
  if high.tmod 2 = 1 ∧ low.tmod 2 = 1 then high.tdiv 2 + low.tdiv 2 + 1
  else high.tdiv 2 + low.tdiv 2

theorem meanOfHalves_eq_iff (low high : ℤ) :
    meanOfHalves low high = (low + high) / 2 ↔ 0 ≤ low.tmod 2 + high.tmod 2 := by
  have hhigh := Int.mul_tdiv_add_tmod high 2
  have hlow := Int.mul_tdiv_add_tmod low 2
  unfold meanOfHalves
  rcases Int.tmod_two_eq high with h | h | h <;> rcases Int.tmod_two_eq low with h' | h' | h' <;>
    rw [h] at hhigh ⊢ <;> rw [h'] at hlow ⊢ <;> simp <;> omega

/-- The two prices in the middle of an even number of prices have halves whose remainders make up for
each other. -/
def HalvesFit (prices : List ℤ) : Prop :=
  prices.length % 2 = 0 → ∀ low high, Middle prices low high → 0 ≤ low.tmod 2 + high.tmod 2

/-- The length and the two elements that `median` looks up. -/
theorem middle_insertionSort {prices : List ℤ} {low high : ℤ} (h : Middle prices low high) :
    let sorted := prices.insertionSort (· ≤ ·)
    sorted.length = prices.length ∧ 0 < prices.length ∧ sorted[sorted.length / 2]? = some high ∧
      (prices.length % 2 = 1 → low = high) ∧
      (prices.length % 2 = 0 → sorted[sorted.length / 2 - 1]? = some low) := by
  intro sorted
  have hperm := List.perm_insertionSort (· ≤ ·) prices
  have hsorted := List.pairwise_insertionSort (· ≤ ·) prices
  have hlen : sorted.length = prices.length := hperm.length_eq
  have hpos : 0 < prices.length := List.length_pos_of_mem h.mem.1
  have hlt : sorted.length / 2 < sorted.length := by omega
  have hhigh := List.getElem?_eq_getElem hlt
  refine ⟨hlen, hpos, ?_⟩
  rcases Nat.mod_two_eq_zero_or_one prices.length with heven | hodd
  · have hlt' : sorted.length / 2 - 1 < sorted.length := by omega
    have hlow := List.getElem?_eq_getElem hlt'
    have hmiddle := middle_of_even hperm hsorted (hlen ▸ heven) (hlen ▸ hpos) hhigh hlow
    obtain ⟨hl, hh⟩ := hmiddle.unique h
    refine ⟨?_, by omega, fun _ => ?_⟩
    · rw [hhigh, hh]
    · rw [hlow, hl]
  · obtain ⟨hl, hh⟩ := (middle_of_odd hperm hsorted (hlen ▸ hodd) hhigh).unique h
    refine ⟨?_, fun _ => ?_, by omega⟩
    · rw [hhigh, hh]
    · rw [hl, hh]

theorem median_of_middle {prices : List ℤ} {low high : ℤ} (h : Middle prices low high) :
    median prices = some (if prices.length % 2 = 1 then low else meanOfHalves low high) := by
  obtain ⟨hlen, hpos, hhigh, hodd, heven⟩ := middle_insertionSort h
  unfold median
  dsimp only
  rw [hhigh, hlen]
  rcases Nat.mod_two_eq_zero_or_one prices.length with hmod | hmod
  · rw [hlen] at heven
    rw [if_neg (by omega), if_neg (by omega), heven hmod]
    unfold meanOfHalves
    rfl
  · rw [if_pos hmod, if_pos hmod, hodd hmod]

theorem median_nil : median [] = none := rfl

theorem median_perm {prices prices' : List ℤ} (h : prices.Perm prices') :
    median prices = median prices' := by
  rcases eq_or_ne prices [] with rfl | hne
  · rw [List.nil_perm.mp h]
  · obtain ⟨low, high, hmiddle⟩ := exists_middle hne
    rw [median_of_middle hmiddle, median_of_middle (hmiddle.perm h), h.length_eq]

/-- The median is the mean rounded down exactly if the halves fit. -/
theorem isMedian_iff {prices : List ℤ} {m : ℤ} (h : median prices = some m) :
    IsMedian prices m ↔ HalvesFit prices := by
  have hne : prices ≠ [] := by
    rintro rfl
    simp [median_nil] at h
  obtain ⟨low, high, hmiddle⟩ := exists_middle hne
  have hfit : HalvesFit prices ↔ (prices.length % 2 = 0 → 0 ≤ low.tmod 2 + high.tmod 2) := by
    refine forall_congr' fun _ => ⟨fun h => h low high hmiddle, fun h low' high' h' => ?_⟩
    obtain ⟨rfl, rfl⟩ := hmiddle.unique h'
    exact h
  rw [median_of_middle hmiddle, Option.some.injEq] at h
  rw [IsMedian.iff_of_middle hmiddle, hfit, ← meanOfHalves_eq_iff, ← h]
  rcases Nat.mod_two_eq_zero_or_one prices.length with hmod | hmod
  · simp [hmod]
  · obtain rfl := (middle_insertionSort hmiddle).2.2.2.1 hmod
    simp only [hmod, if_true]
    omega

namespace Machine

theorem toI128_of {x : ℤ} (h : IsI128 x) : toI128 x = some x := if_pos h

/-- Rounding towards zero does not leave the range of the halves. -/
theorem tdiv_two_range {x : ℤ} (h : IsI128 x) : -2 ^ 126 ≤ x.tdiv 2 ∧ x.tdiv 2 < 2 ^ 126 := by
  have hmod := Int.mul_tdiv_add_tmod x 2
  have htwo := Int.tmod_two_eq x
  unfold IsI128 at h
  rcases le_total 0 x with hx | hx
  · have := Int.tmod_nonneg 2 hx
    omega
  · have := Int.tmod_nonneg 2 (Int.neg_nonneg.mpr hx)
    rw [Int.neg_tmod] at this
    omega

theorem checkedDiv_two {x : ℤ} (h : IsI128 x) : checkedDiv x 2 = some (x.tdiv 2) := by
  have := tdiv_two_range h
  unfold checkedDiv
  rw [if_neg (by decide), toI128_of]
  unfold IsI128
  omega

/-- The halves of two integers of 128 bits and their sum have 128 bits, and so has the sum with the
correction. -/
theorem median_eq {prices : List ℤ} (h : ∀ price ∈ prices, IsI128 price) :
    median prices = .returns (Sequencer.median prices) := by
  rcases eq_or_ne prices [] with rfl | hne
  · rfl
  obtain ⟨low, high, hmiddle⟩ := exists_middle hne
  obtain ⟨hlen, hpos, hhigh, hodd, heven⟩ := middle_insertionSort hmiddle
  have hlowI := h low hmiddle.mem.1
  have hhighI := h high hmiddle.mem.2
  rw [median_of_middle hmiddle]
  unfold median
  dsimp only
  rw [hhigh]
  rcases Nat.mod_two_eq_zero_or_one prices.length with hmod | hmod
  · rw [hlen] at heven ⊢
    have hsub : checkedSub (prices.length / 2) 1 = some (prices.length / 2 - 1) :=
      checkedSub_eq_some.mpr ⟨by omega, by omega⟩
    have hlowRange := tdiv_two_range hlowI
    have hhighRange := tdiv_two_range hhighI
    rw [if_neg (by omega), if_neg (by omega), hsub]
    dsimp only
    have hhalfLow := checkedDiv_two hlowI
    have hhalfHigh := checkedDiv_two hhighI
    have hsum : checkedAdd (high.tdiv 2) (low.tdiv 2) = some (high.tdiv 2 + low.tdiv 2) :=
      toI128_of ⟨by omega, by omega⟩
    simp only [heven hmod, Outcome.ofOption_some, Outcome.returns_bind, hhalfLow, hhalfHigh, hsum,
      meanOfHalves]
    split
    · have hone : checkedAdd (high.tdiv 2 + low.tdiv 2) 1 = some (high.tdiv 2 + low.tdiv 2 + 1) :=
        toI128_of ⟨by omega, by omega⟩
      simp only [hone, Outcome.ofOption_some, Outcome.returns_bind, Outcome.pure_eq]
    · rfl
  · rw [if_pos (hlen ▸ hmod), if_pos hmod, hodd hmod]
    rfl

theorem medianPrices_eq {lists : PriceLists} (h : ∀ entry ∈ lists, ∀ price ∈ entry.2, IsI128 price) :
    medianPrices lists = .returns (lists.filterMap fun entry =>
      (Sequencer.median entry.2).map fun price =>
        { currencyPair := entry.1.currencyPair, price := price, decimals := entry.1.decimals }) := by
  induction lists with
  | nil => rfl
  | cons entry rest ih =>
    obtain ⟨info, prices⟩ := entry
    rw [medianPrices, median_eq (h (info, prices) (by simp)),
      ih fun entry hentry => h entry (List.mem_cons_of_mem _ hentry), List.filterMap_cons]
    cases Sequencer.median prices <;> rfl

end Machine

/-! ## The lists of prices -/

/-- The prices that some votes submit for a currency pair. -/
def submittedPrices (mapping : CurrencyPairMapping) (prices : List (ℕ × ℤ))
    (info : CurrencyPairInfo) : List ℤ :=
  prices.filterMap fun price =>
    if CurrencyPairMapping.get mapping price.1 = some info then some price.2 else none

theorem submittedPrices_append (mapping : CurrencyPairMapping) (prices prices' : List (ℕ × ℤ))
    (info : CurrencyPairInfo) :
    submittedPrices mapping (prices ++ prices') info =
      submittedPrices mapping prices info ++ submittedPrices mapping prices' info :=
  List.filterMap_append

theorem submittedPrices_perm {prices prices' : List (ℕ × ℤ)} (h : prices.Perm prices')
    (mapping : CurrencyPairMapping) (info : CurrencyPairInfo) :
    (submittedPrices mapping prices info).Perm (submittedPrices mapping prices' info) :=
  h.filterMap _

/-- The price lists hold the submitted prices of every currency pair that has some. -/
structure Collected (mapping : CurrencyPairMapping) (prices : List (ℕ × ℤ)) (lists : PriceLists) :
    Prop where
  nodup : (lists.map (·.1)).Nodup
  mem_iff : ∀ info l, (info, l) ∈ lists ↔ l = submittedPrices mapping prices info ∧ l ≠ []

theorem keys_push (info : CurrencyPairInfo) (price : ℤ) (lists : PriceLists) :
    (PriceLists.push info price lists).map (·.1) =
      if info ∈ lists.map (·.1) then lists.map (·.1) else lists.map (·.1) ++ [info] := by
  induction lists with
  | nil => rfl
  | cons entry rest ih =>
    obtain ⟨i, l⟩ := entry
    unfold PriceLists.push
    by_cases hi : i = info
    · simp [hi]
    · rw [if_neg hi, List.map_cons, ih]
      have hne : ¬ info = i := fun h => hi h.symm
      by_cases hmem : info ∈ rest.map (·.1) <;> simp [hmem, hne]

theorem mem_push {info : CurrencyPairInfo} {price : ℤ} {lists : PriceLists}
    (hnodup : (lists.map (·.1)).Nodup) (info' : CurrencyPairInfo) (l : List ℤ) :
    (info', l) ∈ PriceLists.push info price lists ↔
      if info' = info then
        (∃ l', (info, l') ∈ lists ∧ l = l' ++ [price]) ∨
          (info ∉ lists.map (·.1) ∧ l = [price])
      else (info', l) ∈ lists := by
  induction lists with
  | nil => by_cases h : info' = info <;> simp [PriceLists.push, h]
  | cons entry rest ih =>
    obtain ⟨i, k⟩ := entry
    rw [List.map_cons, List.nodup_cons] at hnodup
    have ih := ih hnodup.2
    unfold PriceLists.push
    by_cases hi : i = info
    · subst hi
      rw [if_pos rfl]
      have hrest : ∀ l', (i, l') ∉ rest := fun l' h => hnodup.1 (List.mem_map.mpr ⟨_, h, rfl⟩)
      by_cases h : info' = i
      · subst h
        simp [hrest]
      · simp [h]
    · rw [if_neg hi, List.mem_cons, ih]
      have hne : ¬ info = i := fun h => hi h.symm
      by_cases h : info' = info
      · subst h
        simp [hne]
      · simp [h]

theorem Collected.push {mapping : CurrencyPairMapping} {prices : List (ℕ × ℤ)} {lists : PriceLists}
    (h : Collected mapping prices lists) (price : ℕ × ℤ) :
    Collected mapping (prices ++ [price]) (collectPrice mapping lists price) := by
  have happend := submittedPrices_append mapping prices [price]
  unfold collectPrice
  cases hget : CurrencyPairMapping.get mapping price.1 with
  | none =>
    have hnone : ∀ info, submittedPrices mapping [price] info = [] := by
      intro info
      simp [submittedPrices, hget]
    refine ⟨h.nodup, fun info l => ?_⟩
    rw [h.mem_iff, happend, hnone, List.append_nil]
  | some found =>
    have hone : ∀ info, submittedPrices mapping [price] info =
        if found = info then [price.2] else [] := by
      intro info
      by_cases hi : found = info <;> simp [submittedPrices, hget, hi]
    dsimp only
    constructor
    · rw [keys_push]
      split_ifs with hmem
      · exact h.nodup
      · exact List.nodup_append.mpr ⟨h.nodup, by simp, by
          intro a ha b hb
          rw [List.mem_singleton] at hb
          rintro rfl
          exact hmem (hb ▸ ha)⟩
    · intro info l
      rw [mem_push h.nodup, happend, hone]
      by_cases hi : info = found
      · subst hi
        have hkey : info ∉ lists.map (·.1) ↔ submittedPrices mapping prices info = [] := by
          rw [List.mem_map]
          constructor
          · intro hnot
            by_contra hne
            exact hnot ⟨(info, _), (h.mem_iff info _).mpr ⟨rfl, hne⟩, rfl⟩
          · rintro hnil ⟨⟨i, k⟩, hentry, rfl⟩
            obtain ⟨hk, hne⟩ := (h.mem_iff i k).mp hentry
            exact hne (hk.trans hnil)
        rw [if_pos rfl, if_pos rfl, hkey]
        simp only [h.mem_iff]
        constructor
        · rintro (⟨l', ⟨rfl, -⟩, rfl⟩ | ⟨hnil, rfl⟩)
          · simp
          · simp [hnil]
        · rintro ⟨rfl, -⟩
          by_cases hnil : submittedPrices mapping prices info = []
          · exact Or.inr ⟨hnil, by simp [hnil]⟩
          · exact Or.inl ⟨_, ⟨rfl, hnil⟩, rfl⟩
      · rw [if_neg hi, if_neg fun hf => hi hf.symm, h.mem_iff, List.append_nil]

theorem collected (mapping : CurrencyPairMapping) (prices : List (ℕ × ℤ)) :
    Collected mapping prices (prices.foldl (collectPrice mapping) []) := by
  induction prices using List.reverseRecOn with
  | nil => exact ⟨by simp, by simp [submittedPrices]⟩
  | append_singleton prices price ih =>
    rw [List.foldl_append]
    exact ih.push price

/-- The two lists have the same currency pairs, and what is submitted for a pair is the same up to
order. -/
theorem Collected.medians_perm {mapping : CurrencyPairMapping} {prices prices' : List (ℕ × ℤ)}
    {lists lists' : PriceLists} (h : Collected mapping prices lists)
    (h' : Collected mapping prices' lists') (hperm : prices.Perm prices') :
    (lists.map fun entry => (entry.1, median entry.2)).Perm
      (lists'.map fun entry => (entry.1, median entry.2)) := by
  have hnodup : ∀ {lists : PriceLists}, (lists.map (·.1)).Nodup →
      (lists.map fun entry => (entry.1, median entry.2)).Nodup := by
    intro lists hkeys
    refine List.Nodup.of_map (·.1) ?_
    rwa [List.map_map]
  have hsub : ∀ {prices prices' : List (ℕ × ℤ)} {lists lists' : PriceLists},
      Collected mapping prices lists → Collected mapping prices' lists' → prices.Perm prices' →
      ∀ x ∈ lists.map fun entry => (entry.1, median entry.2),
        x ∈ lists'.map fun entry => (entry.1, median entry.2) := by
    intro prices prices' lists lists' h h' hperm x hx
    obtain ⟨⟨info, l⟩, hentry, rfl⟩ := List.mem_map.mp hx
    obtain ⟨rfl, hne⟩ := (h.mem_iff info l).mp hentry
    have hl := submittedPrices_perm hperm mapping info
    refine List.mem_map.mpr ⟨(info, submittedPrices mapping prices' info), ?_, ?_⟩
    · exact (h'.mem_iff _ _).mpr ⟨rfl, fun hnil => hne (List.perm_nil.mp (hnil ▸ hl))⟩
    · rw [median_perm hl]
  rw [List.perm_ext_iff_of_nodup (hnodup h.nodup) (hnodup h'.nodup)]
  exact fun x => ⟨hsub h h' hperm x, hsub h' h hperm.symm x⟩

theorem aggregateOracleVotes_perm {votes votes' : List (List (ℕ × ℤ))} (h : votes.Perm votes')
    (mapping : CurrencyPairMapping) :
    (aggregateOracleVotes votes mapping).Perm (aggregateOracleVotes votes' mapping) := by
  have hmedians := (collected mapping votes.flatten).medians_perm
    (collected mapping votes'.flatten) h.flatten
  have hfilter : ∀ lists : PriceLists, (lists.filterMap fun entry => (median entry.2).map fun price =>
      ({ currencyPair := entry.1.currencyPair, price := price, decimals := entry.1.decimals } : Price))
      = (lists.map fun entry => (entry.1, median entry.2)).filterMap fun x => x.2.map fun price =>
      { currencyPair := x.1.currencyPair, price := price, decimals := x.1.decimals } := by
    intro lists
    rw [List.filterMap_map]
    rfl
  unfold aggregateOracleVotes
  rw [hfilter, hfilter]
  exact hmedians.filterMap _

/-- The currency pair of a price with its decimals. -/
def Price.info (price : Price) : CurrencyPairInfo :=
  { currencyPair := price.currencyPair, decimals := price.decimals }

theorem mem_aggregateOracleVotes {votes : List (List (ℕ × ℤ))} {mapping : CurrencyPairMapping}
    {price : Price} :
    price ∈ aggregateOracleVotes votes mapping ↔
      median (submittedPrices mapping votes.flatten price.info) = some price.price := by
  have hmem := (collected mapping votes.flatten).mem_iff
  unfold aggregateOracleVotes
  rw [List.mem_filterMap]
  constructor
  · rintro ⟨⟨info, l⟩, hentry, hprice⟩
    obtain ⟨rfl, -⟩ := (hmem info l).mp hentry
    obtain ⟨m, hm, rfl⟩ := Option.map_eq_some_iff.mp hprice
    exact hm
  · intro h
    refine ⟨(price.info, _), (hmem _ _).mpr ⟨rfl, ?_⟩, Option.map_eq_some_iff.mpr ⟨_, h, rfl⟩⟩
    intro hnil
    rw [hnil, median_nil] at h
    simp at h

/-! ## The prices of a commit -/

theorem tryPricesFromRaw_isI128 {raw : RawOracleVoteExtension} {prices : List (ℕ × ℤ)}
    (h : tryPricesFromRaw raw = .ok prices) : ∀ price ∈ prices, IsI128 price.2 := by
  induction raw generalizing prices with
  | nil =>
    obtain rfl : [] = prices := by simpa [tryPricesFromRaw] using h
    simp
  | cons entry rest ih =>
    obtain ⟨id, bytes⟩ := entry
    unfold tryPricesFromRaw at h
    split_ifs at h with hlen
    split at h
    · rename_i prices' hrest
      obtain rfl : (id, i128FromBeBytes bytes) :: prices' = prices := by simpa using h
      rintro price (_ | ⟨_, hmem⟩)
      · exact i128FromBeBytes_isI128 hlen
      · exact ih hrest price hmem
    · simp at h

section

variable [codec : BlockCodec]

theorem decodeVotes_cons_eq_ok {vote : ExtendedVoteInfo} {rest : List ExtendedVoteInfo}
    {votes : List (List (ℕ × ℤ))} :
    decodeVotes (vote :: rest) = .ok votes ↔
      ∃ raw prices votes', codec.decodeOracleVoteExtension vote.voteExtension = some raw ∧
        tryPricesFromRaw raw = .ok prices ∧ decodeVotes rest = .ok votes' ∧
        votes = prices :: votes' := by
  rw [decodeVotes]
  cases codec.decodeOracleVoteExtension vote.voteExtension with
  | none => simp
  | some raw =>
    cases hprices : tryPricesFromRaw raw <;> cases hrest : decodeVotes rest <;>
      simp [hprices, eq_comm]

theorem decodeVotes_perm {infos infos' : List ExtendedVoteInfo} (h : infos.Perm infos') :
    ∀ {votes}, decodeVotes infos = .ok votes →
      ∃ votes', decodeVotes infos' = .ok votes' ∧ votes.Perm votes' := by
  induction h with
  | nil => exact fun h => ⟨_, h, .refl _⟩
  | cons vote _ ih =>
    intro votes hvotes
    obtain ⟨raw, prices, rest, hraw, hprices, hrest, rfl⟩ := decodeVotes_cons_eq_ok.mp hvotes
    obtain ⟨rest', hrest', hperm⟩ := ih hrest
    exact ⟨_, decodeVotes_cons_eq_ok.mpr ⟨raw, prices, rest', hraw, hprices, hrest', rfl⟩,
      hperm.cons prices⟩
  | swap vote vote' rest =>
    intro votes hvotes
    obtain ⟨raw, prices, tail, hraw, hprices, htail, rfl⟩ := decodeVotes_cons_eq_ok.mp hvotes
    obtain ⟨raw', prices', tail', hraw', hprices', htail', rfl⟩ := decodeVotes_cons_eq_ok.mp htail
    exact ⟨_, decodeVotes_cons_eq_ok.mpr ⟨raw', prices', _, hraw', hprices',
      decodeVotes_cons_eq_ok.mpr ⟨raw, prices, tail', hraw, hprices, htail', rfl⟩, rfl⟩, .swap ..⟩
  | trans _ _ ih ih' =>
    intro votes hvotes
    obtain ⟨votes', hvotes', hperm⟩ := ih hvotes
    obtain ⟨votes'', hvotes'', hperm'⟩ := ih' hvotes'
    exact ⟨votes'', hvotes'', hperm.trans hperm'⟩

theorem decodeVotes_isI128 {infos : List ExtendedVoteInfo} {votes : List (List (ℕ × ℤ))}
    (h : decodeVotes infos = .ok votes) : ∀ price ∈ votes.flatten, IsI128 price.2 := by
  induction infos generalizing votes with
  | nil =>
    obtain rfl : [] = votes := by simpa [decodeVotes] using h
    simp
  | cons vote rest ih =>
    obtain ⟨raw, prices, votes', -, hprices, hrest, rfl⟩ := decodeVotes_cons_eq_ok.mp h
    intro price hmem
    rw [List.flatten_cons, List.mem_append] at hmem
    rcases hmem with hmem | hmem
    · exact tryPricesFromRaw_isI128 hprices price hmem
    · exact ih hrest price hmem

/-- No step of the computation overflows or panics. -/
theorem Machine.calculatePrices_eq (info : ExtendedCommitInfoWithMapping) :
    Machine.calculatePrices info = .returns (Core.calculatePrices info) := by
  unfold Machine.calculatePrices Core.calculatePrices
  cases hvotes : decodeVotes info.extendedCommitInfo.votes with
  | error e => rfl
  | ok votes =>
    have hrange : ∀ entry ∈ votes.flatten.foldl (collectPrice info.idToCurrencyPair) [],
        ∀ price ∈ entry.2, IsI128 price := by
      rintro ⟨pair, l⟩ hentry price hprice
      obtain ⟨rfl, -⟩ := ((collected _ _).mem_iff pair l).mp hentry
      obtain ⟨x, hx, hsome⟩ := List.mem_filterMap.mp hprice
      have := decodeVotes_isI128 hvotes x hx
      split_ifs at hsome
      obtain rfl : x.2 = price := by simpa using hsome
      exact this
    dsimp only
    rw [Machine.medianPrices_eq hrange]
    rfl

/-- The same prices in some order, or both none. -/
def SamePrices : Except Report (List Price) → Except Report (List Price) → Prop
  | .ok prices, .ok prices' => prices.Perm prices'
  | .error _, .error _ => True
  | _, _ => False

theorem calculatePrices_perm (info : ExtendedCommitInfoWithMapping) {votes : List ExtendedVoteInfo}
    (h : votes.Perm info.extendedCommitInfo.votes) :
    SamePrices
      (calculatePrices { info with extendedCommitInfo := { info.extendedCommitInfo with votes := votes } })
      (calculatePrices info) := by
  unfold calculatePrices
  dsimp only
  cases hvotes : decodeVotes votes with
  | ok decoded =>
    obtain ⟨decoded', hdecoded', hperm⟩ := decodeVotes_perm h hvotes
    rw [hdecoded']
    exact aggregateOracleVotes_perm hperm _
  | error e =>
    cases hvotes' : decodeVotes info.extendedCommitInfo.votes with
    | error e' => trivial
    | ok decoded' =>
      obtain ⟨decoded, hdecoded, -⟩ := decodeVotes_perm h.symm hvotes'
      rw [hvotes] at hdecoded
      simp at hdecoded

/-- What the prices of vote extensions are for. -/
structure PricesSound (info : ExtendedCommitInfoWithMapping) : Prop where
  /-- The prices do not depend on the order of the votes. -/
  order : ∀ votes : List ExtendedVoteInfo, votes.Perm info.extendedCommitInfo.votes →
    SamePrices
      (calculatePrices { info with extendedCommitInfo := { info.extendedCommitInfo with votes := votes } })
      (calculatePrices info)
  /-- Every currency pair with a submitted price has one price. -/
  pairs : ∀ votes prices, decodeVotes info.extendedCommitInfo.votes = .ok votes →
    calculatePrices info = .ok prices → (prices.map Price.info).Nodup ∧
      ∀ pair, pair ∈ prices.map Price.info ↔
        submittedPrices info.idToCurrencyPair votes.flatten pair ≠ []
  /-- The price is the median of those submitted. -/
  medians : ∀ votes prices, decodeVotes info.extendedCommitInfo.votes = .ok votes →
    calculatePrices info = .ok prices → ∀ price ∈ prices,
      IsMedian (submittedPrices info.idToCurrencyPair votes.flatten price.info) price.price
  /-- No step overflows or panics. -/
  returns : Machine.calculatePrices info = .returns (calculatePrices info)

/-- The prices submitted for every currency pair have halves that fit. -/
def PricesFit (info : ExtendedCommitInfoWithMapping) : Prop :=
  ∀ votes, decodeVotes info.extendedCommitInfo.votes = .ok votes →
    ∀ pair, HalvesFit (submittedPrices info.idToCurrencyPair votes.flatten pair)

theorem calculatePrices_pairs {info : ExtendedCommitInfoWithMapping} {votes : List (List (ℕ × ℤ))}
    {prices : List Price} (hvotes : decodeVotes info.extendedCommitInfo.votes = .ok votes)
    (hprices : calculatePrices info = .ok prices) :
    (prices.map Price.info).Nodup ∧ ∀ pair, pair ∈ prices.map Price.info ↔
      submittedPrices info.idToCurrencyPair votes.flatten pair ≠ [] := by
  obtain rfl : aggregateOracleVotes votes info.idToCurrencyPair = prices := by
    simpa [calculatePrices, hvotes] using hprices
  constructor
  · have hsub : ∀ lists : PriceLists, ((lists.filterMap fun entry =>
        (median entry.2).map fun price => ({ currencyPair := entry.1.currencyPair, price := price
                                             decimals := entry.1.decimals } : Price)).map
          Price.info).Sublist (lists.map (·.1)) := by
      intro lists
      induction lists with
      | nil => simp
      | cons entry rest ih =>
        rw [List.filterMap_cons, List.map_cons]
        cases median entry.2 with
        | none => exact ih.cons _
        | some price => exact ih.cons_cons _
    exact (hsub _).nodup (collected _ _).nodup
  · intro pair
    rw [List.mem_map]
    constructor
    · rintro ⟨price, hprice, rfl⟩ hnil
      rw [mem_aggregateOracleVotes, hnil, median_nil] at hprice
      simp at hprice
    · intro hne
      obtain ⟨low, high, hmiddle⟩ := exists_middle hne
      exact ⟨{ currencyPair := pair.currencyPair, price := _, decimals := pair.decimals },
        mem_aggregateOracleVotes.mpr (median_of_middle hmiddle), rfl⟩

/-- The prices are the medians exactly if no two prices in the middle have remainders below zero
together. -/
theorem calculatePrices_sound_iff (info : ExtendedCommitInfoWithMapping) :
    PricesSound info ↔ PricesFit info := by
  constructor
  · intro h votes hvotes pair heven low high hmiddle
    have hprices : calculatePrices info = .ok (aggregateOracleVotes votes info.idToCurrencyPair) := by
      simp [calculatePrices, hvotes]
    let price : Price :=
      { currencyPair := pair.currencyPair, price := meanOfHalves low high, decimals := pair.decimals }
    have hmedian : median (submittedPrices info.idToCurrencyPair votes.flatten pair) =
        some (meanOfHalves low high) := by
      rw [median_of_middle hmiddle, if_neg (by omega)]
    have hmem : price ∈ aggregateOracleVotes votes info.idToCurrencyPair :=
      mem_aggregateOracleVotes.mpr hmedian
    exact (isMedian_iff hmedian).mp (h.medians votes _ hvotes hprices price hmem) heven low high hmiddle
  · intro h
    refine ⟨fun votes hvotes => calculatePrices_perm info hvotes,
      fun votes prices hvotes hprices => calculatePrices_pairs hvotes hprices, ?_,
      Machine.calculatePrices_eq info⟩
    intro votes prices hvotes hprices price hmem
    obtain rfl : aggregateOracleVotes votes info.idToCurrencyPair = prices := by
      simpa [calculatePrices, hvotes] using hprices
    have hmedian := mem_aggregateOracleVotes.mp hmem
    exact (isMedian_iff hmedian).mpr (h votes hvotes price.info)

end

/-! ## Two negative prices -/

open TestUtils TestVotes

/-- The price -1 for the currency pair 0. -/
def minusOnePrices : Bytes := [0x0a, 0x12, 0x12, 0x10] ++ List.replicate 16 0xff

/-- Two validators submit the price -1. -/
def minusOneCommit : ExtendedCommitInfoWithMapping :=
  { extendedCommitInfo :=
      { round := 0
        votes := [aliceKey, bobKey].map fun key =>
          { validator := { address := addressBytes key, power := 10 }
            sigInfo := .flag .commit
            voteExtension := minusOnePrices
            extensionSignature := some (List.replicate 64 0) } }
    idToCurrencyPair := [(0, { currencyPair := btcUsd, decimals := 8 })] }

/-- The price is 0, which is not even between the submitted ones. -/
theorem not_pricesSound_minusOneCommit :
    calculatePrices minusOneCommit =
        .ok [{ currencyPair := btcUsd, price := 0, decimals := 8 }] ∧
      ¬ PricesSound minusOneCommit := by
  have hprices : calculatePrices minusOneCommit =
      .ok [{ currencyPair := btcUsd, price := 0, decimals := 8 }] := by decide +kernel
  have hvotes : decodeVotes minusOneCommit.extendedCommitInfo.votes = .ok [[(0, -1)], [(0, -1)]] := by
    decide +kernel
  refine ⟨hprices, fun h => ?_⟩
  have hmedian := h.medians _ _ hvotes hprices _ (List.mem_singleton_self _)
  obtain ⟨low, high, hmiddle, -, hle⟩ := hmedian.between
  have hhigh := hmiddle.mem.2
  have hsubmitted : ∀ x ∈ submittedPrices minusOneCommit.idToCurrencyPair
      [[(0, -1)], [(0, -1)]].flatten { currencyPair := btcUsd, decimals := 8 }, x = -1 := by
    decide +kernel
  have := hsubmitted high hhigh
  dsimp only at hle
  omega

end Astria.Core
