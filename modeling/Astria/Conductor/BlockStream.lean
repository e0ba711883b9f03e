import Astria.Core.Primitive
import Astria.Lib.Outcome
import Mathlib.Data.List.Range
import Mathlib.Order.Basic

/-!
# The stream of soft blocks

The heights that the reader of the sequencer requests (`crates/astria-conductor/src/sequencer/
block_stream.rs`): one after the other, up to the latest height that was observed, and not too far ahead
of what the rollup expects.

After the first request the next height is the one after the greatest requested height, wherever the
rollup is.  If the executor has gone on without the stream, because it executed firm blocks, the stream
fetches the blocks below the rollup's next expected height all the same.

Results:
* `nextHeightToFetch_eq_some`: what holds of a height that is to be fetched;
* `RequestsTracked.fill`: the loop of `poll_next` ends with nothing to fetch or a full queue;
* `RequestsTracked.run`: no run panics, and its requests are for consecutive heights;
* `requests_sound_iff`: in every run, the requests are as promised exactly if the rollup expects no more
  than the height after the greatest requested one when they are made.
-/

namespace Astria.Conductor

open Astria.Core Astria.Lib

/-- `tendermint::block::Height`. -/
structure Height where
  value : ℕ
  value_le : value ≤ maxHeight

/-! ## Heights -/

/-- `Heights` (lines 34–40). -/
structure Heights where
  rollupExpects : ℕ
  greatestRequestedHeight : Option ℕ
  latestObservedSequencerHeight : Option ℕ
  stopHeight : Option ℕ
  maxAhead : ℕ
  deriving DecidableEq

namespace Heights

/-- The height after the greatest requested one, or what the rollup expects. -/
def potentialHeight (h : Heights) : ℕ :=
  match h.greatestRequestedHeight with
  | none => h.rollupExpects
  | some greatestRequestedHeight => saturatingAdd u64Max greatestRequestedHeight 1

/-- `next_height_to_fetch`. -/
def nextHeightToFetch (h : Heights) : Option ℕ :=
  match h.latestObservedSequencerHeight with
  | none => none
  | some latestObservedSequencerHeight =>
    let notTooFarAhead := h.potentialHeight < saturatingAdd u64Max h.rollupExpects h.maxAhead
    let heightExistsOnSequencer := h.potentialHeight ≤ latestObservedSequencerHeight
    let stopHeightReached := h.stopHeight.any fun stopHeight => stopHeight < h.potentialHeight
    if notTooFarAhead ∧ heightExistsOnSequencer ∧ stopHeightReached = false then
      some h.potentialHeight
    else none

/-- `set_greatest_if_greater`. -/
def setGreatestIfGreater (height : ℕ) (h : Heights) : Bool × Heights :=
  if h.greatestRequestedHeight.all fun old => old < height then
    (true, { h with greatestRequestedHeight := some height })
  else (false, h)

/-- `set_latest_observed_sequencer_height_if_greater`. -/
def setLatestObservedSequencerHeightIfGreater (new : Height) (h : Heights) : Bool × Heights :=
  if h.latestObservedSequencerHeight.all fun old => old < new.value then
    (true, { h with latestObservedSequencerHeight := some new.value })
  else (false, h)

/-- `set_rollup_expects_if_greater`. -/
def setRollupExpectsIfGreater (height : Height) (h : Heights) : Bool × Heights :=
  if h.rollupExpects < height.value then (true, { h with rollupExpects := height.value })
  else (false, h)

theorem nextHeightToFetch_eq_some {h : Heights} {height : ℕ} :
    h.nextHeightToFetch = some height ↔
      height = h.potentialHeight ∧ height < saturatingAdd u64Max h.rollupExpects h.maxAhead ∧
        (∃ latest, h.latestObservedSequencerHeight = some latest ∧ height ≤ latest) ∧
        ∀ stop ∈ h.stopHeight, height ≤ stop := by
  unfold nextHeightToFetch
  cases h.latestObservedSequencerHeight with
  | none => simp
  | some latest =>
    dsimp only
    constructor
    · intro heq
      split_ifs at heq with hall
      obtain rfl := Option.some.inj heq
      obtain ⟨hahead, hexists, hstop⟩ := hall
      refine ⟨rfl, hahead, ⟨latest, rfl, hexists⟩, ?_⟩
      intro stop hmem
      rw [Option.mem_def.mp hmem] at hstop
      simpa using hstop
    · rintro ⟨rfl, hahead, ⟨latest', hlatest, hexists⟩, hstop⟩
      obtain rfl := Option.some.inj hlatest
      have hreached : (h.stopHeight.any fun stop => stop < h.potentialHeight) = false := by
        cases hs : h.stopHeight with
        | none => rfl
        | some stop => simpa using hstop stop hs
      exact if_pos ⟨hahead, hexists, hreached⟩

end Heights

/-! ## The stream -/

/-- The fetches that are in flight at most. -/
def maxInFlight : ℕ := 20

/-- `futures_bounded::PushError`, or that there was none. -/
inductive PushResult where
  | ok
  | replaced
  | beyondCapacity
  deriving DecidableEq

/-- `FuturesMap::try_push`, of the heights in flight: a full map takes no height, and one that is in
flight is replaced. -/
def tryPush (height : ℕ) (inProgress : List ℕ) : PushResult × List ℕ :=
  if maxInFlight ≤ inProgress.length then (.beyondCapacity, inProgress)
  else if height ∈ inProgress then (.replaced, inProgress.erase height ++ [height])
  else (.ok, inProgress ++ [height])

/-- `BlocksFromHeightStream`. -/
structure BlocksFromHeightStream where
  heights : Heights
  inProgress : List ℕ

/-- A height that is requested, with the counters at that time. -/
structure Request where
  height : ℕ
  heights : Heights
  deriving DecidableEq

/-- What `FuturesMap::poll_unpin` finds. -/
inductive Ready where
  | none
  | fetched (height : ℕ)
  | timedOut (height : ℕ)

/-- What `poll_next` returns: a fetched height stands for the block or the failure of its fetch. -/
inductive PollNext where
  | pending
  | item (height : ℕ)
  | done
  deriving DecidableEq

namespace BlocksFromHeightStream

/-- `new`. -/
def new (firstHeight : Height) (lastHeight : Option ℕ) : BlocksFromHeightStream where
  heights :=
    { rollupExpects := firstHeight.value
      greatestRequestedHeight := none
      latestObservedSequencerHeight := none
      stopHeight := lastHeight
      maxAhead := 128 }
  inProgress := []

/-- The body of the loop of `poll_next` (lines 193–214), if it does not end. -/
def schedule (s : BlocksFromHeightStream) : Option (Request × BlocksFromHeightStream) :=
  match s.heights.nextHeightToFetch with
  | none => none
  | some nextHeight =>
    match tryPush nextHeight s.inProgress with
    | (.beyondCapacity, _) => none
    | (_, inProgress) =>
      some ({ height := nextHeight, heights := s.heights },
        { heights := (s.heights.setGreatestIfGreater nextHeight).2, inProgress := inProgress })

/-- The loop of `poll_next`, for some rounds. -/
def fill : ℕ → BlocksFromHeightStream → List Request × BlocksFromHeightStream
  | 0, s => ([], s)
  | rounds + 1, s =>
    match s.schedule with
    | none => ([], s)
    | some (request, s) =>
      let (requests, s) := fill rounds s
      (request :: requests, s)

/-- `poll_next` (lines 184–249), with what is ready after the loop; a height that is not in flight is
not.  A fetch that timed out is scheduled again. -/
def pollNext (ready : Ready) (s : BlocksFromHeightStream) :
    Outcome (PollNext × List Request × BlocksFromHeightStream) :=
  let (requests, s) := s.fill (maxInFlight + 1)
  match ready with
  | .none => return (.pending, requests, s)
  | .fetched height =>
    if height ∈ s.inProgress then
      return (.item height, requests, { s with inProgress := s.inProgress.erase height })
    else return (.pending, requests, s)
  | .timedOut height =>
    if height ∈ s.inProgress then do
      let (res, inProgress) := tryPush height (s.inProgress.erase height)
      .assert (res = .ok)
      let s := { s with inProgress := inProgress }
      return (if s.heights.nextHeightToFetch = none then .done else .pending, requests, s)
    else return (.pending, requests, s)

/-- What happens to the stream. -/
inductive Event where
  /-- `RunningReader::handle_latest_height`. -/
  | latestHeight (height : Height)
  /-- `RunningReader::update_next_expected_height`. -/
  | nextExpectedHeight (nextHeight : Height)
  | poll (ready : Ready)

/-- One event: the requests it makes, and the stream after it. -/
def step (e : Event) (s : BlocksFromHeightStream) :
    Outcome (List Request × BlocksFromHeightStream) :=
  match e with
  | .latestHeight height =>
    return ([],
      { s with heights := (s.heights.setLatestObservedSequencerHeightIfGreater height).2 })
  | .nextExpectedHeight nextHeight =>
    return ([], { s with heights := (s.heights.setRollupExpectsIfGreater nextHeight).2 })
  | .poll ready => do
    let (_, requests, s) ← s.pollNext ready
    return (requests, s)

/-- A sequence of events, and the requests that were made before it. -/
def run : List Event → List Request → BlocksFromHeightStream →
    Outcome (List Request × BlocksFromHeightStream)
  | [], requests, s => return (requests, s)
  | e :: events, requests, s => do
    let (new, s) ← s.step e
    run events (requests ++ new) s

end BlocksFromHeightStream

/-! ## Requests -/

/-- The stream after some requests: they are for consecutive heights up to the greatest requested one,
and no height in flight is above it. -/
structure RequestsTracked (stop : Option ℕ) (requests : List Request) (s : BlocksFromHeightStream) :
    Prop where
  consecutive : ∃ first, requests.map Request.height = List.range' first requests.length ∧
    ∀ r ∈ requests, first ≤ r.heights.rollupExpects
  greatest : s.heights.greatestRequestedHeight = (requests.map Request.height).getLast?
  expects : ∀ r ∈ requests, r.heights.rollupExpects ≤ s.heights.rollupExpects
  fetched : ∀ r ∈ requests, r.heights.nextHeightToFetch = some r.height
  stop_eq : s.heights.stopHeight = stop ∧ ∀ r ∈ requests, r.heights.stopHeight = stop
  latest_le : ∀ latest ∈ s.heights.latestObservedSequencerHeight, latest ≤ maxHeight
  greatest_le : ∀ greatest ∈ s.heights.greatestRequestedHeight, greatest ≤ maxHeight
  greatest_at_le : ∀ r ∈ requests, ∀ greatest ∈ r.heights.greatestRequestedHeight, greatest ≤ maxHeight
  inFlight : ∀ height ∈ s.inProgress, ∃ greatest ∈ s.heights.greatestRequestedHeight, height ≤ greatest
  inFlight_le : s.inProgress.length ≤ maxInFlight
  inFlight_nodup : s.inProgress.Nodup

namespace RequestsTracked

variable {stop : Option ℕ} {requests : List Request} {s s' : BlocksFromHeightStream}

theorem forall_mem_snoc {p : Request → Prop} {r : Request} (hold : ∀ r' ∈ requests, p r') (hr : p r) :
    ∀ r' ∈ requests ++ [r], p r' := by
  intro r' hmem
  rcases List.mem_append.mp hmem with hmem | hmem
  · exact hold r' hmem
  · rwa [List.mem_singleton.mp hmem]

theorem potentialHeight_of_le {h : Heights} {greatest : ℕ} (hg : h.greatestRequestedHeight = some greatest)
    (hle : greatest ≤ maxHeight) : h.potentialHeight = greatest + 1 := by
  have hmin : greatest + 1 ≤ u64Max := le_trans (Nat.succ_le_succ hle) (by decide)
  simp [Heights.potentialHeight, hg, saturatingAdd, hmin]

theorem new (first : Height) (stop : Option ℕ) : RequestsTracked stop [] (.new first stop) where
  consecutive := ⟨first.value, rfl, nofun⟩
  greatest := rfl
  expects := nofun
  fetched := nofun
  stop_eq := ⟨rfl, nofun⟩
  latest_le := nofun
  greatest_le := nofun
  greatest_at_le := nofun
  inFlight := nofun
  inFlight_le := Nat.zero_le _
  inFlight_nodup := List.nodup_nil

/-- A height that is to be fetched is above every height in flight. -/
theorem lt_potentialHeight (ht : RequestsTracked stop requests s) {height : ℕ}
    (hmem : height ∈ s.inProgress) : height < s.heights.potentialHeight := by
  obtain ⟨greatest, hg, hle⟩ := ht.inFlight height hmem
  rw [potentialHeight_of_le hg (ht.greatest_le greatest hg)]
  exact Nat.lt_succ_of_le hle

/-- What a round of the loop does: it requests the next height, which was not in flight. -/
theorem schedule_eq_some (ht : RequestsTracked stop requests s) {r : Request} (h : s.schedule = some (r, s')) :
    s.heights.nextHeightToFetch = some r.height ∧ r.heights = s.heights ∧
      s.inProgress.length < maxInFlight ∧
      s' = { heights := { s.heights with greatestRequestedHeight := some r.height },
             inProgress := s.inProgress ++ [r.height] } := by
  unfold BlocksFromHeightStream.schedule at h
  cases hnext : s.heights.nextHeightToFetch with
  | none => simp [hnext] at h
  | some next =>
    obtain rfl := (Heights.nextHeightToFetch_eq_some.mp hnext).1
    have hfresh : s.heights.potentialHeight ∉ s.inProgress :=
      fun hmem => lt_irrefl _ (ht.lt_potentialHeight hmem)
    have hgreater : (s.heights.greatestRequestedHeight.all fun old => old < s.heights.potentialHeight)
        = true := by
      cases hg : s.heights.greatestRequestedHeight with
      | none => rfl
      | some greatest =>
        simp [potentialHeight_of_le hg (ht.greatest_le greatest hg)]
    by_cases hfull : maxInFlight ≤ s.inProgress.length
    · simp [hnext, tryPush, hfull] at h
    · simp only [hnext, tryPush, if_neg hfull, if_neg hfresh, Heights.setGreatestIfGreater, hgreater,
        if_true, Option.some.injEq, Prod.mk.injEq] at h
      obtain ⟨rfl, rfl⟩ := h
      exact ⟨rfl, rfl, not_le.mp hfull, rfl⟩

theorem schedule (ht : RequestsTracked stop requests s) {r : Request} (h : s.schedule = some (r, s')) :
    RequestsTracked stop (requests ++ [r]) s' := by
  obtain ⟨hnext, hheights, hroom, rfl⟩ := ht.schedule_eq_some h
  obtain ⟨hpot, -, ⟨latest, hlatest, hle⟩, -⟩ := Heights.nextHeightToFetch_eq_some.mp hnext
  obtain ⟨first, hconsecutive, hfirst⟩ := ht.consecutive
  have hlast := ht.greatest
  -- The next height continues the requests that were made.
  have hnew : requests ≠ [] → r.height = first + requests.length := by
    intro hne
    have hlen : 0 < requests.length := List.length_pos_iff.mpr hne
    have hg : s.heights.greatestRequestedHeight = some (first + requests.length - 1) := by
      rw [hlast, hconsecutive, List.getLast?_range', if_neg (Nat.pos_iff_ne_zero.mp hlen)]
    rw [hpot, potentialHeight_of_le hg (ht.greatest_le _ hg)]
    omega
  constructor
  · rcases requests.eq_nil_or_concat with rfl | ⟨init, last, rfl⟩
    · refine ⟨r.height, by simp, forall_mem_snoc (fun _ hmem => absurd hmem List.not_mem_nil) ?_⟩
      rw [hpot, hheights]
      simp [Heights.potentialHeight, hlast]
    · refine ⟨first, ?_, forall_mem_snoc hfirst ?_⟩
      · rw [List.map_append, hconsecutive, List.length_append, List.length_singleton,
          List.range'_concat, Nat.one_mul, ← hnew (by simp)]
        rfl
      · have hmem : last ∈ init.concat last := by simp
        rw [hheights]
        exact le_trans (hfirst last hmem) (ht.expects last hmem)
  · simp
  · exact forall_mem_snoc ht.expects (le_of_eq (by rw [hheights]))
  · exact forall_mem_snoc ht.fetched (by rw [hheights, hnext])
  · exact ⟨ht.stop_eq.1, forall_mem_snoc ht.stop_eq.2 (by rw [hheights, ht.stop_eq.1])⟩
  · exact ht.latest_le
  · intro greatest hg
    obtain rfl := Option.some.inj hg
    exact le_trans hle (ht.latest_le latest hlatest)
  · exact forall_mem_snoc ht.greatest_at_le (by rw [hheights]; exact ht.greatest_le)
  · intro height hmem
    refine ⟨r.height, rfl, ?_⟩
    rcases List.mem_append.mp hmem with hold | hr
    · rw [hpot]
      exact le_of_lt (ht.lt_potentialHeight hold)
    · exact le_of_eq (List.mem_singleton.mp hr)
  · rw [List.length_append, List.length_singleton]
    exact hroom
  · refine List.nodup_append.mpr ⟨ht.inFlight_nodup, List.nodup_singleton _, ?_⟩
    rintro a hmem _ hr rfl
    obtain rfl := List.mem_singleton.mp hr
    exact absurd (ht.lt_potentialHeight hmem) (by rw [← hpot]; exact lt_irrefl _)

/-- The loop ends before its rounds are spent. -/
theorem fill (ht : RequestsTracked stop requests s) (rounds : ℕ)
    (hrounds : maxInFlight < rounds + s.inProgress.length) :
    (s.fill rounds).2.schedule = none ∧
      RequestsTracked stop (requests ++ (s.fill rounds).1) (s.fill rounds).2 := by
  induction rounds generalizing requests s with
  | zero => exact absurd ht.inFlight_le (by omega)
  | succ rounds ih =>
    cases hs : s.schedule with
    | none =>
      have hfill : s.fill (rounds + 1) = ([], s) := by simp [BlocksFromHeightStream.fill, hs]
      rw [hfill, List.append_nil]
      exact ⟨hs, ht⟩
    | some out =>
      obtain ⟨r, s'⟩ := out
      have hfill : s.fill (rounds + 1) = (r :: (s'.fill rounds).1, (s'.fill rounds).2) := by
        simp [BlocksFromHeightStream.fill, hs]
      have hlength : s'.inProgress.length = s.inProgress.length + 1 := by
        obtain ⟨-, -, -, rfl⟩ := ht.schedule_eq_some hs
        simp
      have htail := ih (ht.schedule hs) (by omega)
      rw [hfill]
      simpa using htail

theorem erase (ht : RequestsTracked stop requests s) (height : ℕ) :
    RequestsTracked stop requests { s with inProgress := s.inProgress.erase height } :=
  { ht with
    inFlight := fun other hmem => ht.inFlight other (List.mem_of_mem_erase hmem)
    inFlight_le := le_trans List.length_erase_le ht.inFlight_le
    inFlight_nodup := ht.inFlight_nodup.erase height }

/-- A height that was in flight finds its place again. -/
theorem retry (ht : RequestsTracked stop requests s) {height : ℕ} (hmem : height ∈ s.inProgress) :
    tryPush height (s.inProgress.erase height) = (.ok, s.inProgress.erase height ++ [height]) ∧
      RequestsTracked stop requests { s with inProgress := s.inProgress.erase height ++ [height] } := by
  have hlength : (s.inProgress.erase height).length + 1 = s.inProgress.length := by
    rw [List.length_erase_of_mem hmem]
    exact Nat.sub_add_cancel (List.length_pos_of_mem hmem)
  have hle := ht.inFlight_le
  have hroom : ¬ maxInFlight ≤ (s.inProgress.erase height).length := by omega
  have hfresh : height ∉ s.inProgress.erase height := ht.inFlight_nodup.not_mem_erase
  have hperm : List.Perm (s.inProgress.erase height ++ [height]) s.inProgress :=
    (List.perm_append_singleton height _).trans (List.perm_cons_erase hmem).symm
  refine ⟨by simp [tryPush, hroom, hfresh], { ht with inFlight := ?_, inFlight_le := ?_, inFlight_nodup := ?_ }⟩
  · exact fun other hother => ht.inFlight other (hperm.mem_iff.mp hother)
  · exact hperm.length_eq ▸ hle
  · exact hperm.nodup_iff.mpr ht.inFlight_nodup

theorem pollNext (ht : RequestsTracked stop requests s) (ready : Ready) :
    ∃ polled new s', s.pollNext ready = .returns (polled, new, s') ∧
      RequestsTracked stop (requests ++ new) s' := by
  obtain ⟨-, hfill⟩ := ht.fill (maxInFlight + 1) (by omega)
  unfold BlocksFromHeightStream.pollNext
  generalize s.fill (maxInFlight + 1) = filled at hfill ⊢
  obtain ⟨new, s₁⟩ := filled
  cases ready with
  | none => exact ⟨_, _, _, rfl, hfill⟩
  | fetched height =>
    by_cases hmem : height ∈ s₁.inProgress
    · exact ⟨_, _, _, if_pos hmem, hfill.erase height⟩
    · exact ⟨_, _, _, if_neg hmem, hfill⟩
  | timedOut height =>
    by_cases hmem : height ∈ s₁.inProgress
    · obtain ⟨hpush, hretry⟩ := hfill.retry hmem
      refine ⟨if s₁.heights.nextHeightToFetch = none then .done else .pending, _, _, ?_, hretry⟩
      simp only [if_pos hmem, hpush, Outcome.assert_of, Outcome.returns_bind]
      rfl
    · exact ⟨_, _, _, if_neg hmem, hfill⟩

theorem step (ht : RequestsTracked stop requests s) (e : BlocksFromHeightStream.Event) :
    ∃ new s', s.step e = .returns (new, s') ∧ RequestsTracked stop (requests ++ new) s' := by
  cases e with
  | latestHeight height =>
    refine ⟨_, _, rfl, ?_⟩
    rw [List.append_nil]
    unfold Heights.setLatestObservedSequencerHeightIfGreater
    split
    · refine { ht with latest_le := ?_ }
      intro latest hlatest
      obtain rfl := Option.some.inj hlatest
      exact height.value_le
    · exact ht
  | nextExpectedHeight nextHeight =>
    refine ⟨_, _, rfl, ?_⟩
    rw [List.append_nil]
    unfold Heights.setRollupExpectsIfGreater
    split
    next hlt => exact { ht with expects := fun r hmem => le_trans (ht.expects r hmem) (le_of_lt hlt) }
    next => exact ht
  | poll ready =>
    obtain ⟨polled, new, s', hpoll, hs'⟩ := ht.pollNext ready
    exact ⟨new, s', by simp [BlocksFromHeightStream.step, hpoll], hs'⟩

/-- No run panics, and the requests of a run are tracked. -/
theorem run (events : List BlocksFromHeightStream.Event) (ht : RequestsTracked stop requests s) :
    ∃ requests' s', s.run events requests = .returns (requests', s') ∧
      RequestsTracked stop requests' s' := by
  induction events generalizing requests s with
  | nil => exact ⟨requests, s, rfl, ht⟩
  | cons e events ih =>
    obtain ⟨new, s₁, hstep, hs₁⟩ := ht.step e
    obtain ⟨requests', s', hrun, hs'⟩ := ih hs₁
    exact ⟨requests', s', by simp [BlocksFromHeightStream.run, hstep, hrun], hs'⟩

theorem increasing (ht : RequestsTracked stop requests s) :
    (requests.map Request.height).Pairwise (· < ·) := by
  obtain ⟨first, hconsecutive, -⟩ := ht.consecutive
  rw [hconsecutive]
  exact List.pairwise_lt_range'

end RequestsTracked

/-! ## What is promised -/

/-- The heights of the requests rise; none is above the latest observed height or the stop height, too far
ahead of what the rollup expects, or below it; and no height that the rollup expected is left out. -/
structure RequestsSound (stop : Option ℕ) (requests : List Request) : Prop where
  increasing : (requests.map Request.height).Pairwise (· < ·)
  observed : ∀ r ∈ requests, ∃ latest ∈ r.heights.latestObservedSequencerHeight, r.height ≤ latest
  notAboveStop : ∀ r ∈ requests, ∀ last ∈ stop, r.height ≤ last
  notTooFarAhead : ∀ r ∈ requests, r.height < r.heights.rollupExpects + r.heights.maxAhead
  expected : ∀ r ∈ requests, r.heights.rollupExpects ≤ r.height
  noneSkipped : ∀ r ∈ requests, ∀ height, r.heights.rollupExpects ≤ height → height < r.height →
    ∃ r' ∈ requests, r'.height = height

theorem RequestsTracked.expected_iff {stop : Option ℕ} {requests : List Request} {s : BlocksFromHeightStream}
    (ht : RequestsTracked stop requests s) {r : Request} (hmem : r ∈ requests) :
    r.heights.rollupExpects ≤ r.height ↔
      ∀ greatest ∈ r.heights.greatestRequestedHeight, r.heights.rollupExpects ≤ greatest + 1 := by
  obtain ⟨hpot, -⟩ := Heights.nextHeightToFetch_eq_some.mp (ht.fetched r hmem)
  rw [hpot]
  cases hg : r.heights.greatestRequestedHeight with
  | none => simp [Heights.potentialHeight, hg]
  | some greatest =>
    rw [RequestsTracked.potentialHeight_of_le hg (ht.greatest_at_le r hmem greatest hg)]
    simp

/-- In every run, the requests are as promised exactly if, whenever one was made, the rollup expected no
more than the height after the greatest requested one. -/
theorem requests_sound_iff (first : Height) (stop : Option ℕ)
    (events : List BlocksFromHeightStream.Event) :
    ∃ requests s, (BlocksFromHeightStream.new first stop).run events [] = .returns (requests, s) ∧
      (RequestsSound stop requests ↔
        ∀ r ∈ requests, ∀ greatest ∈ r.heights.greatestRequestedHeight,
          r.heights.rollupExpects ≤ greatest + 1) := by
  obtain ⟨requests, s, hrun, ht⟩ := (RequestsTracked.new first stop).run events
  refine ⟨requests, s, hrun, ?_, ?_⟩
  · intro hsound r hmem
    exact (ht.expected_iff hmem).mp (hsound.expected r hmem)
  · intro hclose
    constructor
    · exact ht.increasing
    · intro r hmem
      obtain ⟨-, -, ⟨latest, hlatest, hle⟩, -⟩ := Heights.nextHeightToFetch_eq_some.mp (ht.fetched r hmem)
      exact ⟨latest, hlatest, hle⟩
    · intro r hmem last hlast
      obtain ⟨-, -, -, hstop⟩ := Heights.nextHeightToFetch_eq_some.mp (ht.fetched r hmem)
      exact hstop last (by rwa [ht.stop_eq.2 r hmem])
    · intro r hmem
      obtain ⟨-, hahead, -⟩ := Heights.nextHeightToFetch_eq_some.mp (ht.fetched r hmem)
      exact lt_of_lt_of_le hahead (Nat.min_le_left _ _)
    · intro r hmem
      exact (ht.expected_iff hmem).mpr (hclose r hmem)
    · intro r hmem height hexpects hlt
      obtain ⟨first, hconsecutive, hfirst⟩ := ht.consecutive
      have hr : r.height ∈ List.range' first requests.length :=
        hconsecutive ▸ List.mem_map_of_mem hmem
      have hheight : height ∈ requests.map Request.height := by
        have hle := hfirst r hmem
        rw [hconsecutive]
        rw [List.mem_range'_1] at hr ⊢
        omega
      exact List.mem_map.mp hheight

/-- The rollup went on to height 10 after height 2 was requested. -/
theorem not_requestsSound_gone_on :
    ∃ requests s,
      (BlocksFromHeightStream.new ⟨1, by decide⟩ none).run
          [.latestHeight ⟨2, by decide⟩, .poll .none, .nextExpectedHeight ⟨10, by decide⟩,
            .latestHeight ⟨3, by decide⟩, .poll .none] [] = .returns (requests, s) ∧
        ¬ RequestsSound none requests := by
  refine ⟨_, _, rfl, ?_⟩
  intro hsound
  exact absurd hsound.expected (by decide)

end Astria.Conductor
