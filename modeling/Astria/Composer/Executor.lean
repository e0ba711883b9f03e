import Astria.Composer.BundleFactory
import Astria.Sequencer.TestUtils

/-!
# The composer's executor

The event loop of the composer and its shutdown
(`crates/astria-composer/src/executor/mod.rs`, lines 225–322 and 457–472).

A submission to the sequencer is one event with its result; the timer and the arrival of submissions are
events of their own.  The bundles that were handed to a submission are kept in order, beside the state of
the source.

Results:
* `Inv.step`, `Runs.inv`: what every event, and every run, keeps;
* `losesNothing_iff`: the shutdown loses nothing exactly if the bundles that it finishes fit the queue.
-/

namespace Astria.Composer

open Astria.Core
open Astria.Sequencer (External)

/-! ## The event loop -/

/-- The configuration of the factory. -/
structure Config where
  maxBytesPerBundle : ℕ
  bundleQueueCapacity : ℕ

/-- The variables of `run_until_stopped`, with the bundles that were submitted. -/
structure EventLoop where
  nonce : ℕ
  submissionFut : Option SizedBundle
  bundleFactory : BundleFactory
  failure : Option Report
  submitted : List SizedBundle

namespace EventLoop

def start (config : Config) (nonce : ℕ) : EventLoop :=
  { nonce := nonce
    submissionFut := none
    bundleFactory := BundleFactory.new config.maxBytesPerBundle config.bundleQueueCapacity
    failure := none
    submitted := [] }

/-- `submit_bundle`. -/
def submitBundle (bundle : SizedBundle) (s : EventLoop) : EventLoop :=
  { s with submissionFut := some bundle, submitted := s.submitted ++ [bundle] }

end EventLoop

/-- The branches of the `select!`, less the shutdown. -/
inductive Event where
  | submissionFinished (result : Except Report ℕ)
  | nextFinished
  | receive (action : RollupDataSubmission)
  | timer

namespace EventLoop

/-- Whether a finished bundle is popped before anything is received and before the timer is polled. -/
def popsNext (s : EventLoop) : Bool := s.submissionFut.isNone && !s.bundleFactory.finished.isEmpty

/-- Whether the loop may select a branch. -/
def enabled (s : EventLoop) : Event → Bool
  | .submissionFinished _ => s.failure.isNone && s.submissionFut.isSome
  | .nextFinished => s.failure.isNone && s.popsNext
  | .receive _ => s.failure.isNone && !s.popsNext && !s.bundleFactory.isFull
  | .timer => s.failure.isNone && !s.popsNext && s.submissionFut.isNone

variable [External]

/-- The body of a branch. -/
def step (s : EventLoop) : Event → EventLoop
  | .submissionFinished (.ok nonce) => { s with nonce := nonce, submissionFut := none }
  | .submissionFinished (.error e) =>
    { s with submissionFut := none, failure := some ("failed submitting bundle to sequencer" :: e) }
  | .nextFinished =>
    match s.bundleFactory.popFinished with
    | none => s
    | some (bundle, f) =>
      let s := { s with bundleFactory := f }
      if bundle.isEmpty then s else s.submitBundle bundle
  | .receive action => { s with bundleFactory := s.bundleFactory.bundleSeqAction action }
  | .timer =>
    let s' := { s with bundleFactory := s.bundleFactory.popNow.2 }
    if s.bundleFactory.popNow.1.isEmpty then s' else s'.submitBundle s.bundleFactory.popNow.1

/-- The bundles to drain after a shutdown, when the submissions in the channel were received; a loop that
failed returns before. -/
def bundlesToDrain (s : EventLoop) (channel : List RollupDataSubmission) : List SizedBundle :=
  if s.failure.isSome then []
  else (channel.foldl BundleFactory.bundleSeqAction s.bundleFactory).drainBundles

theorem bundlesToDrain_eq {s : EventLoop} (h : s.failure = none) (channel : List RollupDataSubmission) :
    s.bundlesToDrain channel =
      (channel.foldl BundleFactory.bundleSeqAction s.bundleFactory).drainBundles := by
  rw [bundlesToDrain, h]
  rfl

end EventLoop

/-- The submission that an event receives. -/
def Event.received : Event → List RollupDataSubmission
  | .receive action => [action]
  | _ => []

/-- The states of the event loop, with the submissions received on the way. -/
inductive Runs [External] (config : Config) : List RollupDataSubmission → EventLoop → Prop
  | start {nonce : ℕ} : Runs config [] (EventLoop.start config nonce)
  | step {received : List RollupDataSubmission} {s : EventLoop} {e : Event} :
      Runs config received s → s.enabled e = true → Runs config (received ++ e.received) (s.step e)

/-! ## What the factory keeps -/

/-- The size of a bundle is that of its submissions, and at most the largest. -/
structure SizedBundle.WellSized (maxSize : ℕ) (b : SizedBundle) : Prop where
  maxSize_eq : b.maxSize = maxSize
  size_eq : (b.buffer.map encodedLen).sum = b.currSize
  size_le : b.currSize ≤ maxSize

theorem SizedBundle.wellSized_new (maxSize : ℕ) : (SizedBundle.new maxSize).WellSized maxSize :=
  ⟨rfl, rfl, Nat.zero_le _⟩

/-- The bundles of a factory are well-sized, and its finished ones are as many as fit and not empty; the
submissions that were received have a given size in total. -/
structure BundleFactory.WellFormed (config : Config) (total : ℕ) (f : BundleFactory) : Prop where
  curr : f.currBundle.WellSized config.maxBytesPerBundle
  finished : ∀ b ∈ f.finished, b.WellSized config.maxBytesPerBundle ∧ b.buffer ≠ []
  capacity_eq : f.finishedQueueCapacity = config.bundleQueueCapacity
  length_le : f.finished.length ≤ config.bundleQueueCapacity
  curr_le : f.currBundle.currSize ≤ total

section

variable [External] {config : Config} {total : ℕ} {f : BundleFactory} {action : RollupDataSubmission}

/-- The sizes of submissions as the factory sees them. -/
def sizes (l : List RollupDataSubmission) : List ℕ := l.map fun action => encodedLen (withIbcPrefixed action)

theorem sum_sizes_append (l l' : List RollupDataSubmission) :
    (sizes (l ++ l')).sum = (sizes l).sum + (sizes l').sum := by
  unfold sizes
  rw [List.map_append, List.sum_append]

/-- The submissions that fit a bundle, as the factory has them. -/
def fitting (config : Config) (l : List RollupDataSubmission) : List RollupDataSubmission :=
  (l.map withIbcPrefixed).filter fun action => encodedLen action ≤ config.maxBytesPerBundle

theorem fitting_append (l l' : List RollupDataSubmission) :
    fitting config (l ++ l') = fitting config l ++ fitting config l' := by
  unfold fitting
  rw [List.map_append, List.filter_append]

theorem fitting_singleton_of_lt
    (h : config.maxBytesPerBundle < encodedLen (withIbcPrefixed action)) :
    fitting config [action] = [] := by
  unfold fitting
  simp [h]

theorem fitting_singleton_of_le
    (h : encodedLen (withIbcPrefixed action) ≤ config.maxBytesPerBundle) :
    fitting config [action] = [withIbcPrefixed action] := by
  unfold fitting
  simp [h]

/-- The sizes of a bundle do not run over: the largest size is below the largest `usize`, or all
submissions together are. -/
def NoOverflow (config : Config) (total : ℕ) : Prop :=
  config.maxBytesPerBundle < usizeMax ∨ total ≤ usizeMax
  deriving Decidable

omit [External] in
/-- A push that does not run over keeps the size. -/
theorem SizedBundle.WellSized.pushed {b : SizedBundle} {maxSize : ℕ} (h : b.WellSized maxSize)
    (hle : saturatingAdd usizeMax b.currSize (encodedLen action) ≤ maxSize)
    (hover : maxSize < usizeMax ∨ b.currSize + encodedLen action ≤ usizeMax) :
    (b.pushed action).WellSized maxSize := by
  have hsum : saturatingAdd usizeMax b.currSize (encodedLen action) =
      b.currSize + encodedLen action := by
    unfold saturatingAdd at hle ⊢
    omega
  refine ⟨h.maxSize_eq, ?_, hle⟩
  show ((b.buffer ++ [action]).map encodedLen).sum =
    saturatingAdd usizeMax b.currSize (encodedLen action)
  rw [hsum, List.map_append, List.sum_append, h.size_eq]
  rfl

namespace BundleFactory.WellFormed

/-- A submission that arrives keeps the factory well-formed. -/
theorem bundleSeqAction (h : f.WellFormed config total) (action : RollupDataSubmission)
    (hover : NoOverflow config (total + encodedLen (withIbcPrefixed action))) :
    (f.bundleSeqAction action).WellFormed config
      (total + encodedLen (withIbcPrefixed action)) := by
  have hcurr := h.curr_le
  have hmax := h.curr.maxSize_eq
  unfold NoOverflow at hover
  generalize hf : f.bundleSeqAction action = f'
  have hcases := f.bundleSeqAction_cases action
  rw [hf] at hcases
  cases hcases with
  | tooLarge _ | queueFull _ _ _ => exact { h with curr_le := by omega }
  | pushed hle hspace =>
    refine { h with curr := h.curr.pushed (hmax ▸ hspace) (by omega), curr_le := ?_ }
    show saturatingAdd usizeMax f.currBundle.currSize _ ≤ _
    unfold saturatingAdd
    omega
  | flushed hle hspace hroom =>
    -- the current bundle is not empty, as the submission would fit an empty one
    have hne : f.currBundle.buffer ≠ [] := by
      intro hnil
      have hsize := h.curr.size_eq
      rw [hnil] at hsize
      have hsize : 0 = f.currBundle.currSize := hsize
      unfold saturatingAdd at hspace
      omega
    refine ⟨?_, ?_, h.capacity_eq, ?_, ?_⟩
    · have hnew : f.currBundle.flushed.WellSized config.maxBytesPerBundle := by
        unfold SizedBundle.flushed
        rw [hmax]
        exact SizedBundle.wellSized_new _
      have hzero : f.currBundle.flushed.currSize = 0 := rfl
      refine hnew.pushed ?_ (by omega)
      unfold saturatingAdd
      omega
    · intro b hb
      rcases List.mem_append.mp hb with hb | hb
      · exact h.finished b hb
      · obtain rfl := List.mem_singleton.mp hb
        exact ⟨h.curr, hne⟩
    · show (f.finished ++ [f.currBundle]).length ≤ _
      rw [List.length_append, List.length_singleton, ← h.capacity_eq]
      exact hroom
    · show saturatingAdd usizeMax 0 _ ≤ _
      unfold saturatingAdd
      omega

/-- A submission that fits is among the contents, if the queue has room. -/
theorem contents_bundleSeqAction (h : f.WellFormed config total)
    (hroom : f.finished.length < config.bundleQueueCapacity) :
    (f.bundleSeqAction action).contents = f.contents ++ fitting config [action] := by
  have hmax := h.curr.maxSize_eq
  have hcapacity := h.capacity_eq
  generalize hf : f.bundleSeqAction action = f'
  have hcases := f.bundleSeqAction_cases action
  rw [hf] at hcases
  cases hcases with
  | tooLarge hlarge =>
    rw [fitting_singleton_of_lt (hmax ▸ hlarge), List.append_nil]
  | queueFull _ _ hfull => omega
  | pushed hle _ =>
    rw [fitting_singleton_of_le (hmax ▸ hle)]
    exact (List.append_assoc ..).symm
  | flushed hle _ _ =>
    rw [fitting_singleton_of_le (hmax ▸ hle)]
    show (f.finished ++ [f.currBundle]).flatMap (·.buffer) ++ ([] ++ [_]) = _
    rw [List.flatMap_append, List.nil_append, List.flatMap_singleton]
    rfl

end BundleFactory.WellFormed

/-! ## The shutdown -/

/-- How many bundles are finished while submissions of given sizes arrive at a bundle of a given size. -/
def flushes (maxSize : ℕ) : ℕ → List ℕ → ℕ
  | _, [] => 0
  | currSize, size :: rest =>
    if maxSize < size then flushes maxSize currSize rest
    else if maxSize < currSize + size then 1 + flushes maxSize size rest
    else flushes maxSize (currSize + size) rest

/-- The queue has room for the bundles that the channel finishes at a shutdown. -/
def DrainFits (config : Config) (f : BundleFactory) (channel : List RollupDataSubmission) : Prop :=
  f.finished.length + flushes config.maxBytesPerBundle f.currBundle.currSize (sizes channel) ≤
    config.bundleQueueCapacity
  deriving Decidable

namespace BundleFactory.WellFormed

omit [External] in
/-- A sum of sizes does not saturate where it fits, and is found too large where it does. -/
theorem lt_saturatingAdd_iff (h : f.WellFormed config total)
    (hover : NoOverflow config (total + encodedLen action)) :
    f.currBundle.maxSize < saturatingAdd usizeMax f.currBundle.currSize (encodedLen action) ↔
      config.maxBytesPerBundle < f.currBundle.currSize + encodedLen action := by
  have hcurr := h.curr_le
  rw [h.curr.maxSize_eq]
  unfold NoOverflow at hover
  unfold saturatingAdd
  omega

/-- A submission of the channel is bundled or too large, or it is dropped as the queue is full. -/
theorem drain_cases (h : f.WellFormed config total) (action : RollupDataSubmission)
    (hover : NoOverflow config (total + encodedLen (withIbcPrefixed action))) :
    ((f.bundleSeqAction action).contents = f.contents ++ fitting config [action] ∧
        ∀ channel, DrainFits config (f.bundleSeqAction action) channel ↔
          DrainFits config f (action :: channel)) ∨
      f.bundleSeqAction action = f ∧ fitting config [action] = [withIbcPrefixed action] ∧
        ∀ channel, ¬DrainFits config f (action :: channel) := by
  have hmax := h.curr.maxSize_eq
  have hcapacity := h.capacity_eq
  have hlt := h.lt_saturatingAdd_iff hover
  have hflushes (channel : List RollupDataSubmission) :
      flushes config.maxBytesPerBundle f.currBundle.currSize (sizes (action :: channel)) =
        if config.maxBytesPerBundle < encodedLen (withIbcPrefixed action) then
          flushes config.maxBytesPerBundle f.currBundle.currSize (sizes channel)
        else if config.maxBytesPerBundle <
            f.currBundle.currSize + encodedLen (withIbcPrefixed action) then
          1 + flushes config.maxBytesPerBundle (encodedLen (withIbcPrefixed action)) (sizes channel)
        else flushes config.maxBytesPerBundle
          (f.currBundle.currSize + encodedLen (withIbcPrefixed action)) (sizes channel) := rfl
  generalize hf : f.bundleSeqAction action = f'
  have hcases := f.bundleSeqAction_cases action
  rw [hf] at hcases
  unfold DrainFits
  cases hcases with
  | tooLarge hlarge =>
    rw [hmax] at hlarge
    refine Or.inl ⟨?_, fun channel => ?_⟩
    · rw [fitting_singleton_of_lt hlarge, List.append_nil]
    · rw [hflushes, if_pos hlarge]
  | pushed hle hspace =>
    rw [hmax] at hle
    have hfits := fun hover => not_lt.mpr hspace (hlt.mpr hover)
    refine Or.inl ⟨?_, fun channel => ?_⟩
    · rw [fitting_singleton_of_le hle]
      exact (List.append_assoc ..).symm
    · have hsum : saturatingAdd usizeMax f.currBundle.currSize (encodedLen (withIbcPrefixed action)) =
          f.currBundle.currSize + encodedLen (withIbcPrefixed action) := by
        have hcurr := h.curr_le
        unfold NoOverflow at hover
        unfold saturatingAdd
        omega
      rw [hflushes, if_neg (not_lt.mpr hle), if_neg hfits, ← hsum]
      rfl
  | queueFull hle hspace hfull =>
    rw [hmax] at hle
    refine Or.inr ⟨rfl, fitting_singleton_of_le hle, fun channel => ?_⟩
    rw [hflushes, if_neg (not_lt.mpr hle), if_pos (hlt.mp hspace)]
    omega
  | flushed hle hspace hroom =>
    rw [hmax] at hle
    refine Or.inl ⟨?_, fun channel => ?_⟩
    · rw [hcapacity] at hroom
      rw [← hf]
      exact h.contents_bundleSeqAction hroom
    · have hsum : saturatingAdd usizeMax 0 (encodedLen (withIbcPrefixed action)) =
          encodedLen (withIbcPrefixed action) := by
        unfold NoOverflow at hover
        unfold saturatingAdd at hspace ⊢
        omega
      rw [hflushes, if_neg (not_lt.mpr hle), if_pos (hlt.mp hspace)]
      show (f.finished ++ [f.currBundle]).length + flushes config.maxBytesPerBundle
        (saturatingAdd usizeMax 0 (encodedLen (withIbcPrefixed action))) (sizes channel) ≤ _ ↔ _
      rw [hsum, List.length_append, List.length_singleton, Nat.add_assoc]

end BundleFactory.WellFormed

omit [External] in
theorem NoOverflow.of_le {total' : ℕ} (h : NoOverflow config total') (hle : total ≤ total') :
    NoOverflow config total :=
  Or.imp_right hle.trans h

theorem sum_sizes_cons (action : RollupDataSubmission) (channel : List RollupDataSubmission) :
    (sizes (action :: channel)).sum =
      encodedLen (withIbcPrefixed action) + (sizes channel).sum := List.sum_cons

theorem fitting_cons (action : RollupDataSubmission) (channel : List RollupDataSubmission) :
    fitting config (action :: channel) = fitting config [action] ++ fitting config channel :=
  fitting_append [action] channel

/-- The factory after the submissions of the channel. -/
theorem BundleFactory.WellFormed.foldl (h : f.WellFormed config total)
    (channel : List RollupDataSubmission) (hover : NoOverflow config (total + (sizes channel).sum)) :
    (channel.foldl BundleFactory.bundleSeqAction f).WellFormed config
      (total + (sizes channel).sum) := by
  induction channel generalizing f total with
  | nil => exact h
  | cons action channel ih =>
    rw [sum_sizes_cons, ← Nat.add_assoc] at hover ⊢
    exact ih (h.bundleSeqAction action (hover.of_le (Nat.le_add_right ..))) hover

/-- The submissions of the channel add at most themselves to the contents. -/
theorem BundleFactory.WellFormed.length_contents_le (h : f.WellFormed config total)
    (channel : List RollupDataSubmission) (hover : NoOverflow config (total + (sizes channel).sum)) :
    (channel.foldl BundleFactory.bundleSeqAction f).contents.length ≤
      f.contents.length + (fitting config channel).length := by
  induction channel generalizing f total with
  | nil => exact Nat.le_refl _
  | cons action channel ih =>
    rw [sum_sizes_cons, ← Nat.add_assoc] at hover
    have hone := hover.of_le (Nat.le_add_right ..)
    have hrest := ih (h.bundleSeqAction action hone) hover
    rw [fitting_cons, List.length_append]
    show (channel.foldl _ (f.bundleSeqAction action)).contents.length ≤ _
    obtain ⟨hcontents, -⟩ | ⟨hsame, -, -⟩ := h.drain_cases action hone
    · rw [hcontents, List.length_append] at hrest
      omega
    · rw [hsame] at hrest ⊢
      omega

/-- The submissions of the channel that fit are all added exactly if the queue has room. -/
theorem BundleFactory.WellFormed.contents_foldl_iff (h : f.WellFormed config total)
    (channel : List RollupDataSubmission) (hover : NoOverflow config (total + (sizes channel).sum)) :
    (channel.foldl BundleFactory.bundleSeqAction f).contents = f.contents ++ fitting config channel ↔
      DrainFits config f channel := by
  induction channel generalizing f total with
  | nil =>
    refine iff_of_true (List.append_nil _).symm ?_
    exact h.length_le
  | cons action channel ih =>
    rw [sum_sizes_cons, ← Nat.add_assoc] at hover
    have hone := hover.of_le (Nat.le_add_right ..)
    rw [fitting_cons]
    show (channel.foldl _ (f.bundleSeqAction action)).contents = _ ↔ _
    obtain ⟨hcontents, hfits⟩ | ⟨hsame, hfitting, hfull⟩ := h.drain_cases action hone
    · rw [← hfits channel, ← ih (h.bundleSeqAction action hone) hover, hcontents, List.append_assoc]
    · refine iff_of_false (fun hall => ?_) (hfull channel)
      -- one submission is missing
      have hle := (h.bundleSeqAction action hone).length_contents_le channel hover
      rw [hall, hsame, hfitting, List.length_append, List.length_append, List.length_singleton] at hle
      omega

/-! ## Runs -/

/-- What every event keeps: the submitted bundles and the factory hold everything that fits, in order. -/
structure Inv (config : Config) (received : List RollupDataSubmission) (s : EventLoop) : Prop where
  factory : s.bundleFactory.WellFormed config (sizes received).sum
  submitted : ∀ b ∈ s.submitted, b.WellSized config.maxBytesPerBundle ∧ b.buffer ≠ []
  contents : s.submitted.flatMap (·.buffer) ++ s.bundleFactory.contents = fitting config received

variable {received channel : List RollupDataSubmission} {s s' : EventLoop}

/-- A bundle that is popped is submitted, unless it is empty. -/
theorem Inv.popNow (h : Inv config received s)
    (hs' : s' = if s.bundleFactory.popNow.1.isEmpty then
        { s with bundleFactory := s.bundleFactory.popNow.2 }
      else EventLoop.submitBundle s.bundleFactory.popNow.1
        { s with bundleFactory := s.bundleFactory.popNow.2 }) : Inv config received s' := by
  have hpopped : s.bundleFactory.popNow.1.WellSized config.maxBytesPerBundle ∧
      s.bundleFactory.popNow.2.WellFormed config (sizes received).sum ∧
      s.bundleFactory.contents =
        s.bundleFactory.popNow.1.buffer ++ s.bundleFactory.popNow.2.contents := by
    cases hfinished : s.bundleFactory.finished with
    | nil =>
      rw [BundleFactory.popNow_nil hfinished]
      refine ⟨h.factory.curr, { h.factory with curr := ?_, curr_le := Nat.zero_le _ }, ?_⟩
      · show (SizedBundle.new s.bundleFactory.currBundle.maxSize).WellSized _
        rw [h.factory.curr.maxSize_eq]
        exact SizedBundle.wellSized_new _
      · unfold BundleFactory.contents
        rw [hfinished]
        exact (List.append_nil _).symm
    | cons b rest =>
      have hlength := h.factory.length_le
      have hbundles := h.factory.finished
      rw [hfinished, List.length_cons] at hlength
      rw [hfinished] at hbundles
      rw [BundleFactory.popNow_cons hfinished]
      refine ⟨(hbundles b (List.mem_cons_self ..)).1, { h.factory with finished := ?_, length_le := ?_ }, ?_⟩
      · exact fun x hx => hbundles x (List.mem_cons_of_mem _ hx)
      · exact Nat.le_of_succ_le hlength
      · unfold BundleFactory.contents
        rw [hfinished, List.flatMap_cons, List.append_assoc]
  obtain ⟨hsized, hfactory, hcontents⟩ := hpopped
  have hall := h.contents
  rw [hcontents] at hall
  split_ifs at hs' with hempty
  · rw [hs']
    rw [List.isEmpty_iff.mp hempty, List.nil_append] at hall
    exact ⟨hfactory, h.submitted, hall⟩
  · rw [hs']
    refine ⟨hfactory, ?_, ?_⟩
    · intro b hb
      rcases List.mem_append.mp hb with hb | hb
      · exact h.submitted b hb
      · obtain rfl := List.mem_singleton.mp hb
        exact ⟨hsized, fun hnil => hempty (List.isEmpty_iff.mpr hnil)⟩
    · show (s.submitted ++ [s.bundleFactory.popNow.1]).flatMap (·.buffer) ++ _ = _
      rw [List.flatMap_append, List.flatMap_singleton, List.append_assoc]
      exact hall

/-- An event keeps the invariant, with what it receives. -/
theorem Inv.step (h : Inv config received s) {e : Event} (henabled : s.enabled e = true)
    (hover : NoOverflow config (sizes (received ++ e.received)).sum) :
    Inv config (received ++ e.received) (s.step e) := by
  cases e with
  | submissionFinished result =>
    rw [show received ++ (Event.submissionFinished result).received = received from
      List.append_nil _]
    cases result with
    | ok nonce => exact ⟨h.factory, h.submitted, h.contents⟩
    | error e => exact ⟨h.factory, h.submitted, h.contents⟩
  | nextFinished =>
    rw [show received ++ Event.nextFinished.received = received from List.append_nil _]
    show Inv config received (match s.bundleFactory.popFinished with
      | none => s
      | some (bundle, f) => _)
    cases hfinished : s.bundleFactory.finished with
    | nil =>
      unfold BundleFactory.popFinished
      rw [hfinished]
      exact h
    | cons b rest =>
      refine h.popNow ?_
      rw [BundleFactory.popNow_cons hfinished]
      unfold BundleFactory.popFinished
      rw [hfinished]
  | receive action =>
    have hsum : (sizes (received ++ [action])).sum =
        (sizes received).sum + encodedLen (withIbcPrefixed action) := sum_sizes_append _ _
    have hroom : s.bundleFactory.finished.length < config.bundleQueueCapacity := by
      have hnotFull : s.bundleFactory.isFull = false := by
        simp only [EventLoop.enabled, Bool.and_eq_true, Bool.not_eq_true'] at henabled
        exact henabled.2
      rw [← h.factory.capacity_eq]
      simpa [BundleFactory.isFull] using hnotFull
    refine ⟨?_, h.submitted, ?_⟩
    · show (s.bundleFactory.bundleSeqAction action).WellFormed config (sizes (received ++ [action])).sum
      rw [hsum]
      exact h.factory.bundleSeqAction action (hsum ▸ hover)
    · show s.submitted.flatMap (·.buffer) ++ (s.bundleFactory.bundleSeqAction action).contents =
        fitting config (received ++ [action])
      rw [h.factory.contents_bundleSeqAction hroom, ← List.append_assoc, h.contents, fitting_append]
  | timer =>
    rw [show received ++ Event.timer.received = received from List.append_nil _]
    exact h.popNow rfl

theorem Runs.inv (h : Runs config received s) (hover : NoOverflow config (sizes received).sum) :
    Inv config received s := by
  induction h with
  | start =>
    refine ⟨⟨SizedBundle.wellSized_new _, ?_, rfl, Nat.zero_le _, Nat.zero_le _⟩, ?_, rfl⟩
    · exact fun b hb => absurd hb List.not_mem_nil
    · exact fun b hb => absurd hb List.not_mem_nil
  | @step received s e _ henabled ih =>
    refine (ih (hover.of_le ?_)).step henabled hover
    rw [sum_sizes_append]
    exact Nat.le_add_right ..

/-- The bundles that were submitted or are queued for draining have every submission that fits, in
order and once; all bundles are well-sized; and the finished ones fit the queue and are not empty, also
while the channel is drained. -/
structure LosesNothing (config : Config) (received channel : List RollupDataSubmission)
    (s : EventLoop) : Prop where
  all : (s.submitted ++ s.bundlesToDrain channel).flatMap (·.buffer) =
    fitting config (received ++ channel)
  sized : ∀ b ∈ s.submitted ++ s.bundlesToDrain channel,
    (b.buffer.map encodedLen).sum = b.currSize ∧ b.currSize ≤ config.maxBytesPerBundle
  queue : ∀ drained, drained <+: channel →
    (drained.foldl BundleFactory.bundleSeqAction s.bundleFactory).finished.length ≤
        config.bundleQueueCapacity ∧
      ∀ b ∈ (drained.foldl BundleFactory.bundleSeqAction s.bundleFactory).finished, b.buffer ≠ []

/-- A run and a shutdown of a loop that has not failed lose nothing exactly if the queue has room for the bundles that the channel
finishes. -/
theorem losesNothing_iff (h : Runs config received s) (hrunning : s.failure = none)
    (hover : NoOverflow config (sizes (received ++ channel)).sum) :
    LosesNothing config received channel s ↔ DrainFits config s.bundleFactory channel := by
  rw [sum_sizes_append] at hover
  have hinv := h.inv (hover.of_le (Nat.le_add_right ..))
  have hdrained := hinv.factory.foldl channel hover
  have hnonempty : ∀ b ∈ (channel.foldl BundleFactory.bundleSeqAction s.bundleFactory).finished,
      b.buffer ≠ [] := fun b hb => (hdrained.finished b hb).2
  have hcontents : (s.submitted ++ s.bundlesToDrain channel).flatMap (·.buffer) =
      s.submitted.flatMap (·.buffer) ++
        (channel.foldl BundleFactory.bundleSeqAction s.bundleFactory).contents := by
    rw [List.flatMap_append, EventLoop.bundlesToDrain_eq hrunning,
      BundleFactory.drainBundles_contents hnonempty]
  have hiff := hinv.factory.contents_foldl_iff channel hover
  constructor
  · intro hlost
    have hall := hlost.all
    rw [hcontents, fitting_append, ← hinv.contents, List.append_assoc] at hall
    exact hiff.mp (List.append_cancel_left hall)
  · intro hfits
    refine ⟨?_, ?_, ?_⟩
    · rw [hcontents, hiff.mpr hfits, ← List.append_assoc, hinv.contents, fitting_append]
    · intro b hb
      have hsized : b.WellSized config.maxBytesPerBundle := by
        rcases List.mem_append.mp hb with hb | hb
        · exact (hinv.submitted b hb).1
        · rw [EventLoop.bundlesToDrain_eq hrunning, BundleFactory.drainBundles_eq hnonempty] at hb
          rcases List.mem_append.mp hb with hb | hb
          · exact (hdrained.finished b hb).1
          · split_ifs at hb
            · cases hb
            · obtain rfl := List.mem_singleton.mp hb
              exact hdrained.curr
      exact ⟨hsized.size_eq, hsized.size_le⟩
    · rintro drained ⟨rest, rfl⟩
      rw [sum_sizes_append, ← Nat.add_assoc] at hover
      have hpart := hinv.factory.foldl drained (hover.of_le (Nat.le_add_right ..))
      exact ⟨hpart.length_le, fun b hb => (hpart.finished b hb).2⟩

end

/-! ### A queue of one bundle -/

section

open scoped Astria.Sequencer.TestUtils

/-- A submission of one byte. -/
def testSubmission (b : UInt8) : RollupDataSubmission :=
  { rollupId := { inner := List.Vector.replicate 32 7 }
    data := [b]
    feeAsset := .ibcPrefixed { id := List.Vector.replicate 32 1 } }

example : encodedLen (testSubmission 1) = 109 := by decide +kernel

/-- Bundles of one test submission, and a queue of one bundle. -/
def testConfig : Config := { maxBytesPerBundle := 200, bundleQueueCapacity := 1 }

/-- The loop after two submissions: the first is in the queue, the second in the current bundle. -/
def afterTwo : EventLoop :=
  ((EventLoop.start testConfig 0).step (.receive (testSubmission 1))).step (.receive (testSubmission 2))

theorem runs_afterTwo : Runs testConfig [testSubmission 1, testSubmission 2] afterTwo := by
  have hstart : Runs testConfig [] (EventLoop.start testConfig 0) := Runs.start
  have hone : Runs testConfig [testSubmission 1]
      ((EventLoop.start testConfig 0).step (.receive (testSubmission 1))) :=
    hstart.step (e := .receive (testSubmission 1)) (by decide +kernel)
  exact hone.step (e := .receive (testSubmission 2)) (by decide +kernel)

/-- A third submission, that is still in the channel at the shutdown, is dropped. -/
theorem shutdown_drops :
    Runs testConfig [testSubmission 1, testSubmission 2] afterTwo ∧
      ¬LosesNothing testConfig [testSubmission 1, testSubmission 2] [testSubmission 3] afterTwo := by
  refine ⟨runs_afterTwo, fun h => ?_⟩
  have hnonempty : ∀ b ∈ ([testSubmission 3].foldl BundleFactory.bundleSeqAction
      afterTwo.bundleFactory).finished, b.buffer ≠ [] := by decide +kernel
  have hcontents : ([testSubmission 3].foldl BundleFactory.bundleSeqAction
      afterTwo.bundleFactory).contents = [testSubmission 1, testSubmission 2] := by decide +kernel
  have hfitting : fitting testConfig [testSubmission 1, testSubmission 2, testSubmission 3] =
      [testSubmission 1, testSubmission 2, testSubmission 3] := by decide +kernel
  have hall := h.all
  have hsubmitted : afterTwo.submitted = [] := rfl
  rw [hsubmitted, List.nil_append, EventLoop.bundlesToDrain_eq rfl,
    BundleFactory.drainBundles_contents hnonempty, hcontents] at hall
  have hlength := congrArg List.length (hall.trans hfitting)
  exact absurd hlength (by decide)

/-- Without a third submission nothing is lost. -/
theorem losesNothing_iff_afterTwo :
    LosesNothing testConfig [testSubmission 1, testSubmission 2] [] afterTwo :=
  (losesNothing_iff runs_afterTwo rfl (by decide +kernel)).mpr (by decide +kernel)

end

end Astria.Composer
