import Astria.Sequencer.External

/-!
# The bundle factory

Bundling rollup data submissions for the sequencer
(`crates/astria-composer/src/executor/bundle_factory/mod.rs`).

Results:
* `SizedBundle.tryPush_eq_ok`, `BundleFactory.tryPush_ok`: what a push does;
* `BundleFactory.bundleSeqAction_cases`: a submission is bundled, or dropped as too large for any bundle,
  or dropped as the queue is full;
* `BundleFactory.drainBundles_eq`: the bundles that are popped until an empty one.
-/

namespace Astria.Composer

open Astria.Core
open Astria.Sequencer (External)

/-! ## Encoded sizes -/

/-- The largest `usize`, of 64 bits. -/
def usizeMax : ℕ := 2 ^ 64 - 1

/-- `encoded_len_varint` of the protobuf library. -/
def encodedLenVarint (n : ℕ) : ℕ := ((n ||| 1).log2 * 9 + 73) / 64

/-- The encoded length of a field with a length and one of the numbers below 16. -/
def lengthDelimitedLen (n : ℕ) : ℕ := 1 + encodedLenVarint n + n

/-- `encoded_len` of a submission: a field with its default value is left out. -/
def encodedLen (action : RollupDataSubmission) : ℕ :=
  let feeAsset := action.feeAsset.toString.utf8ByteSize
  lengthDelimitedLen (lengthDelimitedLen action.rollupId.inner.toList.length) +
    (if action.data.length = 0 then 0 else lengthDelimitedLen action.data.length) +
    (if feeAsset = 0 then 0 else lengthDelimitedLen feeAsset)

/-- `with_ibc_prefixed`. -/
def withIbcPrefixed [External] (action : RollupDataSubmission) : RollupDataSubmission :=
  { action with feeAsset := .ibcPrefixed action.feeAsset.toIbcPrefixed }

/-! ## Bundles -/

/-- `SizedBundleError`. -/
inductive SizedBundleError where
  | notEnoughSpace (action : RollupDataSubmission)
  | sequenceActionTooLarge (action : RollupDataSubmission)
  deriving DecidableEq

/-- `SizedBundle`; its buffer holds nothing but submissions. -/
structure SizedBundle where
  buffer : List RollupDataSubmission
  currSize : ℕ
  maxSize : ℕ
  rollupCounts : RollupId → ℕ

namespace SizedBundle

def new (maxSize : ℕ) : SizedBundle :=
  { buffer := []
    currSize := 0
    maxSize := maxSize
    rollupCounts := fun _ => 0 }

/-- `SizedBundle::try_push`. -/
def tryPush (b : SizedBundle) (action : RollupDataSubmission) : Except SizedBundleError SizedBundle :=
  let size := encodedLen action
  if b.maxSize < size then .error (.sequenceActionTooLarge action)
  else
    let newSize := saturatingAdd usizeMax b.currSize size
    if b.maxSize < newSize then .error (.notEnoughSpace action)
    else
      .ok
        { b with
          buffer := b.buffer ++ [action]
          currSize := newSize
          rollupCounts := Function.update b.rollupCounts action.rollupId
            (saturatingAdd usizeMax (b.rollupCounts action.rollupId) 1) }

/-- `SizedBundle::flush`, what it leaves. -/
def flushed (b : SizedBundle) : SizedBundle := new b.maxSize

def isEmpty (b : SizedBundle) : Bool := b.buffer.isEmpty

end SizedBundle

/-! ## The factory -/

/-- `BundleFactoryError`; the panic of a push into an empty bundle is a constructor of its own. -/
inductive BundleFactoryError where
  | sequenceActionTooLarge (size maxSize : ℕ)
  | finishedQueueFull (currBundleSize finishedQueueCapacity sequenceActionSize : ℕ)
      (action : RollupDataSubmission)
  | panicked (message : String)

/-- `BundleFactory`. -/
structure BundleFactory where
  currBundle : SizedBundle
  finished : List SizedBundle
  finishedQueueCapacity : ℕ

namespace BundleFactory

def new (maxBytesPerBundle finishedQueueCapacity : ℕ) : BundleFactory :=
  { currBundle := SizedBundle.new maxBytesPerBundle
    finished := []
    finishedQueueCapacity := finishedQueueCapacity }

def isFull (f : BundleFactory) : Bool := f.finishedQueueCapacity ≤ f.finished.length

section

variable [External]

/-- `BundleFactory::try_push`. -/
def tryPush (f : BundleFactory) (action : RollupDataSubmission) :
    Except BundleFactoryError BundleFactory :=
  let action := withIbcPrefixed action
  let size := encodedLen action
  match f.currBundle.tryPush action with
  | .error (.sequenceActionTooLarge _) => .error (.sequenceActionTooLarge size f.currBundle.maxSize)
  | .error (.notEnoughSpace action) =>
    if f.finishedQueueCapacity ≤ f.finished.length then
      .error (.finishedQueueFull f.currBundle.currSize f.finishedQueueCapacity size action)
    else
      match f.currBundle.flushed.tryPush action with
      | .ok bundle =>
        .ok { f with currBundle := bundle, finished := f.finished ++ [f.currBundle] }
      | .error _ =>
        .error (.panicked "seq_action should not be larger than max bundle size, this is a bug")
  | .ok bundle => .ok { f with currBundle := bundle }

/-- `Executor::bundle_seq_action`: a submission that fails to be bundled is dropped. -/
def bundleSeqAction (f : BundleFactory) (action : RollupDataSubmission) : BundleFactory :=
  match f.tryPush action with
  | .ok f' => f'
  | .error _ => f

end

/-- `NextFinishedBundle::pop`, if there is a finished bundle. -/
def popFinished (f : BundleFactory) : Option (SizedBundle × BundleFactory) :=
  match f.finished with
  | [] => none
  | b :: rest => some (b, { f with finished := rest })

/-- `BundleFactory::pop_now`. -/
def popNow (f : BundleFactory) : SizedBundle × BundleFactory :=
  match f.popFinished with
  | some popped => popped
  | none => (f.currBundle, { f with currBundle := f.currBundle.flushed })

theorem popNow_cons {f : BundleFactory} {b : SizedBundle} {rest : List SizedBundle}
    (h : f.finished = b :: rest) : f.popNow = (b, { f with finished := rest }) := by
  unfold popNow popFinished
  rw [h]

theorem popNow_nil {f : BundleFactory} (h : f.finished = []) :
    f.popNow = (f.currBundle, { f with currBundle := f.currBundle.flushed }) := by
  unfold popNow popFinished
  rw [h]

/-- A pop that is not empty makes the factory smaller. -/
theorem popNow_lt {f : BundleFactory} (h : ¬f.popNow.1.isEmpty = true) :
    f.popNow.2.finished.length + f.popNow.2.currBundle.buffer.length <
      f.finished.length + f.currBundle.buffer.length := by
  cases hfinished : f.finished with
  | nil =>
    rw [popNow_nil hfinished] at h ⊢
    have hne : f.currBundle.buffer ≠ [] := fun hnil => h (List.isEmpty_iff.mpr hnil)
    show f.finished.length + 0 < _
    rw [hfinished]
    exact Nat.add_lt_add_left (List.length_pos_iff.mpr hne) _
  | cons b rest =>
    rw [popNow_cons hfinished]
    show rest.length + f.currBundle.buffer.length < (b :: rest).length + _
    rw [List.length_cons]
    omega

/-- The bundles that are popped at shutdown, until one is empty. -/
def drainBundles (f : BundleFactory) : List SizedBundle :=
  if f.popNow.1.isEmpty then [] else f.popNow.1 :: drainBundles f.popNow.2
termination_by f.finished.length + f.currBundle.buffer.length
decreasing_by exact popNow_lt ‹_›

/-- The submissions that a factory holds, the oldest first. -/
def contents (f : BundleFactory) : List RollupDataSubmission :=
  f.finished.flatMap (·.buffer) ++ f.currBundle.buffer

end BundleFactory

/-! ## What a push does -/

section

variable {b b' : SizedBundle} {f f' : BundleFactory} {action : RollupDataSubmission}

/-- The bundle after a push that succeeds. -/
def SizedBundle.pushed (b : SizedBundle) (action : RollupDataSubmission) : SizedBundle :=
  { b with
    buffer := b.buffer ++ [action]
    currSize := saturatingAdd usizeMax b.currSize (encodedLen action)
    rollupCounts := Function.update b.rollupCounts action.rollupId
      (saturatingAdd usizeMax (b.rollupCounts action.rollupId) 1) }

theorem SizedBundle.tryPush_eq_ok :
    b.tryPush action = .ok b' ↔
      encodedLen action ≤ b.maxSize ∧
        saturatingAdd usizeMax b.currSize (encodedLen action) ≤ b.maxSize ∧ b' = b.pushed action := by
  unfold SizedBundle.tryPush
  dsimp only
  split_ifs with hlarge hspace
  · simp [hlarge]
  · simp [hspace]
  · rw [Except.ok.injEq, eq_comm]
    exact ⟨fun h => ⟨not_lt.mp hlarge, not_lt.mp hspace, h⟩, fun h => h.2.2⟩

/-- A submission that fits a bundle at all fits an empty one. -/
theorem SizedBundle.tryPush_flushed (h : encodedLen action ≤ b.maxSize) :
    b.flushed.tryPush action = .ok (b.flushed.pushed action) := by
  refine SizedBundle.tryPush_eq_ok.mpr ⟨h, ?_, rfl⟩
  show min (0 + encodedLen action) usizeMax ≤ b.maxSize
  omega

variable [External]

/-- What becomes of a submission that is bundled or dropped. -/
inductive BundleFactory.Bundled (f : BundleFactory) (action : RollupDataSubmission) :
    BundleFactory → Prop
  | tooLarge : f.currBundle.maxSize < encodedLen action → Bundled f action f
  | pushed : encodedLen action ≤ f.currBundle.maxSize →
      saturatingAdd usizeMax f.currBundle.currSize (encodedLen action) ≤ f.currBundle.maxSize →
      Bundled f action { f with currBundle := f.currBundle.pushed action }
  | queueFull : encodedLen action ≤ f.currBundle.maxSize →
      f.currBundle.maxSize < saturatingAdd usizeMax f.currBundle.currSize (encodedLen action) →
      f.finishedQueueCapacity ≤ f.finished.length → Bundled f action f
  | flushed : encodedLen action ≤ f.currBundle.maxSize →
      f.currBundle.maxSize < saturatingAdd usizeMax f.currBundle.currSize (encodedLen action) →
      f.finished.length < f.finishedQueueCapacity →
      Bundled f action
        { f with
          currBundle := f.currBundle.flushed.pushed action
          finished := f.finished ++ [f.currBundle] }

theorem BundleFactory.bundleSeqAction_cases (f : BundleFactory) (action : RollupDataSubmission) :
    Bundled f (withIbcPrefixed action) (f.bundleSeqAction action) := by
  unfold bundleSeqAction BundleFactory.tryPush
  by_cases hlarge : f.currBundle.maxSize < encodedLen (withIbcPrefixed action)
  · have hpush : f.currBundle.tryPush (withIbcPrefixed action) =
        .error (.sequenceActionTooLarge (withIbcPrefixed action)) := if_pos hlarge
    simp only [hpush]
    exact .tooLarge hlarge
  have hle := not_lt.mp hlarge
  by_cases hspace : f.currBundle.maxSize <
      saturatingAdd usizeMax f.currBundle.currSize (encodedLen (withIbcPrefixed action))
  · have hpush : f.currBundle.tryPush (withIbcPrefixed action) =
        .error (.notEnoughSpace (withIbcPrefixed action)) := by
      unfold SizedBundle.tryPush
      rw [if_neg hlarge, if_pos hspace]
    simp only [hpush]
    by_cases hfull : f.finishedQueueCapacity ≤ f.finished.length
    · rw [if_pos hfull]
      exact .queueFull hle hspace hfull
    · rw [if_neg hfull, SizedBundle.tryPush_flushed hle]
      exact .flushed hle hspace (not_le.mp hfull)
  · have hpush := SizedBundle.tryPush_eq_ok.mpr ⟨hle, not_lt.mp hspace, rfl⟩
    simp only [hpush]
    exact .pushed hle (not_lt.mp hspace)

end

/-! ## What is popped -/

section

variable {f : BundleFactory}

/-- The finished bundles are popped, and then the current one. -/
theorem BundleFactory.drainBundles_eq (hfinished : ∀ b ∈ f.finished, b.buffer ≠ []) :
    f.drainBundles = f.finished ++ if f.currBundle.isEmpty then [] else [f.currBundle] := by
  induction hlist : f.finished generalizing f with
  | nil =>
    rw [drainBundles, popNow_nil hlist]
    cases hempty : f.currBundle.isEmpty with
    | true => rfl
    | false =>
      have hflushed : BundleFactory.popNow { f with currBundle := f.currBundle.flushed } = _ :=
        popNow_nil hlist
      rw [if_neg (by simp), if_neg Bool.false_ne_true, drainBundles, hflushed]
      rfl
  | cons b rest ih =>
    have hb : b.isEmpty = false := by
      have hne := hfinished b (hlist ▸ List.mem_cons_self ..)
      exact Bool.eq_false_of_not_eq_true fun h => hne (List.isEmpty_iff.mp h)
    rw [drainBundles, popNow_cons hlist, if_neg (by simp [hb]),
      ih (f := { f with finished := rest })
        (fun x hx => hfinished x (hlist ▸ List.mem_cons_of_mem _ hx)) rfl]
    rfl

/-- Popping until the factory is empty yields everything that it holds. -/
theorem BundleFactory.drainBundles_contents (hfinished : ∀ b ∈ f.finished, b.buffer ≠ []) :
    f.drainBundles.flatMap (·.buffer) = f.contents := by
  rw [drainBundles_eq hfinished, List.flatMap_append, contents]
  congr 1
  split_ifs with hempty
  · exact (List.isEmpty_iff.mp hempty).symm
  · simp

end

end Astria.Composer
