import Astria.Lib.Channel
import Astria.Conductor.Executor

/-!
# The sequential block cache

A cache of sequencer blocks that are only yielded in sequential order
(`crates/astria-conductor/src/block_cache.rs`).

Results:
* `pop_eq_some`: the cache yields the block at its next height, and moves to the following one;
* `nextHeight_insert`: inserting blocks does not move the next height.
-/

namespace Astria.Conductor

/-- `GetSequencerHeight`. -/
class GetSequencerHeight (T : Type) where
  getHeight : T → ℕ

export GetSequencerHeight (getHeight)

instance : GetSequencerHeight Core.FilteredSequencerBlock where
  getHeight block := block.height

instance : GetSequencerHeight ReconstructedBlock where
  getHeight block := block.sequencerHeight

/-- `BlockCache`: a block is kept under its own height, which is the next one or a later one. -/
structure BlockCache (T : Type) [GetSequencerHeight T] where
  inner : ℕ → Option T
  nextHeight : ℕ
  keyed : ∀ height block, inner height = some block → getHeight block = height
  nextHeight_le : ∀ height block, inner height = some block → nextHeight ≤ height

/-- `Error`. -/
inductive BlockCacheError where
  | occupied (height : ℕ)
  | old (blockHeight currentHeight : ℕ)
  | zeroHeightsNotSupported
  deriving DecidableEq

/-- The `Display` form. -/
def BlockCacheError.display : BlockCacheError → String
  | occupied height => s!"block at sequencer height {height} already in cache"
  | old blockHeight currentHeight =>
    s!"block too old: expect sequencer height {currentHeight} or newer, got {blockHeight}"
  | zeroHeightsNotSupported => "starting heights of zero are not supported"

namespace BlockCache

variable {T : Type} [GetSequencerHeight T]

/-- `with_next_height`. -/
def withNextHeight (nextHeight : ℕ) : Except BlockCacheError (BlockCache T) :=
  if nextHeight = 0 then .error .zeroHeightsNotSupported
  else
    .ok
      { inner := fun _ => none
        nextHeight := nextHeight
        keyed := fun _ _ h => nomatch h
        nextHeight_le := fun _ _ h => nomatch h }

/-- The cache after its next block was taken. -/
def advance (c : BlockCache T) : BlockCache T where
  inner := Function.update c.inner c.nextHeight none
  nextHeight := c.nextHeight + 1
  keyed height block h := by
    by_cases heq : height = c.nextHeight
    · rw [heq, Function.update_self] at h
      cases h
    · rw [Function.update_of_ne heq] at h
      exact c.keyed height block h
  nextHeight_le height block h := by
    by_cases heq : height = c.nextHeight
    · rw [heq, Function.update_self] at h
      cases h
    · rw [Function.update_of_ne heq] at h
      have := c.nextHeight_le height block h
      omega

/-- `pop`; the heights of blocks are below `u64::MAX`. -/
def pop (c : BlockCache T) : Option (T × BlockCache T) :=
  match c.inner c.nextHeight with
  | none => none
  | some block => some (block, c.advance)

/-- `drop_obsolete`. -/
def dropObsolete (latestHeight : ℕ) (c : BlockCache T) : BlockCache T where
  inner height := if latestHeight ≤ height then c.inner height else none
  nextHeight := max c.nextHeight latestHeight
  keyed height block h := by
    split_ifs at h with hle
    exact c.keyed height block h
  nextHeight_le height block h := by
    split_ifs at h with hle
    have := c.nextHeight_le height block h
    omega

theorem keyed_update (c : BlockCache T) (block : T) (height : ℕ) (b : T)
    (h : Function.update c.inner (getHeight block) (some block) height = some b) :
    getHeight b = height := by
  by_cases heq : height = getHeight block
  · rw [heq, Function.update_self, Option.some.injEq] at h
    rw [← h, heq]
  · rw [Function.update_of_ne heq] at h
    exact c.keyed height b h

theorem nextHeight_le_update (c : BlockCache T) (block : T) (hold : ¬getHeight block < c.nextHeight)
    (height : ℕ) (b : T)
    (h : Function.update c.inner (getHeight block) (some block) height = some b) :
    c.nextHeight ≤ height := by
  by_cases heq : height = getHeight block
  · rw [heq]
    exact Nat.le_of_not_lt hold
  · rw [Function.update_of_ne heq] at h
    exact c.nextHeight_le height b h

/-- `insert`: a block below the next height, or at the height of another, is not inserted. -/
def insert (block : T) (c : BlockCache T) : Except BlockCacheError (BlockCache T) :=
  if hold : getHeight block < c.nextHeight then .error (.old (getHeight block) c.nextHeight)
  else
    match c.inner (getHeight block) with
    | some _ => .error (.occupied (getHeight block))
    | none =>
      .ok
        { inner := Function.update c.inner (getHeight block) (some block)
          nextHeight := c.nextHeight
          keyed := c.keyed_update block
          nextHeight_le := c.nextHeight_le_update block hold }

/-- The readers insert a block and only log that it was refused. -/
def insertOrDrop (c : BlockCache T) (block : T) : BlockCache T :=
  match c.insert block with
  | .ok c' => c'
  | .error _ => c

/-! ## What the operations do -/

variable {c c' : BlockCache T} {block : T} {height : ℕ}

theorem withNextHeight_eq_ok :
    withNextHeight height = .ok c ↔
      height ≠ 0 ∧ c.nextHeight = height ∧ ∀ h, c.inner h = none := by
  unfold withNextHeight
  split_ifs with hzero
  · simp [hzero]
  · rw [Except.ok.injEq]
    constructor
    · rintro rfl
      exact ⟨hzero, rfl, fun _ => rfl⟩
    · rintro ⟨-, hnext, hinner⟩
      obtain ⟨inner, next, hkeyed, hle⟩ := c
      obtain rfl : inner = fun _ => none := funext hinner
      subst hnext
      rfl

theorem pop_eq_some :
    c.pop = some (block, c') ↔ c.inner c.nextHeight = some block ∧ c' = c.advance := by
  unfold pop
  cases h : c.inner c.nextHeight with
  | none => simp
  | some b => simp [eq_comm]

/-- What is left after dropping obsolete blocks was there before. -/
theorem inner_dropObsolete {latest : ℕ} (h : (c.dropObsolete latest).inner height = some block) :
    c.inner height = some block := by
  have h : (if latest ≤ height then c.inner height else none) = some block := h
  split_ifs at h
  exact h

theorem inner_insertOrDrop {b : T} (h : (c.insertOrDrop b).inner height = some block) :
    c.inner height = some block ∨ block = b := by
  unfold insertOrDrop at h
  cases hinsert : c.insert b with
  | error e =>
    rw [hinsert] at h
    exact Or.inl h
  | ok c' =>
    rw [hinsert] at h
    unfold insert at hinsert
    split_ifs at hinsert with hold
    split at hinsert
    · cases hinsert
    · rw [Except.ok.injEq] at hinsert
      subst hinsert
      have h : Function.update c.inner (getHeight b) (some b) height = some block := h
      by_cases heq : height = getHeight b
      · rw [heq, Function.update_self, Option.some.injEq] at h
        exact Or.inr h.symm
      · rw [Function.update_of_ne heq] at h
        exact Or.inl h

theorem nextHeight_insert (h : c.insert block = .ok c') : c'.nextHeight = c.nextHeight := by
  unfold insert at h
  split_ifs at h with hold
  split at h
  · cases h
  · rw [Except.ok.injEq] at h
    rw [← h]

@[simp] theorem nextHeight_insertOrDrop (c : BlockCache T) (block : T) :
    (c.insertOrDrop block).nextHeight = c.nextHeight := by
  unfold insertOrDrop
  cases h : c.insert block with
  | ok c' => exact nextHeight_insert h
  | error e => rfl

@[simp] theorem nextHeight_foldl (c : BlockCache T) (blocks : List T) :
    (blocks.foldl insertOrDrop c).nextHeight = c.nextHeight := by
  induction blocks generalizing c with
  | nil => rfl
  | cons block blocks ih =>
    rw [List.foldl_cons, ih, nextHeight_insertOrDrop]

end BlockCache

end Astria.Conductor
