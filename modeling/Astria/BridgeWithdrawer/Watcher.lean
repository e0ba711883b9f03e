import Astria.Core.Action
import Astria.Lib.Exec

/-!
# The watcher of the bridge withdrawer

Forwarding the withdrawals of every rollup block to the submitter
(`crates/astria-bridge-withdrawer/src/bridge_withdrawer/ethereum/watcher.rs`, lines 263–395).

The rollup node is a parameter, and the subscription to its blocks the list of the heads that it has
delivered.  The state of a computation is the list of the batches that were sent, the oldest first.

Results:
* `watchForBlocks_heights`: the heights of the batches, if no call fails;
* `consecutive_iff`: they are consecutive exactly if the heads after the first are.
-/

namespace Astria.BridgeWithdrawer

open Astria.Core Astria.Lib Exec

/-! ## The rollup node -/

/-- `Block<H256>`, what is read of it. -/
structure Block where
  number : Option ℕ
  hash : Option Bytes32
  deriving DecidableEq

/-- The calls of a rollup node, each with its retries, and the conversion of the events of a block to
actions. -/
structure Provider where
  getBlock : ℕ → Except Report (Option Block)
  getForBlockHash : Bytes32 → Except Report (List (Except Report Action))

/-- `Batch` (`batch.rs`). -/
structure Batch where
  actions : List Action
  rollupHeight : ℕ
  deriving DecidableEq

/-- Computations that send batches. -/
abbrev WatcherM := Exec Report (List Batch)

/-- An error with its context. -/
def wrapErr {α : Type} (context : String) (x : WatcherM α) : WatcherM α :=
  mapErr (fun e => context :: e) x

/-! ## The watcher -/

/-- The actions of a block; events that cannot be converted are dropped. -/
def convertedActions (results : List (Except Report Action)) : List Action :=
  results.filterMap fun
    | .ok action => some action
    | .error _ => none

/-- `get_and_forward_block_events`. -/
def getAndForwardBlockEvents (provider : Provider) (block : Block) : WatcherM Unit := do
  let hash ← require block.hash ["block did not contain a hash"]
  let rollupHeight ← require block.number ["block did not contain a rollup height"]
  let results ← wrapErr "failed getting actions for block" (lift (provider.getForBlockHash hash))
  writes fun sent =>
    sent ++ [{ actions := convertedActions results, rollupHeight := rollupHeight }]

/-- `provider.get_block`, that has to find the block. -/
def getBlock (provider : Provider) (height : ℕ) : WatcherM Block :=
  wrapErr s!"failed to get block at rollup height `{height}`" do
    let block ← lift (provider.getBlock height)
    require block ["block is missing"]

/-- `sync_unprocessed_rollup_heights`. -/
def syncUnprocessedRollupHeights (provider : Provider) (fromRollupHeight toRollupHeight : ℕ) :
    WatcherM Unit :=
  forEach (List.range' fromRollupHeight (toRollupHeight + 1 - fromRollupHeight)) fun i => do
    let block ← getBlock provider i
    wrapErr "failed to get and send events at block" (getAndForwardBlockEvents provider block)

/-- `watch_for_blocks`, on the heads that the subscription has delivered. -/
def watchForBlocks (provider : Provider) (nextRollupBlockHeight : ℕ) : List Block → WatcherM Unit
  | [] => fail ["failed to get current rollup block from subscription"]
  | current :: heads => do
    let currentRollupBlockHeight ← require current.number ["current rollup block missing block number"]
    wrapErr "failed to sync from next rollup block height"
      (syncUnprocessedRollupHeights provider nextRollupBlockHeight currentRollupBlockHeight)
    forEach heads fun block =>
      wrapErr "failed to get and send events at block" (getAndForwardBlockEvents provider block)

/-! ## The heights of the batches -/

/-- A mined block, which has a number and a hash. -/
structure Head where
  number : ℕ
  hash : Bytes32

def Head.block (head : Head) : Block := { number := some head.number, hash := some head.hash }

/-- No call to the rollup node fails: it has a block at every height that it is asked for, and the
events of every block. -/
structure Provider.NeverFails (provider : Provider) : Prop where
  getBlock : ∀ i, ∃ head : Head, head.number = i ∧ provider.getBlock i = .ok (some head.block)
  getForBlockHash : ∀ hash, ∃ results, provider.getForBlockHash hash = .ok results

section

variable {provider : Provider} {sent : List Batch}

/-- The heights of a list of batches. -/
def heights (batches : List Batch) : List ℕ := batches.map (·.rollupHeight)

/-- A mined block is forwarded as one batch. -/
theorem getAndForwardBlockEvents_ok (h : provider.NeverFails) (head : Head) (sent : List Batch) :
    ∃ batch, batch.rollupHeight = head.number ∧
      getAndForwardBlockEvents provider head.block sent = .ok () (sent ++ [batch]) := by
  obtain ⟨results, hresults⟩ := h.getForBlockHash head.hash
  refine ⟨{ actions := convertedActions results, rollupHeight := head.number }, rfl, ?_⟩
  simp only [getAndForwardBlockEvents, wrapErr, bind_eq_ok, require_eq_ok, mapErr_eq_ok, lift_eq_ok,
    writes_eq_ok]
  exact ⟨head.hash, sent, ⟨rfl, rfl⟩, head.number, sent, ⟨rfl, rfl⟩, results, sent,
    ⟨hresults, rfl⟩, rfl⟩

/-- A loop that sends one batch in every turn. -/
theorem forEach_heights {α : Type} {f : α → WatcherM Unit} {height : α → ℕ} (l : List α)
    (hone : ∀ x sent, ∃ batch, batch.rollupHeight = height x ∧ f x sent = .ok () (sent ++ [batch]))
    (sent : List Batch) :
    ∃ batches, heights batches = l.map height ∧ forEach l f sent = .ok () (sent ++ batches) := by
  induction l generalizing sent with
  | nil => exact ⟨[], rfl, forEach_nil_eq_ok.mpr (List.append_nil _)⟩
  | cons x l ih =>
    obtain ⟨batch, hbatch, hx⟩ := hone x sent
    obtain ⟨batches, hbatches, hl⟩ := ih (sent ++ [batch])
    refine ⟨batch :: batches, ?_, forEach_cons_eq_ok.mpr ⟨_, hx, ?_⟩⟩
    · rw [List.map_cons, ← hbatch, ← hbatches]
      rfl
    · rw [hl, List.append_assoc]
      rfl

/-- Every height of the range is synced. -/
theorem syncUnprocessedRollupHeights_heights (h : provider.NeverFails) (fromHeight toHeight : ℕ)
    (sent : List Batch) :
    ∃ batches, heights batches = List.range' fromHeight (toHeight + 1 - fromHeight) ∧
      syncUnprocessedRollupHeights provider fromHeight toHeight sent = .ok () (sent ++ batches) := by
  have hone : ∀ i sent, ∃ batch : Batch, batch.rollupHeight = id i ∧
      (do
        let block ← getBlock provider i
        wrapErr "failed to get and send events at block" (getAndForwardBlockEvents provider block) :
          WatcherM Unit) sent = .ok () (sent ++ [batch]) := by
    intro i sent
    obtain ⟨head, hnumber, hhead⟩ := h.getBlock i
    obtain ⟨batch, hbatch, hsent⟩ := getAndForwardBlockEvents_ok h head sent
    refine ⟨batch, hbatch.trans hnumber, ?_⟩
    simp only [getBlock, wrapErr, bind_eq_ok, mapErr_eq_ok, lift_eq_ok, require_eq_ok]
    exact ⟨head.block, sent, ⟨_, _, ⟨hhead, rfl⟩, rfl, rfl⟩, hsent⟩
  obtain ⟨batches, hbatches, hrun⟩ :=
    forEach_heights (List.range' fromHeight (toHeight + 1 - fromHeight)) hone sent
  rw [List.map_id] at hbatches
  exact ⟨batches, hbatches, hrun⟩

/-- The heights from the starting one to the first head are synced, and then every head is
forwarded. -/
theorem watchForBlocks_heights (h : provider.NeverFails) (start : ℕ) (first : Head)
    (heads : List Head) :
    ∃ batches, watchForBlocks provider start ((first :: heads).map Head.block) [] = .ok () batches ∧
      heights batches = List.range' start (first.number + 1 - start) ++ heads.map (·.number) := by
  obtain ⟨synced, hsynced, hsync⟩ := syncUnprocessedRollupHeights_heights h start first.number []
  have hone : ∀ (block : Head) sent, ∃ batch : Batch, batch.rollupHeight = block.number ∧
      wrapErr "failed to get and send events at block"
        (getAndForwardBlockEvents provider block.block) sent = .ok () (sent ++ [batch]) := by
    intro block sent
    obtain ⟨batch, hbatch, hsent⟩ := getAndForwardBlockEvents_ok h block sent
    exact ⟨batch, hbatch, mapErr_eq_ok.mpr hsent⟩
  obtain ⟨live, hlive, hloop⟩ := forEach_heights heads hone synced
  refine ⟨synced ++ live, ?_, ?_⟩
  · have hmap : forEach (heads.map Head.block) (fun block =>
        wrapErr "failed to get and send events at block" (getAndForwardBlockEvents provider block)) =
          forEach heads fun block => wrapErr "failed to get and send events at block"
            (getAndForwardBlockEvents provider block.block) := forEach_map ..
    simp only [watchForBlocks, List.map_cons, bind_eq_ok, require_eq_ok, wrapErr, mapErr_eq_ok]
    refine ⟨first.number, [], ⟨rfl, rfl⟩, (), synced, hsync, ?_⟩
    exact (congrFun hmap synced).trans hloop
  · unfold heights at hsynced hlive ⊢
    rw [List.map_append, hsynced, hlive]

/-- The batches have consecutive heights from the starting one. -/
def Consecutive (start : ℕ) (batches : List Batch) : Prop :=
  heights batches = List.range' start batches.length

/-- If no call fails, the batches have consecutive heights exactly if the heads after the first one go
on, one by one, from the later one of the starting height and the height after the first head. -/
theorem consecutive_iff (h : provider.NeverFails) (start : ℕ) (first : Head) (heads : List Head) :
    ∃ batches, watchForBlocks provider start ((first :: heads).map Head.block) [] = .ok () batches ∧
      (Consecutive start batches ↔
        heads.map (·.number) = List.range' (max start (first.number + 1)) heads.length) := by
  obtain ⟨batches, hrun, hheights⟩ := watchForBlocks_heights h start first heads
  refine ⟨batches, hrun, ?_⟩
  have hlength : batches.length = (first.number + 1 - start) + heads.length := by
    have := congrArg List.length hheights
    simpa [heights] using this
  have hnext : start + (first.number + 1 - start) = max start (first.number + 1) := by omega
  unfold Consecutive
  rw [hheights, hlength, ← List.range'_append_1, hnext]
  exact List.append_right_inj _

end

/-! ### A skipped head -/

/-- A head whose hash has its number in every byte. -/
def testHead (number : ℕ) : Head :=
  { number := number, hash := List.Vector.replicate 32 (UInt8.ofNat number) }

/-- A node with a block at every height and no withdrawals. -/
def testProvider : Provider where
  getBlock i := .ok (some (testHead i).block)
  getForBlockHash _ := .ok []

theorem testProvider_neverFails : testProvider.NeverFails :=
  ⟨fun i => ⟨testHead i, rfl, rfl⟩, fun _ => ⟨[], rfl⟩⟩

/-- The subscription skips head 4: its withdrawals are never forwarded. -/
theorem skippedHead_notConsecutive :
    ∃ batches, watchForBlocks testProvider 1 ([testHead 3, testHead 5].map Head.block) [] =
        .ok () batches ∧ ¬Consecutive 1 batches := by
  obtain ⟨batches, hrun, hheights⟩ :=
    watchForBlocks_heights testProvider_neverFails 1 (testHead 3) [testHead 5]
  refine ⟨batches, hrun, fun hconsecutive => ?_⟩
  have hlength : batches.length = 4 := by
    have := congrArg List.length hheights
    simpa [heights, testHead] using this
  rw [Consecutive, hheights, hlength] at hconsecutive
  exact absurd hconsecutive (by decide)

/-- A first head below the starting height, which the next head is at. -/
theorem consecutive_iff_below :
    ∃ batches, watchForBlocks testProvider 3 ([testHead 2, testHead 3].map Head.block) [] =
        .ok () batches ∧ Consecutive 3 batches := by
  obtain ⟨batches, hrun, hiff⟩ := consecutive_iff testProvider_neverFails 3 (testHead 2) [testHead 3]
  exact ⟨batches, hrun, hiff.mpr rfl⟩

end Astria.BridgeWithdrawer
