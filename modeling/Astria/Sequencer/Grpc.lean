import Astria.Core.FilteredBlock
import Astria.Sequencer.Commitment

/-!
# Serving filtered blocks

`astria-sequencer/src/grpc/state_ext.rs` writes a block under separate keys, and
`SequencerServer::get_filtered_sequencer_block` of `astria-sequencer/src/grpc/sequencer.rs` puts a
filtered block together from them.  The values come out of the store as they went in, so the store
here holds them and not their bytes.

Results:
* `holds_storeBlocks`: a store holds every block that was put in it;
* `getFilteredSequencerBlock_of_holds`: what the server answers from a store that holds a block;
* `Built.spec`: the blocks that the sequencer builds are sorted, and all their proofs verify;
* `filters_iff`: filtering a block is right exactly if the proofs of the requested rollups verify.
-/

namespace Astria.Grpc

open Astria.Core Astria.Lib
open Astria.Sequencer (BlockCodec BlockHash External)

/-! ## The store -/

/-- What is stored of the sequencer blocks. -/
structure BlockStore where
  blockHashes : ℕ → Option BlockHash
  rollupIds : BlockHash → Option (List RollupId)
  headers : BlockHash → Option SequencerBlockHeader
  rollupData : BlockHash → RollupId → Option RollupTransactions
  rollupTransactionsProofs : BlockHash → Option (Merkle.Proof Bytes32)
  rollupIdsProofs : BlockHash → Option (Merkle.Proof Bytes32)
  upgradeChangeHashes : BlockHash → Option (List Bytes32)
  extendedCommitInfos : BlockHash → Option Bytes
  extendedCommitInfoProofs : BlockHash → Option (Merkle.Proof Bytes32)

namespace BlockStore

def empty : BlockStore :=
  { blockHashes := fun _ => none
    rollupIds := fun _ => none
    headers := fun _ => none
    rollupData := fun _ _ => none
    rollupTransactionsProofs := fun _ => none
    rollupIdsProofs := fun _ => none
    upgradeChangeHashes := fun _ => none
    extendedCommitInfos := fun _ => none
    extendedCommitInfoProofs := fun _ => none }

/-- `put_rollups_transactions`, under the hash of their block. -/
def putRollupsTransactions (entries : List (RollupId × RollupTransactions))
    (data : RollupId → Option RollupTransactions) : RollupId → Option RollupTransactions :=
  entries.foldl (fun data e => Function.update data e.1 (some e.2)) data

/-- `put_sequencer_block`. -/
def putSequencerBlock (store : BlockStore) (block : SequencerBlock) : BlockStore :=
  let hash := block.blockHash
  { blockHashes := Function.update store.blockHashes block.header.height (some hash)
    rollupIds := Function.update store.rollupIds hash (some block.rollupTransactions.keys)
    headers := Function.update store.headers hash (some block.header)
    rollupData := Function.update store.rollupData hash
      (putRollupsTransactions block.rollupTransactions.entries (store.rollupData hash))
    rollupTransactionsProofs :=
      Function.update store.rollupTransactionsProofs hash (some block.rollupTransactionsProof)
    rollupIdsProofs := Function.update store.rollupIdsProofs hash (some block.rollupIdsProof)
    -- an empty list and an absent commit info are not written
    upgradeChangeHashes :=
      if block.upgradeChangeHashes = [] then store.upgradeChangeHashes
      else Function.update store.upgradeChangeHashes hash (some block.upgradeChangeHashes)
    extendedCommitInfos :=
      match block.extendedCommitInfoWithProof with
      | none => store.extendedCommitInfos
      | some info =>
        Function.update store.extendedCommitInfos hash (some info.encodedExtendedCommitInfo)
    extendedCommitInfoProofs :=
      match block.extendedCommitInfoWithProof with
      | none => store.extendedCommitInfoProofs
      | some info => Function.update store.extendedCommitInfoProofs hash (some info.proof) }

/-- `get_block_hash_by_height`. -/
def getBlockHashByHeight (store : BlockStore) (height : ℕ) : Except Report BlockHash :=
  okOr (store.blockHashes height) ["block hash not found for given height"]

/-- `get_sequencer_block_header_by_hash`. -/
def getSequencerBlockHeaderByHash (store : BlockStore) (hash : BlockHash) :
    Except Report SequencerBlockHeader :=
  okOr (store.headers hash) ["header not found for given block hash"]

/-- `get_rollup_ids_by_block_hash`. -/
def getRollupIdsByBlockHash (store : BlockStore) (hash : BlockHash) :
    Except Report (List RollupId) :=
  okOr (store.rollupIds hash) ["rollup IDs not found for given block hash"]

/-- `get_rollup_data`. -/
def getRollupData (store : BlockStore) (hash : BlockHash) (id : RollupId) :
    Except Report RollupTransactions :=
  okOr (store.rollupData hash id)
    ["rollup transactions not found for given block hash and rollup ID"]

/-- `get_rollup_transactions_proof_by_block_hash`. -/
def getRollupTransactionsProofByBlockHash (store : BlockStore) (hash : BlockHash) :
    Except Report (Merkle.Proof Bytes32) :=
  okOr (store.rollupTransactionsProofs hash)
    ["rollup transactions proof not found for given block hash"]

/-- `get_rollup_ids_proof_by_block_hash`. -/
def getRollupIdsProofByBlockHash (store : BlockStore) (hash : BlockHash) :
    Except Report (Merkle.Proof Bytes32) :=
  okOr (store.rollupIdsProofs hash) ["rollup IDs proof not found for given block hash"]

/-- `get_upgrade_change_hashes`, which never fails. -/
def getUpgradeChangeHashes (store : BlockStore) (hash : BlockHash) : List Bytes32 :=
  (store.upgradeChangeHashes hash).getD []

/-- `get_extended_commit_info_with_proof`. -/
def getExtendedCommitInfoWithProof [BlockCodec] (store : BlockStore) (hash : BlockHash) :
    Except Report (Option ExtendedCommitInfoWithProof) :=
  match store.extendedCommitInfos hash, store.extendedCommitInfoProofs hash with
  | some info, some proof => do
    let infoWithProof ← ExtendedCommitInfoWithProof.uncheckedFromParts info proof
    .ok (some infoWithProof)
  | none, none => .ok none
  | some _, none => .error ["extended commit info stored without proof"]
  | none, some _ => .error ["extended commit info not stored, but proof is"]

/-- `get_rollup_data`, for each of a list. -/
def getRollupDatas (store : BlockStore) (hash : BlockHash) :
    List RollupId → Except Report (List RollupTransactions)
  | [] => .ok []
  | id :: ids => do
    let txs ← store.getRollupData hash id
    let rest ← store.getRollupDatas hash ids
    .ok (txs :: rest)

end BlockStore

/-! ## The request -/

/-- The height of the chain and the blocks of a snapshot. -/
structure Snapshot where
  blockHeight : Option ℕ
  blocks : BlockStore

/-- `get_block_height`. -/
def Snapshot.getBlockHeight (snapshot : Snapshot) : Except Report ℕ :=
  okOr snapshot.blockHeight ["block height not found in state"]

/-- `GetFilteredSequencerBlockRequest`. -/
structure GetFilteredSequencerBlockRequest where
  height : ℕ
  rollupIds : List Bytes

/-- `tonic::Status`, as far as it is used here. -/
inductive Status where
  | invalidArgument (message : String)
  | internal (message : String)
  deriving DecidableEq

section

variable {α : Type}

/-- `map_err` to a status; an error is displayed by its outermost context. -/
def toStatus (status : String → Status) (what : String) (x : Except Report α) : Except Status α :=
  match x with
  | .ok a => .ok a
  | .error e => .error (status (what ++ ": " ++ e.headD ""))

@[simp] theorem toStatus_eq_ok {status : String → Status} {what : String} {x : Except Report α}
    {a : α} : toStatus status what x = .ok a ↔ x = .ok a := by
  cases x <;> simp [toStatus]

end

/-- `sort_unstable`, of rollup ids. -/
def sortRollupIds (ids : List RollupId) : List RollupId :=
  ids.mergeSort fun a b => ¬RollupId.Lt b a

section

variable [ext : External] [times : TimeCodec] [codec : BlockCodec]

/-- `get_filtered_sequencer_block`. -/
def getFilteredSequencerBlock (snapshot : Snapshot) (request : GetFilteredSequencerBlockRequest) :
    Except Status RawFilteredSequencerBlock := do
  let store := snapshot.blocks
  let currBlockHeight ←
    toStatus .internal "failed to get block height from storage" snapshot.getBlockHeight
  if currBlockHeight < request.height then
    .error (.invalidArgument "requested height is greater than current block height")
  else
    let rollupIds ← toStatus .invalidArgument "invalid rollup ID" (readRollupIds request.rollupIds)
    let blockHash ← toStatus .internal "failed to get block hash from storage"
      (store.getBlockHashByHeight request.height)
    let header ← toStatus .internal "failed to get sequencer block header from storage"
      (store.getSequencerBlockHeaderByHash blockHash)
    let rollupTransactionsProof ← toStatus .internal
      "failed to get rollup transactions proof from storage"
      (store.getRollupTransactionsProofByBlockHash blockHash)
    let rollupIdsProof ← toStatus .internal "failed to get rollup ids proof from storage"
      (store.getRollupIdsProofByBlockHash blockHash)
    let upgradeChangeHashes := store.getUpgradeChangeHashes blockHash
    let extendedCommitInfoWithProof ← toStatus .internal
      "failed to get extended commit info with proof from storage"
      (store.getExtendedCommitInfoWithProof blockHash)
    let storedIds ← toStatus .internal "failed to get rollup ids from storage"
      (store.getRollupIdsByBlockHash blockHash)
    let allRollupIds := sortRollupIds storedIds
    -- a binary search, in ids that were sorted for it
    let rollupIds := rollupIds.filter fun id => id ∈ allRollupIds
    let rollupTransactions ← toStatus .internal "failed to get rollup data from storage"
      (store.getRollupDatas blockHash rollupIds)
    .ok
      { blockHash := blockHash.toList
        header := some header.intoRaw
        rollupTransactions := rollupTransactions.map RollupTransactions.intoRaw
        rollupTransactionsProof := some (intoRawProof rollupTransactionsProof)
        allRollupIds := allRollupIds.map fun id => id.inner.toList
        rollupIdsProof := some (intoRawProof rollupIdsProof)
        upgradeChangeHashes := upgradeChangeHashes.map List.Vector.toList
        extendedCommitInfoWithProof :=
          extendedCommitInfoWithProof.map ExtendedCommitInfoWithProof.intoRaw }

end

/-! ## What a store holds -/

namespace BlockStore

/-- A block, under each of its keys. -/
structure Holds (store : BlockStore) (block : SequencerBlock) : Prop where
  blockHash : store.blockHashes block.header.height = some block.blockHash
  rollupIds : store.rollupIds block.blockHash = some block.rollupTransactions.keys
  header : store.headers block.blockHash = some block.header
  rollupData : ∀ e ∈ block.rollupTransactions.entries,
    store.rollupData block.blockHash e.1 = some e.2
  rollupTransactionsProof :
    store.rollupTransactionsProofs block.blockHash = some block.rollupTransactionsProof
  rollupIdsProof : store.rollupIdsProofs block.blockHash = some block.rollupIdsProof
  upgradeChangeHashes :
    (store.upgradeChangeHashes block.blockHash).getD [] = block.upgradeChangeHashes
  extendedCommitInfo : store.extendedCommitInfos block.blockHash =
    block.extendedCommitInfoWithProof.map (·.encodedExtendedCommitInfo)
  extendedCommitInfoProof : store.extendedCommitInfoProofs block.blockHash =
    block.extendedCommitInfoWithProof.map (·.proof)

/-- The keys that a block may leave unwritten are free. -/
structure Free (store : BlockStore) (hash : BlockHash) : Prop where
  upgradeChangeHashes : store.upgradeChangeHashes hash = none
  extendedCommitInfo : store.extendedCommitInfos hash = none
  extendedCommitInfoProof : store.extendedCommitInfoProofs hash = none

/-- Two blocks with different heights and hashes. -/
def Apart (b b' : SequencerBlock) : Prop :=
  b.header.height ≠ b'.header.height ∧ b.blockHash ≠ b'.blockHash

theorem putRollupsTransactions_eq {entries : List (RollupId × RollupTransactions)}
    (hnodup : (entries.map (·.1)).Nodup) (data : RollupId → Option RollupTransactions) :
    ∀ e ∈ entries, putRollupsTransactions entries data e.1 = some e.2 := by
  induction entries generalizing data with
  | nil =>
    intro e he
    cases he
  | cons d entries ih =>
    rw [List.map_cons, List.nodup_cons] at hnodup
    have hother (entries : List (RollupId × RollupTransactions)) (id : RollupId)
        (hid : id ∉ entries.map (·.1)) (data : RollupId → Option RollupTransactions) :
        putRollupsTransactions entries data id = data id := by
      induction entries generalizing data with
      | nil => rfl
      | cons d entries ih =>
        rw [List.map_cons, List.mem_cons, not_or] at hid
        exact (ih hid.2 _).trans (Function.update_of_ne hid.1 _ _)
    intro e he
    rcases List.mem_cons.mp he with rfl | he
    · exact (hother entries e.1 hnodup.1 _).trans (Function.update_self ..)
    · exact ih hnodup.2 _ e he

theorem putSequencerBlock_holds {store : BlockStore} {block : SequencerBlock}
    (h : store.Free block.blockHash) : (store.putSequencerBlock block).Holds block := by
  unfold putSequencerBlock
  constructor
  · exact Function.update_self ..
  · exact Function.update_self ..
  · exact Function.update_self ..
  · intro e he
    dsimp only
    rw [Function.update_self]
    exact putRollupsTransactions_eq block.rollupTransactions.nodup _ e he
  · exact Function.update_self ..
  · exact Function.update_self ..
  · dsimp only
    split_ifs with hnil
    · rw [h.upgradeChangeHashes, hnil]
      rfl
    · rw [Function.update_self]
      rfl
  · cases block.extendedCommitInfoWithProof with
    | none => exact h.extendedCommitInfo
    | some info => exact Function.update_self ..
  · cases block.extendedCommitInfoWithProof with
    | none => exact h.extendedCommitInfoProof
    | some info => exact Function.update_self ..

/-- Another block leaves the optional keys of a hash alone. -/
theorem putSequencerBlock_optional (store : BlockStore) (block : SequencerBlock) {hash : BlockHash}
    (h : hash ≠ block.blockHash) :
    (store.putSequencerBlock block).upgradeChangeHashes hash = store.upgradeChangeHashes hash ∧
      (store.putSequencerBlock block).extendedCommitInfos hash = store.extendedCommitInfos hash ∧
      (store.putSequencerBlock block).extendedCommitInfoProofs hash =
        store.extendedCommitInfoProofs hash := by
  unfold putSequencerBlock
  dsimp only
  refine ⟨?_, ?_, ?_⟩
  · split_ifs
    · rfl
    · exact Function.update_of_ne h _ _
  · cases block.extendedCommitInfoWithProof with
    | none => rfl
    | some info => exact Function.update_of_ne h _ _
  · cases block.extendedCommitInfoWithProof with
    | none => rfl
    | some info => exact Function.update_of_ne h _ _

theorem Free.put {store : BlockStore} {hash : BlockHash} (h : store.Free hash)
    {block : SequencerBlock} (hne : hash ≠ block.blockHash) :
    (store.putSequencerBlock block).Free hash := by
  obtain ⟨hhashes, hinfo, hproof⟩ := putSequencerBlock_optional store block hne
  exact ⟨hhashes.trans h.upgradeChangeHashes, hinfo.trans h.extendedCommitInfo,
    hproof.trans h.extendedCommitInfoProof⟩

theorem Holds.put {store : BlockStore} {block : SequencerBlock} (h : store.Holds block)
    {other : SequencerBlock} (hapart : Apart block other) :
    (store.putSequencerBlock other).Holds block := by
  obtain ⟨hhashes, hinfo, hproof⟩ := putSequencerBlock_optional store other hapart.2
  constructor
  · exact (Function.update_of_ne hapart.1 _ _).trans h.blockHash
  · exact (Function.update_of_ne hapart.2 _ _).trans h.rollupIds
  · exact (Function.update_of_ne hapart.2 _ _).trans h.header
  · intro e he
    show Function.update store.rollupData other.blockHash _ block.blockHash e.1 = _
    rw [Function.update_of_ne hapart.2]
    exact h.rollupData e he
  · exact (Function.update_of_ne hapart.2 _ _).trans h.rollupTransactionsProof
  · exact (Function.update_of_ne hapart.2 _ _).trans h.rollupIdsProof
  · rw [hhashes]
    exact h.upgradeChangeHashes
  · exact hinfo.trans h.extendedCommitInfo
  · exact hproof.trans h.extendedCommitInfoProof

theorem Holds.putAll {store : BlockStore} {block : SequencerBlock} (h : store.Holds block)
    {others : List SequencerBlock} (hapart : ∀ other ∈ others, Apart block other) :
    (others.foldl putSequencerBlock store).Holds block := by
  induction others generalizing store with
  | nil => exact h
  | cons other others ih =>
    exact ih (h.put (hapart other (List.mem_cons_self ..)))
      fun b hb => hapart b (List.mem_cons_of_mem _ hb)

/-- The store after some blocks. -/
def storeBlocks (blocks : List SequencerBlock) : BlockStore := blocks.foldl putSequencerBlock empty

theorem holds_foldl {blocks : List SequencerBlock} {store : BlockStore}
    (hfree : ∀ b ∈ blocks, store.Free b.blockHash) (hapart : blocks.Pairwise Apart) :
    ∀ b ∈ blocks, (blocks.foldl putSequencerBlock store).Holds b := by
  induction blocks generalizing store with
  | nil =>
    intro b hb
    cases hb
  | cons b blocks ih =>
    obtain ⟨hfirst, hrest⟩ := List.pairwise_cons.mp hapart
    intro c hc
    rcases List.mem_cons.mp hc with rfl | hc
    · exact (putSequencerBlock_holds (hfree c (List.mem_cons_self ..))).putAll hfirst
    · refine ih (fun d hd => ?_) hrest c hc
      exact (hfree d (List.mem_cons_of_mem _ hd)).put (Ne.symm (hfirst d hd).2)

theorem holds_storeBlocks {blocks : List SequencerBlock} (hapart : blocks.Pairwise Apart)
    {block : SequencerBlock} (hmem : block ∈ blocks) : (storeBlocks blocks).Holds block :=
  holds_foldl (fun _ _ => ⟨rfl, rfl, rfl⟩) hapart block hmem

/-! ## Reading a block that is held -/

theorem getRollupDatas_of_holds {store : BlockStore} {block : SequencerBlock} (h : store.Holds block)
    (ids : List RollupId) :
    store.getRollupDatas block.blockHash
        (ids.filter fun id => id ∈ block.rollupTransactions.keys) =
      .ok ((block.requested ids).map (·.2)) := by
  induction ids with
  | nil => rfl
  | cons id ids ih =>
    rw [List.filter_cons, SequencerBlock.requested, IndexMap.namedEntries, List.filterMap_cons]
    cases hget : block.rollupTransactions.get id with
    | none =>
      have hmem : id ∉ block.rollupTransactions.keys := by
        rw [IndexMap.keys, ← SortedMap.lookup_isSome_iff, Option.not_isSome_iff_eq_none]
        exact hget
      rw [if_neg (by simpa using hmem)]
      exact ih
    | some txs =>
      have hentry : (id, txs) ∈ block.rollupTransactions.entries := IndexMap.get_eq_some.mp hget
      have hmem : id ∈ block.rollupTransactions.keys := List.mem_map_of_mem hentry
      rw [if_pos (by simpa using hmem), getRollupDatas]
      refine Codec.bind_eq_ok.mpr ⟨txs, okOr_eq_ok.mpr (h.rollupData _ hentry), ?_⟩
      exact Codec.bind_eq_ok.mpr ⟨_, ih, rfl⟩

theorem getExtendedCommitInfoWithProof_of_holds [External] [BlockCodec] {store : BlockStore}
    {block : SequencerBlock} (h : store.Holds block)
    (hverified : ∀ info, block.extendedCommitInfoWithProof = some info →
      info.Verified block.header.dataHash) :
    store.getExtendedCommitInfoWithProof block.blockHash = .ok block.extendedCommitInfoWithProof := by
  unfold getExtendedCommitInfoWithProof
  rw [h.extendedCommitInfo, h.extendedCommitInfoProof]
  cases hinfo : block.extendedCommitInfoWithProof with
  | none => rfl
  | some info =>
    exact Codec.bind_eq_ok.mpr
      ⟨info, ExtendedCommitInfoWithProof.uncheckedFromParts_of_verified (hverified info hinfo), rfl⟩

end BlockStore

theorem sortRollupIds_of_sorted {ids : List RollupId} (h : ids.Pairwise RollupId.Lt) :
    sortRollupIds ids = ids := by
  apply List.mergeSort_of_pairwise
  refine h.imp ?_
  intro a b hab
  have hba : ¬RollupId.Lt b a := fun hba =>
    Std.Irrefl.irrefl (r := RollupId.Lt) a (IsTrans.trans a b a hab hba)
  simpa using hba

section

variable [ext : External] [times : TimeCodec] [codec : BlockCodec]

/-- The server answers with the block's parts, and with every requested rollup of the block as often as
it is requested. -/
theorem getFilteredSequencerBlock_of_holds {snapshot : Snapshot} {block : SequencerBlock}
    (h : snapshot.blocks.Holds block) (hwell : block.WellFormed)
    (hsorted : block.rollupTransactions.keys.Pairwise RollupId.Lt) {height : ℕ}
    (hheight : snapshot.blockHeight = some height) (hle : block.header.height ≤ height)
    (ids : List RollupId) :
    getFilteredSequencerBlock snapshot
        { height := block.header.height, rollupIds := ids.map fun id => id.inner.toList } =
      .ok { (block.toFilteredBlock ids).intoRaw with
        rollupTransactions := (block.requested ids).map fun e => e.2.intoRaw } := by
  unfold getFilteredSequencerBlock
  refine Codec.bind_eq_ok.mpr ⟨height, toStatus_eq_ok.mpr (okOr_eq_ok.mpr hheight), ?_⟩
  rw [if_neg (Nat.not_lt.mpr hle)]
  refine Codec.bind_eq_ok.mpr ⟨ids, toStatus_eq_ok.mpr (readRollupIds_toList ids), ?_⟩
  refine Codec.bind_eq_ok.mpr ⟨_, toStatus_eq_ok.mpr (okOr_eq_ok.mpr h.blockHash), ?_⟩
  refine Codec.bind_eq_ok.mpr ⟨_, toStatus_eq_ok.mpr (okOr_eq_ok.mpr h.header), ?_⟩
  refine Codec.bind_eq_ok.mpr
    ⟨_, toStatus_eq_ok.mpr (okOr_eq_ok.mpr h.rollupTransactionsProof), ?_⟩
  refine Codec.bind_eq_ok.mpr ⟨_, toStatus_eq_ok.mpr (okOr_eq_ok.mpr h.rollupIdsProof), ?_⟩
  refine Codec.bind_eq_ok.mpr ⟨_, toStatus_eq_ok.mpr
    (BlockStore.getExtendedCommitInfoWithProof_of_holds h hwell.extendedCommitInfo), ?_⟩
  refine Codec.bind_eq_ok.mpr ⟨_, toStatus_eq_ok.mpr (okOr_eq_ok.mpr h.rollupIds), ?_⟩
  rw [sortRollupIds_of_sorted hsorted]
  refine Codec.bind_eq_ok.mpr
    ⟨_, toStatus_eq_ok.mpr (BlockStore.getRollupDatas_of_holds h ids), ?_⟩
  rw [BlockStore.getUpgradeChangeHashes, h.upgradeChangeHashes, List.map_map]
  rfl

/-! ## Blocks -/

/-- A builder whose values are those that their types admit, with data parsed from a CometBFT
block. -/
structure Typed (builder : SequencerBlockBuilder) : Prop where
  data : builder.expandedBlockData.FromData
  header : builder.header.Valid
  count : builder.rollupDatas.length ≤ 2 ^ 63

/-- A block that the sequencer builds. -/
def Built (block : SequencerBlock) : Prop :=
  ∃ builder : SequencerBlockBuilder, Typed builder ∧ builder.tryBuild = .ok block

/-- The two ways to a sequencer block: it is built, or it is read from a message. -/
inductive Constructed : SequencerBlock → Prop
  | built {block : SequencerBlock} : Built block → Constructed block
  | read {raw : RawSequencerBlock} {block : SequencerBlock} :
    raw.Typed → SequencerBlock.tryFromRaw raw = .ok block → Constructed block

theorem Built.spec {block : SequencerBlock} (h : Built block) :
    block.WellFormed ∧ block.rollupTransactions.keys.Pairwise RollupId.Lt ∧
      ∀ e ∈ block.rollupTransactions.entries,
        doRollupTransactionsMatchRoot e.2 block.header.rollupTransactionsRoot = some true := by
  obtain ⟨builder, htyped, hbuild⟩ := h
  have hroots : builder.expandedBlockData.rollupIdsRoot =
      Sequencer.rollupIdsRoot builder.rollupDatas ∧
      builder.expandedBlockData.rollupTransactionsRoot =
        Sequencer.rollupTransactionsRoot builder.rollupDatas := by
    unfold SequencerBlockBuilder.tryBuild at hbuild
    dsimp only at hbuild
    split_ifs at hbuild with hids htxs
    exact ⟨not_not.mp hids, not_not.mp htxs⟩
  obtain ⟨txs, hbuild', hdatas, hentries⟩ :=
    SequencerBlockBuilder.tryBuild_eq_ok htyped.count hroots.1 hroots.2
  obtain rfl : builder.toBlock txs = block := Except.ok.inj (hbuild'.symm.trans hbuild)
  refine ⟨Proposal.wellFormed_toBlock htyped.data.proved htyped.header hroots.1 hroots.2 hdatas
    fun e he => ⟨(hentries e he).1, (hentries e he).2.1⟩, ?_, fun e he => (hentries e he).2.2⟩
  have hsorted : SortedMap.Sorted RollupId.Lt builder.rollupDatas :=
    IndexMap.sorted_sortEntries RollupId.Lt _
  have hkeys : builder.rollupDatas.map (·.1) = txs.keys := by
    rw [← hdatas, rollupDatasOf, List.map_map]
    rfl
  show txs.keys.Pairwise RollupId.Lt
  rw [← hkeys]
  exact List.pairwise_map.mpr hsorted

theorem Constructed.wellFormed (htimes : SequencerBlockHeader.LawfulTimes) {block : SequencerBlock}
    (h : Constructed block) : block.WellFormed := by
  cases h with
  | built h => exact h.spec.1
  | read htyped h => exact SequencerBlock.tryFromRaw_wellFormed htimes htyped h

/-! ## Filtering is right -/

/-- A snapshot of a sequencer that has put the blocks it built, this one among them, each with a height
and a hash of its own. -/
structure Stores (snapshot : Snapshot) (block : SequencerBlock) : Prop where
  blocks : ∃ blocks, snapshot.blocks = BlockStore.storeBlocks blocks ∧ block ∈ blocks ∧
    blocks.Pairwise BlockStore.Apart ∧ ∀ b ∈ blocks, Built b
  height : ∃ height, snapshot.blockHeight = some height ∧ block.header.height ≤ height

/-- All ways to filter a block for some rollups lead to the same filtered block, which has the requested
rollups of the block with valid proofs, and which is read back from its messages. -/
structure Filters (block : SequencerBlock) (ids : List RollupId) : Prop where
  same : block.intoFilteredBlock ids = block.toFilteredBlock ids
  requested : ∀ id txs, (id, txs) ∈ (block.toFilteredBlock ids).rollupTransactions ↔
    id ∈ ids ∧ block.rollupTransactions.get id = some txs
  once : ((block.toFilteredBlock ids).rollupTransactions.map (·.1)).Nodup
  allIds : (block.toFilteredBlock ids).allRollupIds = block.rollupTransactions.keys
  rootProved : (block.toFilteredBlock ids).rollupTransactionsProof.verify
    (ext.sha256 block.header.rollupTransactionsRoot.toList).toList block.header.dataHash = some true
  idsProved : (block.toFilteredBlock ids).rollupIdsProof.verify
    (ext.sha256 (FilteredSequencerBlock.idsRoot
      (block.toFilteredBlock ids).allRollupIds).toList).toList block.header.dataHash = some true
  proved : ∀ e ∈ (block.toFilteredBlock ids).rollupTransactions,
    doRollupTransactionsMatchRoot e.2 block.header.rollupTransactionsRoot = some true
  roundTrip : FilteredSequencerBlock.tryFromRaw (block.toFilteredBlock ids).intoRaw =
    .ok (block.toFilteredBlock ids)
  served : ∀ snapshot, Stores snapshot block →
    ∃ raw, getFilteredSequencerBlock snapshot
        { height := block.header.height, rollupIds := ids.map fun id => id.inner.toList } = .ok raw ∧
      FilteredSequencerBlock.tryFromRaw raw = .ok (block.toFilteredBlock ids)

theorem Stores.getFilteredSequencerBlock {snapshot : Snapshot} {block : SequencerBlock}
    (h : Stores snapshot block) (ids : List RollupId) :
    Grpc.getFilteredSequencerBlock snapshot
        { height := block.header.height, rollupIds := ids.map fun id => id.inner.toList } =
      .ok { (block.toFilteredBlock ids).intoRaw with
        rollupTransactions := (block.requested ids).map fun e => e.2.intoRaw } := by
  obtain ⟨⟨blocks, hstore, hmem, hapart, hbuilt⟩, height, hheight, hle⟩ := h
  have hspec := (hbuilt block hmem).spec
  have hholds : snapshot.blocks.Holds block := by
    rw [hstore]
    exact BlockStore.holds_storeBlocks hapart hmem
  exact getFilteredSequencerBlock_of_holds hholds hspec.1 hspec.2.1 hheight hle ids

/-- Filtering a block is right exactly if the proofs of the requested rollups verify, as they do in a
block that was built; the proofs in a block that was read are any that the message had. -/
theorem filters_iff (htimes : SequencerBlockHeader.LawfulTimes) {block : SequencerBlock}
    (h : Constructed block) (ids : List RollupId) :
    (Filters block ids ↔ block.RequestedProved ids) ∧
      (Built block → block.RequestedProved ids) := by
  have hwell := h.wellFormed htimes
  refine ⟨⟨?_, ?_⟩, ?_⟩
  · intro hfilters id hid txs hget
    exact FilteredSequencerBlock.tryFromRaw_matchRoot hfilters.roundTrip (id, txs)
      ((hfilters.requested id txs).mpr ⟨hid, hget⟩)
  · intro hproved
    have hreadable := SequencerBlock.readable_filteredWith hwell
      (IndexMap.copyKeys block.rollupTransactions ids IndexMap.empty)
    refine
      { same := block.intoFilteredBlock_eq ids
        requested := fun id txs => SequencerBlock.mem_toFilteredBlock
        once := block.nodup_toFilteredBlock ids
        allIds := rfl
        rootProved := hreadable.root
        idsProved := hreadable.ids
        proved := ?_
        roundTrip := SequencerBlock.tryFromRaw_toFilteredBlock hwell hproved (Or.inl rfl)
        served := ?_ }
    · intro e he
      obtain ⟨hmem, hget⟩ := SequencerBlock.mem_toFilteredBlock.mp he
      exact hproved e.1 hmem e.2 hget
    · intro snapshot hstores
      exact ⟨_, hstores.getFilteredSequencerBlock ids,
        SequencerBlock.tryFromRaw_toFilteredBlock hwell hproved (Or.inr rfl)⟩
  · intro hbuilt id _ txs hget
    exact hbuilt.spec.2.2 (id, txs) (IndexMap.get_eq_some.mp hget)

end

/-! ## A block with a deposit -/

section

open Proposal (depositBuilder onlyDeposit onlyDeposits)
open scoped Astria.Sequencer.TestUtils

theorem lawfulTimes : SequencerBlockHeader.LawfulTimes := by
  rintro ⟨seconds, nanos⟩ time h
  simp only [TimeCodec.timeFromRaw, TimeCodec.timeToRaw] at h ⊢
  split_ifs at h with hrange
  obtain rfl := Option.some.inj h
  have hnonneg : ((seconds * 10 ^ 9 + nanos).toNat : ℤ) = seconds * 10 ^ 9 + nanos :=
    Int.toNat_of_nonneg (by omega)
  rw [hnonneg, if_pos (by omega)]
  congr 2
  omega

/-- The block with a deposit for one rollup, as it is built. -/
theorem exists_depositBlock :
    ∃ data : ExpandedBlockData, ∃ block, Typed (depositBuilder data) ∧
      (depositBuilder data).tryBuild = .ok block ∧
      block.header.rollupTransactionsRoot =
        (Proposal.generateRollupDatasCommitment [] onlyDeposits).rollupDatasRoot ∧
      ∃ proof, block.rollupTransactions.get onlyDeposit.rollupId = some
        { rollupId := onlyDeposit.rollupId
          transactions := [BlockCodec.encodeDeposit onlyDeposit]
          proof := proof } := by
  obtain ⟨data, hfrom, htxs, hids, hsubmitted⟩ := Proposal.exists_depositData
  have hdatas := Proposal.depositBuilder_rollupDatas hsubmitted
  have htyped : Typed (depositBuilder data) :=
    ⟨hfrom, Proposal.depositBuilder_valid data, by rw [hdatas]; decide⟩
  have hroots := Proposal.generateRollupDatasCommitment_eq (depositBuilder data)
    (List.Perm.refl onlyDeposits.entries)
  have hsubmitted' : (depositBuilder data).expandedBlockData.userSubmittedTransactions = [] :=
    hsubmitted
  rw [hsubmitted'] at hroots
  obtain ⟨txs, hbuild, hof, hentries⟩ := SequencerBlockBuilder.tryBuild_eq_ok htyped.count
    (hids.trans (congrArg (·.rollupIdsRoot) hroots))
    (htxs.trans (congrArg (·.rollupDatasRoot) hroots))
  refine ⟨data, (depositBuilder data).toBlock txs, htyped, hbuild, htxs, ?_⟩
  rw [hdatas, rollupDatasOf] at hof
  obtain ⟨e, hentry, he⟩ := List.map_eq_singleton_iff.mp hof
  obtain ⟨hid, hdata⟩ := Prod.mk.inj he
  obtain ⟨hrollup, -⟩ := hentries e (by rw [hentry]; exact List.mem_singleton_self e)
  refine ⟨e.2.proof, IndexMap.get_eq_some.mpr ?_⟩
  rw [show ((depositBuilder data).toBlock txs).rollupTransactions = txs from rfl, hentry,
    List.mem_singleton, ← hid, ← hdata]
  refine Prod.ext rfl ?_
  show ({ rollupId := e.1, transactions := e.2.transactions, proof := e.2.proof } :
    RollupTransactions) = e.2
  rw [hrollup]

/-- Its rollup twice, and an unknown one. -/
def requestedIds : List RollupId :=
  [onlyDeposit.rollupId, { inner := List.Vector.replicate 32 9 }, onlyDeposit.rollupId]

theorem filters_iff_deposit :
    ∃ data : ExpandedBlockData, ∃ block, (depositBuilder data).tryBuild = .ok block ∧
      Filters block requestedIds := by
  obtain ⟨data, block, htyped, hbuild, -⟩ := exists_depositBlock
  have hbuilt : Built block := ⟨depositBuilder data, htyped, hbuild⟩
  have h := filters_iff lawfulTimes (.built hbuilt) requestedIds
  exact ⟨data, block, hbuild, h.1.mpr (h.2 hbuilt)⟩

/-- A proof of the first of two leaves, beside a leaf of zeros. -/
def strangeProof : Merkle.Proof Bytes32 :=
  { auditPath := [List.Vector.replicate 32 0], leafIndex := 0, treeSize := 3 }

/-- The message of the same block with that proof for its rollup is accepted, and what is filtered out of
it for the rollup is not. -/
theorem filters_strangeProof :
    ∃ raw : RawSequencerBlock, ∃ block, raw.Typed ∧ SequencerBlock.tryFromRaw raw = .ok block ∧
      ¬Filters block [onlyDeposit.rollupId] := by
  obtain ⟨data, block, htyped, hbuild, hroot, proof, hget⟩ := exists_depositBlock
  have hwell : block.WellFormed := (Built.spec ⟨_, htyped, hbuild⟩).1
  have hin : ProofInTree strangeProof := ⟨by decide, by decide⟩
  have hproofs : ∀ id : RollupId, ProofInTree ((fun _ => strangeProof) id) := fun _ => hin
  have hread := SequencerBlock.tryFromRaw_withProofs hwell hproofs
  refine ⟨(block.withProofs fun _ => strangeProof).intoRaw, _, ?_, hread, ?_⟩
  · exact SequencerBlock.typed_intoRaw (SequencerBlock.wellFormed_withProofs hwell hproofs)
  · intro hfilters
    have hmem : (onlyDeposit.rollupId, _) ∈ (block.withProofs fun _ => strangeProof).rollupTransactions.entries :=
      List.mem_map_of_mem (f := fun e : RollupId × RollupTransactions =>
        (e.1, { e.2 with proof := strangeProof })) (IndexMap.get_eq_some.mp hget)
    have hmatch := FilteredSequencerBlock.tryFromRaw_matchRoot hfilters.roundTrip _
      ((hfilters.requested _ _).mpr ⟨List.mem_singleton_self _, IndexMap.get_eq_some.mpr hmem⟩)
    have hheader : ((block.withProofs fun _ => strangeProof).toFilteredBlock
        [onlyDeposit.rollupId]).header.rollupTransactionsRoot = _ := hroot
    rw [hheader] at hmatch
    have hfalse : doRollupTransactionsMatchRoot
        { rollupId := onlyDeposit.rollupId
          transactions := [BlockCodec.encodeDeposit onlyDeposit]
          proof := strangeProof }
        (Proposal.generateRollupDatasCommitment [] onlyDeposits).rollupDatasRoot = some false := by
      decide +kernel
    exact Bool.false_ne_true (Option.some.inj (hfalse.symm.trans hmatch))

end

end Astria.Grpc
