import Astria.Core.BlockBuilder
import Astria.Lib.Base64

/-!
# Filtered blocks

The part of a sequencer block that some rollups ask for, and its protobuf message
(`astria-core/src/sequencerblock/v1/block/mod.rs`): `into_filtered_block`, `to_filtered_block` and the
conversions of `FilteredSequencerBlock`.

`FilteredSequencerBlock::try_from_raw` checks the proof of every rollup against the root of the
header; `SequencerBlock::try_from_raw`, which has all rollups and derives the root from them, leaves
these proofs unchecked.

Results:
* `SequencerBlock.intoFilteredBlock_eq`, `SequencerBlock.mem_toFilteredBlock`: both ways of filtering
  keep the requested rollups of the block;
* `SequencerBlock.tryFromRaw_toFilteredBlock`, `FilteredSequencerBlock.tryFromRaw_matchRoot`: a filtered
  block is read back from its messages if the proofs of its rollups verify, and none other is accepted;
* `SequencerBlock.tryFromRaw_withProofs`: a block with any proofs for its rollups is accepted.
-/

namespace Astria.Core

open Astria.Lib
open Astria.Sequencer (BlockCodec External toBytes32)

/-! ## Filtering -/

namespace SequencerBlock

/-- The filtered block with some of a block's rollup transactions. -/
def filteredWith (block : SequencerBlock) (rollupTransactions : IndexMap RollupId RollupTransactions) :
    FilteredSequencerBlock :=
  { blockHash := block.blockHash
    header := block.header
    rollupTransactions := rollupTransactions.entries
    rollupTransactionsProof := block.rollupTransactionsProof
    allRollupIds := block.rollupTransactions.keys
    rollupIdsProof := block.rollupIdsProof
    upgradeChangeHashes := block.upgradeChangeHashes
    extendedCommitInfoWithProof := block.extendedCommitInfoWithProof }

/-- `into_filtered_block`: the rollup transactions are moved out of the block. -/
def intoFilteredBlock (block : SequencerBlock) (rollupIds : List RollupId) :
    FilteredSequencerBlock :=
  block.filteredWith (IndexMap.moveKeys rollupIds block.rollupTransactions IndexMap.empty)

/-- `to_filtered_block`: the rollup transactions are cloned. -/
def toFilteredBlock (block : SequencerBlock) (rollupIds : List RollupId) : FilteredSequencerBlock :=
  block.filteredWith (IndexMap.copyKeys block.rollupTransactions rollupIds IndexMap.empty)

theorem intoFilteredBlock_eq (block : SequencerBlock) (rollupIds : List RollupId) :
    block.intoFilteredBlock rollupIds = block.toFilteredBlock rollupIds := by
  unfold intoFilteredBlock toFilteredBlock
  rw [IndexMap.moveKeys_eq_copyKeys block.rollupTransactions]
  · intro id
    rfl
  · intro id txs h
    cases h

theorem mem_toFilteredBlock {block : SequencerBlock} {rollupIds : List RollupId}
    {e : RollupId × RollupTransactions} :
    e ∈ (block.toFilteredBlock rollupIds).rollupTransactions ↔
      e.1 ∈ rollupIds ∧ block.rollupTransactions.get e.1 = some e.2 := by
  have hget := IndexMap.get_copyKeys block.rollupTransactions rollupIds IndexMap.empty e.1
  have hempty : (IndexMap.empty : IndexMap RollupId RollupTransactions).get e.1 = none := rfl
  rw [hempty, Option.or_none] at hget
  show (e.1, e.2) ∈ (IndexMap.copyKeys _ _ _).entries ↔ _
  rw [← IndexMap.get_eq_some, hget]
  by_cases hmem : e.1 ∈ rollupIds
  · simp [hmem]
  · simp [hmem]

theorem nodup_toFilteredBlock (block : SequencerBlock) (rollupIds : List RollupId) :
    ((block.toFilteredBlock rollupIds).rollupTransactions.map (·.1)).Nodup :=
  (IndexMap.copyKeys _ _ _).nodup

end SequencerBlock

/-! ## The message -/

/-- The raw form of `FilteredSequencerBlock`. -/
structure RawFilteredSequencerBlock where
  blockHash : Bytes
  header : Option RawSequencerBlockHeader
  rollupTransactions : List RawRollupTransactions
  rollupTransactionsProof : Option RawProof
  allRollupIds : List Bytes
  rollupIdsProof : Option RawProof
  upgradeChangeHashes : List Bytes
  extendedCommitInfoWithProof : Option RawExtendedCommitInfoWithProof
  deriving DecidableEq

/-- How a rollup id is displayed. -/
def RollupId.display (id : RollupId) : String := String.ofList (Base64.encode id.inner.toList)

/-- `RollupId::try_from_raw`, for each of a list. -/
def readRollupIds : List Bytes → Except Report (List RollupId)
  | [] => .ok []
  | raw :: rest => do
    let id ← RollupId.tryFromRaw raw
    let ids ← readRollupIds rest
    .ok (id :: ids)

theorem RollupId.tryFromRaw_toList (id : RollupId) : RollupId.tryFromRaw id.inner.toList = .ok id := by
  rw [RollupId.tryFromRaw, Sequencer.toBytes32_toList]

theorem readRollupIds_toList (ids : List RollupId) :
    readRollupIds (ids.map fun id => id.inner.toList) = .ok ids := by
  induction ids with
  | nil => rfl
  | cons id ids ih =>
    rw [List.map_cons, readRollupIds]
    refine Codec.bind_eq_ok.mpr ⟨_, RollupId.tryFromRaw_toList id, ?_⟩
    exact Codec.bind_eq_ok.mpr ⟨_, ih, rfl⟩

namespace FilteredSequencerBlock

variable [ext : External] [times : TimeCodec] [codec : BlockCodec]

/-- `FilteredSequencerBlock::into_raw`. -/
def intoRaw (block : FilteredSequencerBlock) : RawFilteredSequencerBlock :=
  { blockHash := block.blockHash.toList
    header := some block.header.intoRaw
    rollupTransactions := block.rollupTransactions.map fun e => e.2.intoRaw
    rollupTransactionsProof := some (intoRawProof block.rollupTransactionsProof)
    allRollupIds := block.allRollupIds.map fun id => id.inner.toList
    rollupIdsProof := some (intoRawProof block.rollupIdsProof)
    upgradeChangeHashes := block.upgradeChangeHashes.map List.Vector.toList
    extendedCommitInfoWithProof :=
      block.extendedCommitInfoWithProof.map ExtendedCommitInfoWithProof.intoRaw }

/-- The check of the rollup transactions one by one against the root of the header. -/
def ensureMatchRoot (root : Bytes32) : List RollupTransactions → Except Report Unit
  | [] => .ok ()
  | txs :: rest =>
    match doRollupTransactionsMatchRoot txs root with
    | none => .error unwrapPanic
    | some false =>
      .error ["the rollup transaction for rollup ID `" ++ txs.rollupId.display ++ "` contained in " ++
        "the filtered sequencer block could not be verified against the rollup transactions root"]
    | some true => ensureMatchRoot root rest

/-- The root over rollup ids. -/
def idsRoot (ids : List RollupId) : Bytes32 :=
  (Merkle.Tree.fromLeaves (ids.map fun id => id.inner.toList) : Merkle.Tree Bytes32).root

/-- `FilteredSequencerBlock::try_from_raw`. -/
def tryFromRaw (raw : RawFilteredSequencerBlock) : Except Report FilteredSequencerBlock := do
  let blockHash ← okOr (toBytes32 raw.blockHash)
    ["the block hash in the raw protobuf filtered sequencer block was expected to be 32 bytes long, " ++
      "but was actually `" ++ toString raw.blockHash.length ++ "`"]
  let rawTransactionsProof ← okOr raw.rollupTransactionsProof
    ["the expected field in the raw source type was not set: `rollup_transactions_proof`"]
  let rollupTransactionsProof ← withContext
    "failed constructing a transaction proof from the raw protobuf transaction proof"
    rawTransactionsProof.tryIntoProof
  let rawIdsProof ← okOr raw.rollupIdsProof
    ["the expected field in the raw source type was not set: `rollup_ids_proof`"]
  let rollupIdsProof ← withContext
    "failed constructing a rollup ID proof from the raw protobuf rollup ID proof"
    rawIdsProof.tryIntoProof
  let rawHeader ← okOr raw.header
    ["the expected field in the raw source type was not set: `header`"]
  let header ← withContext
    "failed to create a sequencer block header from the raw protobuf header"
    (SequencerBlockHeader.tryFromRaw rawHeader)
  let entries ← withContext "failed parsing a raw protobuf rollup transaction"
    (readRollupTransactions raw.rollupTransactions)
  let rollupTransactions := IndexMap.collect entries
  let allRollupIds ← withContext
    "the rollup ID in the raw protobuf rollup transaction was not 32 bytes long"
    (readRollupIds raw.allRollupIds)
  ensureIncluded rollupTransactionsProof (ext.sha256 header.rollupTransactionsRoot.toList)
    header.dataHash
    ["the rollup transactions in the sequencer block were not included in the block's data hash"]
  ensureMatchRoot header.rollupTransactionsRoot rollupTransactions.values
  -- `are_rollup_ids_included`
  ensureIncluded rollupIdsProof (ext.sha256 (idsRoot allRollupIds).toList) header.dataHash
    ["the rollup IDs root constructed from the block's rollup IDs did not verify against " ++
      "`data_hash` given the rollup IDs proof"]
  let upgradeChangeHashes ← readChangeHashes raw.upgradeChangeHashes
  let extendedCommitInfoWithProof ←
    SequencerBlock.readExtendedCommitInfo raw.extendedCommitInfoWithProof header.dataHash
  .ok
    { blockHash := blockHash
      header := header
      rollupTransactions := rollupTransactions.entries
      rollupTransactionsProof := rollupTransactionsProof
      allRollupIds := allRollupIds
      rollupIdsProof := rollupIdsProof
      upgradeChangeHashes := upgradeChangeHashes
      extendedCommitInfoWithProof := extendedCommitInfoWithProof }

omit times codec in
theorem ensureMatchRoot_eq_ok {root : Bytes32} {txs : List RollupTransactions} :
    ensureMatchRoot root txs = .ok () ↔
      ∀ t ∈ txs, doRollupTransactionsMatchRoot t root = some true := by
  induction txs with
  | nil => simp [ensureMatchRoot]
  | cons t txs ih =>
    rw [ensureMatchRoot, List.forall_mem_cons]
    cases doRollupTransactionsMatchRoot t root with
    | none => simp
    | some b =>
      cases b with
      | false => simp
      | true => simpa using ih

/-- What a filtered block satisfies whose messages can be read back, apart from the proofs of its
rollups. -/
structure Readable (block : FilteredSequencerBlock) : Prop where
  header : block.header.Valid
  root : block.rollupTransactionsProof.verify
    (ext.sha256 block.header.rollupTransactionsRoot.toList).toList block.header.dataHash = some true
  ids : block.rollupIdsProof.verify
    (ext.sha256 (idsRoot block.allRollupIds).toList).toList block.header.dataHash = some true
  transactionsProof : ProofInTree block.rollupTransactionsProof
  idsProof : ProofInTree block.rollupIdsProof
  info : ∀ info, block.extendedCommitInfoWithProof = some info →
    ProofInTree info.proof ∧ info.Verified block.header.dataHash

/-- A message may have the same rollup more than once: what counts is the map that is collected. -/
theorem tryFromRaw_eq_ok {block : FilteredSequencerBlock} (h : block.Readable)
    (hmatch : ∀ e ∈ block.rollupTransactions,
      doRollupTransactionsMatchRoot e.2 block.header.rollupTransactionsRoot = some true)
    {entries : List (RollupId × RollupTransactions)}
    (hentries : ∀ e ∈ entries, e.1 = e.2.rollupId ∧ ProofInTree e.2.proof)
    (hcollect : (IndexMap.collect entries).entries = block.rollupTransactions) :
    tryFromRaw { block.intoRaw with rollupTransactions := entries.map fun e => e.2.intoRaw } =
      .ok block := by
  have hvalues : ensureMatchRoot block.header.rollupTransactionsRoot
      (IndexMap.collect entries).values = .ok () := by
    rw [ensureMatchRoot_eq_ok, IndexMap.values, hcollect]
    intro t ht
    obtain ⟨e, he, rfl⟩ := List.mem_map.mp ht
    exact hmatch e he
  unfold tryFromRaw
  refine Codec.bind_eq_ok.mpr ⟨_, okOr_eq_ok.mpr (Sequencer.toBytes32_toList _), ?_⟩
  refine Codec.bind_eq_ok.mpr ⟨_, rfl, ?_⟩
  refine Codec.bind_eq_ok.mpr
    ⟨_, withContext_eq_ok.mpr (RawProof.tryIntoProof_intoRaw h.transactionsProof), ?_⟩
  refine Codec.bind_eq_ok.mpr ⟨_, rfl, ?_⟩
  refine Codec.bind_eq_ok.mpr
    ⟨_, withContext_eq_ok.mpr (RawProof.tryIntoProof_intoRaw h.idsProof), ?_⟩
  refine Codec.bind_eq_ok.mpr ⟨_, rfl, ?_⟩
  refine Codec.bind_eq_ok.mpr
    ⟨_, withContext_eq_ok.mpr (SequencerBlockHeader.tryFromRaw_intoRaw h.header), ?_⟩
  refine Codec.bind_eq_ok.mpr ⟨_, withContext_eq_ok.mpr (readRollupTransactions_intoRaw
    (fun e he => (hentries e he).1) (fun e he => (hentries e he).2)), ?_⟩
  refine Codec.bind_eq_ok.mpr
    ⟨_, withContext_eq_ok.mpr (readRollupIds_toList block.allRollupIds), ?_⟩
  refine Codec.bind_eq_ok.mpr ⟨_, ensureIncluded_eq_ok.mpr h.root, ?_⟩
  refine Codec.bind_eq_ok.mpr ⟨_, hvalues, ?_⟩
  refine Codec.bind_eq_ok.mpr ⟨_, ensureIncluded_eq_ok.mpr h.ids, ?_⟩
  refine Codec.bind_eq_ok.mpr ⟨_, readChangeHashes_toList _, ?_⟩
  refine Codec.bind_eq_ok.mpr
    ⟨_, SequencerBlock.readExtendedCommitInfo_intoRaw fun info hinfo => h.info info hinfo, ?_⟩
  rw [hcollect]

/-- The rollups of a filtered block that is accepted are proved. -/
theorem tryFromRaw_matchRoot {raw : RawFilteredSequencerBlock} {block : FilteredSequencerBlock}
    (h : tryFromRaw raw = .ok block) :
    ∀ e ∈ block.rollupTransactions,
      doRollupTransactionsMatchRoot e.2 block.header.rollupTransactionsRoot = some true := by
  unfold tryFromRaw at h
  obtain ⟨blockHash, -, h⟩ := Codec.bind_eq_ok.mp h
  obtain ⟨rawTransactionsProof, -, h⟩ := Codec.bind_eq_ok.mp h
  obtain ⟨transactionsProof, -, h⟩ := Codec.bind_eq_ok.mp h
  obtain ⟨rawIdsProof, -, h⟩ := Codec.bind_eq_ok.mp h
  obtain ⟨idsProof, -, h⟩ := Codec.bind_eq_ok.mp h
  obtain ⟨rawHeader, -, h⟩ := Codec.bind_eq_ok.mp h
  obtain ⟨header, -, h⟩ := Codec.bind_eq_ok.mp h
  obtain ⟨entries, -, h⟩ := Codec.bind_eq_ok.mp h
  obtain ⟨allRollupIds, -, h⟩ := Codec.bind_eq_ok.mp h
  obtain ⟨⟨⟩, -, h⟩ := Codec.bind_eq_ok.mp h
  obtain ⟨⟨⟩, hmatch, h⟩ := Codec.bind_eq_ok.mp h
  obtain ⟨⟨⟩, -, h⟩ := Codec.bind_eq_ok.mp h
  obtain ⟨hashes, -, h⟩ := Codec.bind_eq_ok.mp h
  obtain ⟨info, -, h⟩ := Codec.bind_eq_ok.mp h
  cases h
  intro e he
  exact ensureMatchRoot_eq_ok.mp hmatch e.2 (List.mem_map_of_mem he)

end FilteredSequencerBlock

/-! ## Reading a filtered block back -/

namespace SequencerBlock

variable [ext : External] [times : TimeCodec] [codec : BlockCodec]

omit times codec in
theorem idsRoot_keys (txs : IndexMap RollupId RollupTransactions) :
    FilteredSequencerBlock.idsRoot txs.keys = Sequencer.rollupIdsRoot (rollupDatasOf txs) := by
  unfold FilteredSequencerBlock.idsRoot Sequencer.rollupIdsRoot rollupDatasOf IndexMap.keys
  rw [List.map_map, List.map_map]
  rfl

theorem readable_filteredWith {block : SequencerBlock} (h : block.WellFormed)
    (txs : IndexMap RollupId RollupTransactions) : (block.filteredWith txs).Readable :=
  { header := h.header
    root := h.root
    ids := by
      show block.rollupIdsProof.verify (ext.sha256 (FilteredSequencerBlock.idsRoot
        block.rollupTransactions.keys).toList).toList block.header.dataHash = some true
      rw [idsRoot_keys]
      exact h.ids
    transactionsProof := h.transactionsProof
    idsProof := h.idsProof
    info := fun info hinfo => ⟨h.infoProof info hinfo, h.extendedCommitInfo info hinfo⟩ }

/-- The requested rollups of a block, the repeated ones as often as they are requested. -/
def requested (block : SequencerBlock) (rollupIds : List RollupId) :
    List (RollupId × RollupTransactions) :=
  block.rollupTransactions.namedEntries rollupIds

/-- The proofs of the requested rollups of a block verify against the root of its header. -/
def RequestedProved (block : SequencerBlock) (rollupIds : List RollupId) : Prop :=
  ∀ id ∈ rollupIds, ∀ txs, block.rollupTransactions.get id = some txs →
    doRollupTransactionsMatchRoot txs block.header.rollupTransactionsRoot = some true

/-- With its rollups once or as often as they are requested, a filtered block is read back. -/
theorem tryFromRaw_toFilteredBlock {block : SequencerBlock} (h : block.WellFormed)
    {rollupIds : List RollupId} (hproved : block.RequestedProved rollupIds)
    {entries : List (RollupId × RollupTransactions)}
    (hentries : entries = (block.toFilteredBlock rollupIds).rollupTransactions ∨
      entries = block.requested rollupIds) :
    FilteredSequencerBlock.tryFromRaw { (block.toFilteredBlock rollupIds).intoRaw with
      rollupTransactions := entries.map fun e => e.2.intoRaw } =
      .ok (block.toFilteredBlock rollupIds) := by
  have hmatch : ∀ e ∈ (block.toFilteredBlock rollupIds).rollupTransactions,
      doRollupTransactionsMatchRoot e.2 block.header.rollupTransactionsRoot = some true := by
    intro e he
    obtain ⟨hmem, hget⟩ := mem_toFilteredBlock.mp he
    exact hproved e.1 hmem e.2 hget
  have hcollect : (IndexMap.collect entries).entries =
      (block.toFilteredBlock rollupIds).rollupTransactions := by
    rcases hentries with rfl | rfl
    · exact IndexMap.entries_collect (block.nodup_toFilteredBlock rollupIds)
    · rw [requested, IndexMap.collect_namedEntries]
      rfl
  have hwell : ∀ e ∈ entries, e.1 = e.2.rollupId ∧ ProofInTree e.2.proof := by
    intro e he
    have hget : block.rollupTransactions.get e.1 = some e.2 := by
      rcases hentries with rfl | rfl
      · exact (mem_toFilteredBlock.mp he).2
      · exact IndexMap.get_of_mem_namedEntries he
    exact h.entries e (IndexMap.get_eq_some.mp hget)
  exact FilteredSequencerBlock.tryFromRaw_eq_ok (readable_filteredWith h _) hmatch hwell hcollect

/-! ## Proofs that nobody checks -/

/-- A block with other proofs for its rollups. -/
def withProofs (block : SequencerBlock) (proofs : RollupId → Merkle.Proof Bytes32) : SequencerBlock :=
  { block with
    rollupTransactions :=
      { entries := block.rollupTransactions.entries.map fun e =>
          (e.1, { e.2 with proof := proofs e.1 })
        nodup := by
          rw [List.map_map]
          exact block.rollupTransactions.nodup } }

theorem wellFormed_withProofs {block : SequencerBlock} (h : block.WellFormed)
    {proofs : RollupId → Merkle.Proof Bytes32} (hproofs : ∀ id, ProofInTree (proofs id)) :
    (block.withProofs proofs).WellFormed := by
  have hdatas : rollupDatasOf (block.withProofs proofs).rollupTransactions =
      rollupDatasOf block.rollupTransactions := by
    unfold rollupDatasOf withProofs
    rw [List.map_map]
    rfl
  constructor
  · exact ⟨h.root, by rw [hdatas]; exact h.transactions, by rw [hdatas]; exact h.ids,
      h.extendedCommitInfo⟩
  · exact h.header
  · exact h.transactionsProof
  · exact h.idsProof
  · intro e he
    obtain ⟨d, hd, rfl⟩ := List.mem_map.mp he
    exact ⟨(h.entries d hd).1, hproofs d.1⟩
  · exact h.infoProof

/-- The proofs of the rollups of a block can be exchanged for any others. -/
theorem tryFromRaw_withProofs {block : SequencerBlock} (h : block.WellFormed)
    {proofs : RollupId → Merkle.Proof Bytes32} (hproofs : ∀ id, ProofInTree (proofs id)) :
    tryFromRaw (block.withProofs proofs).intoRaw = .ok (block.withProofs proofs) :=
  tryFromRaw_intoRaw (wellFormed_withProofs h hproofs)

end SequencerBlock

end Astria.Core
