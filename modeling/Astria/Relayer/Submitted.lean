import Astria.Core.FilteredBlock
import Astria.Relayer.Conversion

/-!
# Submitted items read back

The conversions of the items that are found on Celestia
(`crates/astria-core/src/sequencerblock/v1/celestia.rs`).

Metadata is checked against the data hash of its own header: the rollup transactions root of the header
and the rollup ids are items of the data, each under its proof.  The header itself is as it was sent.

Results:
* `SubmittedMetadata.tryFromUnchecked_eq_ok`: what the check of metadata comes to;
* `SubmittedMetadata.tryFromRaw_intoRaw`, `SubmittedRollupData.tryFromRaw_intoRaw`: items that can be
  written are read back;
* `SubmittedMetadata.tryFromUnchecked_assembled`: there is metadata for any block hash, header fields,
  rollup ids and root.
-/

namespace Astria.Relayer

open Astria.Core Astria.Lib
open Astria.Sequencer (BlockCodec BlockHash External)

variable [ext : External]

/-! ## Metadata -/

namespace SubmittedMetadata

/-- `extended_commit_info`. -/
def extendedCommitInfo (metadata : SubmittedMetadata) :
    Option Sequencer.ExtendedCommitInfoWithMapping :=
  metadata.extendedCommitInfoWithProof.map (·.extendedCommitInfo)

/-- `SubmittedMetadata::try_from_unchecked`. -/
def tryFromUnchecked (unchecked : SubmittedMetadata) : Except Report SubmittedMetadata := do
  ensureIncluded unchecked.rollupTransactionsProof
    (ext.sha256 unchecked.header.rollupTransactionsRoot.toList) unchecked.header.dataHash
    ["the Merkle Tree Hash of the rollup transactions was not a leaf in the sequencer block data"]
  -- `are_rollup_ids_included`
  ensureIncluded unchecked.rollupIdsProof
    (ext.sha256 (FilteredSequencerBlock.idsRoot unchecked.rollupIds).toList) unchecked.header.dataHash
    ["the Merkle Tree Hash of the rollup IDs was not a leaf in the sequencer block data"]
  .ok unchecked

/-- The root and the rollup ids are items of the data under the header's data hash. -/
structure Proved (metadata : SubmittedMetadata) : Prop where
  root : metadata.rollupTransactionsProof.verify
    (ext.sha256 metadata.header.rollupTransactionsRoot.toList).toList metadata.header.dataHash =
      some true
  ids : metadata.rollupIdsProof.verify
    (ext.sha256 (FilteredSequencerBlock.idsRoot metadata.rollupIds).toList).toList
      metadata.header.dataHash = some true

theorem tryFromUnchecked_eq_ok {unchecked metadata : SubmittedMetadata} :
    tryFromUnchecked unchecked = .ok metadata ↔ metadata = unchecked ∧ unchecked.Proved := by
  constructor
  · intro h
    obtain ⟨⟨⟩, hroot, h⟩ := Codec.bind_eq_ok.mp h
    obtain ⟨⟨⟩, hids, h⟩ := Codec.bind_eq_ok.mp h
    cases h
    exact ⟨rfl, ensureIncluded_eq_ok.mp hroot, ensureIncluded_eq_ok.mp hids⟩
  · rintro ⟨rfl, hroot, hids⟩
    refine Codec.bind_eq_ok.mpr ⟨_, ensureIncluded_eq_ok.mpr hroot, ?_⟩
    exact Codec.bind_eq_ok.mpr ⟨_, ensureIncluded_eq_ok.mpr hids, rfl⟩

section

variable [times : TimeCodec] [codec : BlockCodec]

/-- The extended commit info of a raw item, if it has one. -/
def readExtendedCommitInfo (raw : Option RawExtendedCommitInfoWithProof) (dataHash : Bytes32) :
    Except Report (Option ExtendedCommitInfoWithProof) :=
  match raw with
  | none => .ok none
  | some raw =>
    match ExtendedCommitInfoWithProof.tryFromRaw raw dataHash with
    | .ok info => .ok (some info)
    | .error e => .error ("field `.extended_commit_info_with_proof` is invalid" :: e)

/-- `UncheckedSubmittedMetadata::try_from_raw`. -/
def uncheckedFromRaw (raw : RawSubmittedMetadata) : Except Report SubmittedMetadata := do
  let rawHeader ← okOr raw.header ["the field of the raw source value was not set: `header`"]
  let header ← withContext
    "failed constructing the sequencer block header from its raw source value"
    (SequencerBlockHeader.tryFromRaw rawHeader)
  let rollupIds ← withContext "one of the rollup IDs in the raw source value was invalid"
    (readRollupIds raw.rollupIds)
  let rawTransactionsProof ← okOr raw.rollupTransactionsProof
    ["the field of the raw source value was not set: `rollup_transactions_proof`"]
  let rollupTransactionsProof ← withContext
    ("failed constructing a Merkle Hash Tree Proof for the rollup transactions from the raw " ++
      "raw source type")
    rawTransactionsProof.tryIntoProof
  let rawIdsProof ← okOr raw.rollupIdsProof
    ["the field of the raw source value was not set: `rollup_ids_proof`"]
  let rollupIdsProof ← withContext
    "failed constructing a Merkle Hash Tree Proof for the rollup IDs from the raw raw source type"
    rawIdsProof.tryIntoProof
  let blockHash ← okOr (Sequencer.toBytes32 raw.blockHash)
    ["the provided bytes were too short for a block hash; expected: 32 bytes, actual: " ++
      toString raw.blockHash.length ++ " bytes"]
  let upgradeChangeHashes ← withContext "field `.upgrade_change_hashes` is invalid"
    (readChangeHashes raw.upgradeChangeHashes)
  let extendedCommitInfoWithProof ←
    readExtendedCommitInfo raw.extendedCommitInfoWithProof header.dataHash
  .ok
    { blockHash := blockHash
      header := header
      rollupIds := rollupIds
      rollupTransactionsProof := rollupTransactionsProof
      rollupIdsProof := rollupIdsProof
      upgradeChangeHashes := upgradeChangeHashes
      extendedCommitInfoWithProof := extendedCommitInfoWithProof }

/-- `SubmittedMetadata::try_from_raw`. -/
def tryFromRaw (raw : RawSubmittedMetadata) : Except Report SubmittedMetadata :=
  withContext "failed constructing a celestia sequencer blob" do
    let unchecked ← uncheckedFromRaw raw
    tryFromUnchecked unchecked

/-- An item without a proof of the rollup ids is refused. -/
theorem idsProof_of_tryFromRaw {raw : RawSubmittedMetadata} {metadata : SubmittedMetadata}
    (h : tryFromRaw raw = .ok metadata) : raw.rollupIdsProof ≠ none := by
  obtain ⟨unchecked, h, -⟩ := Codec.bind_eq_ok.mp (withContext_eq_ok.mp h)
  obtain ⟨_, -, h⟩ := Codec.bind_eq_ok.mp h
  obtain ⟨_, -, h⟩ := Codec.bind_eq_ok.mp h
  obtain ⟨_, -, h⟩ := Codec.bind_eq_ok.mp h
  obtain ⟨_, -, h⟩ := Codec.bind_eq_ok.mp h
  obtain ⟨_, -, h⟩ := Codec.bind_eq_ok.mp h
  obtain ⟨_, hproof, -⟩ := Codec.bind_eq_ok.mp h
  rw [okOr_eq_ok.mp hproof]
  exact Option.some_ne_none _

/-- Metadata whose message can be read back. -/
structure Readable (metadata : SubmittedMetadata) : Prop where
  header : metadata.header.Valid
  proved : metadata.Proved
  transactionsProof : ProofInTree metadata.rollupTransactionsProof
  idsProof : ProofInTree metadata.rollupIdsProof
  info : ∀ info, metadata.extendedCommitInfoWithProof = some info →
    ProofInTree info.proof ∧ info.Verified metadata.header.dataHash

omit times in
theorem readExtendedCommitInfo_intoRaw {info : Option ExtendedCommitInfoWithProof}
    {dataHash : Bytes32}
    (h : ∀ i, info = some i → ProofInTree i.proof ∧ i.Verified dataHash) :
    readExtendedCommitInfo (info.map ExtendedCommitInfoWithProof.intoRaw) dataHash = .ok info := by
  cases info with
  | none => rfl
  | some i =>
    obtain ⟨hproof, hverified⟩ := h i rfl
    rw [Option.map_some, readExtendedCommitInfo,
      ExtendedCommitInfoWithProof.tryFromRaw_intoRaw hproof hverified]

theorem tryFromRaw_intoRaw {metadata : SubmittedMetadata} (h : metadata.Readable) :
    tryFromRaw metadata.intoRaw = .ok metadata := by
  have hunchecked : uncheckedFromRaw metadata.intoRaw = .ok metadata := by
    refine Codec.bind_eq_ok.mpr ⟨_, rfl, ?_⟩
    refine Codec.bind_eq_ok.mpr
      ⟨_, withContext_eq_ok.mpr (SequencerBlockHeader.tryFromRaw_intoRaw h.header), ?_⟩
    refine Codec.bind_eq_ok.mpr
      ⟨_, withContext_eq_ok.mpr (readRollupIds_toList _), ?_⟩
    refine Codec.bind_eq_ok.mpr ⟨_, rfl, ?_⟩
    refine Codec.bind_eq_ok.mpr
      ⟨_, withContext_eq_ok.mpr (RawProof.tryIntoProof_intoRaw h.transactionsProof), ?_⟩
    refine Codec.bind_eq_ok.mpr ⟨_, rfl, ?_⟩
    refine Codec.bind_eq_ok.mpr
      ⟨_, withContext_eq_ok.mpr (RawProof.tryIntoProof_intoRaw h.idsProof), ?_⟩
    refine Codec.bind_eq_ok.mpr ⟨_, okOr_eq_ok.mpr (Sequencer.toBytes32_toList _), ?_⟩
    refine Codec.bind_eq_ok.mpr ⟨_, withContext_eq_ok.mpr (readChangeHashes_toList _), ?_⟩
    exact Codec.bind_eq_ok.mpr ⟨_, readExtendedCommitInfo_intoRaw h.info, rfl⟩
  refine withContext_eq_ok.mpr (Codec.bind_eq_ok.mpr ⟨_, hunchecked, ?_⟩)
  exact tryFromUnchecked_eq_ok.mpr ⟨rfl, h.proved⟩

end

end SubmittedMetadata

/-! ## Rollup data -/

/-- `SubmittedRollupData::try_from_raw`. -/
def SubmittedRollupData.tryFromRaw (raw : RawSubmittedRollupData) :
    Except Report SubmittedRollupData :=
  withContext "failed constructing a celestia rollup blob" do
    let rawId ← okOr raw.rollupId
      ["the expected field in the raw source type was not set: `rollup_id`"]
    let rollupId ← withContext "failed converting the provided bytes to Rollup ID"
      (RollupId.tryFromRaw rawId)
    let sequencerBlockHash ← okOr (Sequencer.toBytes32 raw.sequencerBlockHash)
      ["the provided bytes were too short for a sequencer block hash. Expected: 32 bytes, " ++
        "provided: " ++ toString raw.sequencerBlockHash.length]
    let rawProof ← okOr raw.proof
      ["the expected field in the raw source type was not set: `proof`"]
    let proof ← withContext
      "failed constructing a Merkle Hash Tree Proof from the provided raw protobuf type"
      rawProof.tryIntoProof
    .ok
      { sequencerBlockHash := sequencerBlockHash
        rollupId := rollupId
        transactions := raw.transactions
        proof := proof }

omit ext in
theorem SubmittedRollupData.tryFromRaw_intoRaw {data : SubmittedRollupData}
    (h : ProofInTree data.proof) : tryFromRaw data.intoRaw = .ok data := by
  refine withContext_eq_ok.mpr ?_
  refine Codec.bind_eq_ok.mpr ⟨_, rfl, ?_⟩
  refine Codec.bind_eq_ok.mpr ⟨_, withContext_eq_ok.mpr (RollupId.tryFromRaw_toList _), ?_⟩
  refine Codec.bind_eq_ok.mpr ⟨_, okOr_eq_ok.mpr (Sequencer.toBytes32_toList _), ?_⟩
  refine Codec.bind_eq_ok.mpr ⟨_, rfl, ?_⟩
  exact Codec.bind_eq_ok.mpr ⟨_, withContext_eq_ok.mpr (RawProof.tryIntoProof_intoRaw h), rfl⟩

/-! ## Metadata that anybody can write -/

namespace SubmittedMetadata

/-- The hash of the first of the two leaves of `assembled`. -/
def firstLeaf (root : Bytes32) : Bytes32 := Merkle.hashLeaf (ext.sha256 root.toList).toList

/-- Metadata under a given block hash, with a header over data of its own choice: a root, and the root
over some rollup ids. -/
def assembled (blockHash : BlockHash) (chainId : String) (height time : ℕ) (rollupIds : List RollupId)
    (root : Bytes32) : SubmittedMetadata :=
  let idsRoot := FilteredSequencerBlock.idsRoot rollupIds
  { blockHash := blockHash
    header :=
      { chainId := chainId
        height := height
        time := time
        rollupTransactionsRoot := root
        dataHash := Merkle.combine (firstLeaf root) (firstLeaf idsRoot)
        proposerAddress := List.Vector.replicate 20 0 }
    rollupIds := rollupIds
    rollupTransactionsProof := { auditPath := [firstLeaf idsRoot], leafIndex := 0, treeSize := 3 }
    rollupIdsProof := { auditPath := [firstLeaf root], leafIndex := 1, treeSize := 3 }
    upgradeChangeHashes := []
    extendedCommitInfoWithProof := none }

theorem proved_assembled (blockHash : BlockHash) (chainId : String) (height time : ℕ)
    (rollupIds : List RollupId) (root : Bytes32) :
    (assembled blockHash chainId height time rollupIds root).Proved := by
  have hparent : Merkle.completeParent 0 3 = some 1 ∧ Merkle.completeParent 2 3 = some 1 := by
    decide +kernel
  constructor
  · show Option.map _ (Merkle.reconstructLoop 3 [_] 0 (firstLeaf root)) = _
    rw [Merkle.reconstructLoop, hparent.1]
    exact congrArg some (decide_eq_true rfl)
  · show Option.map _ (Merkle.reconstructLoop 3 [_] 2 (firstLeaf _)) = _
    rw [Merkle.reconstructLoop, hparent.2]
    exact congrArg some (decide_eq_true rfl)

theorem tryFromUnchecked_assembled (blockHash : BlockHash) (chainId : String) (height time : ℕ)
    (rollupIds : List RollupId) (root : Bytes32) :
    tryFromUnchecked (assembled blockHash chainId height time rollupIds root) =
      .ok (assembled blockHash chainId height time rollupIds root) :=
  tryFromUnchecked_eq_ok.mpr ⟨rfl, proved_assembled _ _ _ _ _ _⟩

end SubmittedMetadata

end Astria.Relayer
