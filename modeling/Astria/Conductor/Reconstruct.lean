import Astria.Conductor.Executor
import Astria.Conductor.Verify
import Astria.Core.DataHash
import Astria.Merkle.Soundness

/-!
# Reconstruction of blocks

Conductor matches the rollup data that it finds on Celestia with the metadata that it has verified
(`celestia/reconstruct.rs`).

The first rollup item of a block hash whose proof verifies consumes the metadata, whichever rollup it is
for: the namespace of a rollup can be written by anybody, with the data of any rollup of the block.

Results:
* `returns_matchRollupBlobs`, `Matched`: which items consume which metadata;
* `reconstructBlocks_spec`: the blocks, by their metadata;
* `mem_committed_of_verify`: an item that verifies is an entry of the data under the root;
* `reconstructsExactly_iff`, `reconstructs_iff`: when the blocks are those that are committed.
-/

namespace Astria.Conductor

open Astria.Core Astria.Lib
open Astria.Relayer (SubmittedMetadata SubmittedRollupData)
open Astria.Sequencer (BlockHash External RollupDatas)

section

variable [ext : External]

/-! ## Reconstruction -/

omit ext in
/-- The block of a metadata item with some transactions. -/
def ReconstructedBlock.ofMetadata (celestiaHeight : ℕ) (metadata : SubmittedMetadata)
    (transactions : List Bytes) : ReconstructedBlock :=
  { celestiaHeight := celestiaHeight
    blockHash := metadata.blockHash
    header := metadata.header
    transactions := transactions
    extendedCommitInfo := metadata.extendedCommitInfo }

/-- `verify_rollup_blob_against_sequencer_blob`; `none` is a panic. -/
def verifyRollupBlobAgainstSequencerBlob (rollupBlob : SubmittedRollupData)
    (sequencerBlob : SubmittedMetadata) : Option Bool :=
  rollupBlob.proof.verify
    (rollupBlob.rollupId.inner.toList ++
      (Merkle.Tree.fromLeaves rollupBlob.transactions : Merkle.Tree Bytes32).root.toList)
    sequencerBlob.header.rollupTransactionsRoot

/-- `remove_header_blob_matching_rollup_blob`. -/
def removeHeaderBlobMatchingRollupBlob (headers : IndexMap BlockHash SubmittedMetadata)
    (rollup : SubmittedRollupData) :
    Option (Option SubmittedMetadata × IndexMap BlockHash SubmittedMetadata) :=
  match headers.get rollup.sequencerBlockHash with
  | none => some (none, headers)
  | some header =>
    match verifyRollupBlobAgainstSequencerBlob rollup header with
    | none => none
    | some false => some (none, headers)
    | some true => some (some header, headers.remove rollup.sequencerBlockHash)

/-- The loop over the rollup blobs, with the header blobs that are left over. -/
def matchRollupBlobs (celestiaHeight : ℕ) :
    List SubmittedRollupData → IndexMap BlockHash SubmittedMetadata →
      Option (List ReconstructedBlock × IndexMap BlockHash SubmittedMetadata)
  | [], headers => some ([], headers)
  | rollup :: rest, headers =>
    match removeHeaderBlobMatchingRollupBlob headers rollup with
    | none => none
    | some (none, headers) => matchRollupBlobs celestiaHeight rest headers
    | some (some headerBlob, headers) =>
      match matchRollupBlobs celestiaHeight rest headers with
      | none => none
      | some (blocks, left) =>
        some (.ofMetadata celestiaHeight headerBlob rollup.transactions :: blocks, left)

omit ext in
/-- The loop over the header blobs that are left over. -/
def reconstructLeftOver (celestiaHeight : ℕ) (rollupId : RollupId)
    (headers : IndexMap BlockHash SubmittedMetadata) : List ReconstructedBlock :=
  (headers.values.filter fun header => rollupId ∉ header.rollupIds).map fun header =>
    .ofMetadata celestiaHeight header []

/-- `reconstruct_blocks_from_verified_blobs`. -/
def reconstructBlocksFromVerifiedBlobs (verifiedBlobs : VerifiedBlobs) (rollupId : RollupId) :
    Option (List ReconstructedBlock) :=
  match matchRollupBlobs verifiedBlobs.celestiaHeight verifiedBlobs.rollupBlobs
      verifiedBlobs.headerBlobs with
  | none => none
  | some (blocks, left) =>
    some (blocks ++ reconstructLeftOver verifiedBlobs.celestiaHeight rollupId left)

/-! ## Which items are matched -/

omit ext in
/-- A map of metadata by its block hash. -/
def Keyed (headers : IndexMap BlockHash SubmittedMetadata) : Prop :=
  ∀ hash metadata, headers.get hash = some metadata → metadata.blockHash = hash

/-- The first item of a block hash that is not refused. -/
def consumer (rollups : List SubmittedRollupData) (metadata : SubmittedMetadata) :
    Option SubmittedRollupData :=
  rollups.find? fun rollup => rollup.sequencerBlockHash = metadata.blockHash ∧
    verifyRollupBlobAgainstSequencerBlob rollup metadata ≠ some false

/-- No audit of an item panics. -/
def Audited (headers : IndexMap BlockHash SubmittedMetadata) (rollups : List SubmittedRollupData) :
    Prop :=
  ∀ hash metadata, headers.get hash = some metadata → ∀ rollup, consumer rollups metadata = some rollup →
    verifyRollupBlobAgainstSequencerBlob rollup metadata = some true

/-- What the loop over the rollup blobs comes to. -/
structure Matched (celestiaHeight : ℕ) (headers : IndexMap BlockHash SubmittedMetadata)
    (rollups : List SubmittedRollupData) (blocks : List ReconstructedBlock)
    (left : IndexMap BlockHash SubmittedMetadata) : Prop where
  get_left : ∀ hash metadata, left.get hash = some metadata ↔
    headers.get hash = some metadata ∧ consumer rollups metadata = none
  mem_blocks : ∀ block, block ∈ blocks ↔ ∃ hash metadata rollup, headers.get hash = some metadata ∧
    consumer rollups metadata = some rollup ∧
      block = .ofMetadata celestiaHeight metadata rollup.transactions
  nodup : (blocks.map (·.blockHash)).Nodup

section

variable {celestiaHeight : ℕ} {headers : IndexMap BlockHash SubmittedMetadata}
  {rollup : SubmittedRollupData} {rest : List SubmittedRollupData} {metadata : SubmittedMetadata}

omit ext in
theorem Keyed.remove (h : Keyed headers) (hash : BlockHash) : Keyed (headers.remove hash) := by
  intro hash' metadata hget
  rw [IndexMap.get_remove] at hget
  split_ifs at hget
  exact h hash' metadata hget

theorem consumer_cons_of_skipped
    (h : rollup.sequencerBlockHash = metadata.blockHash →
      verifyRollupBlobAgainstSequencerBlob rollup metadata = some false) :
    consumer (rollup :: rest) metadata = consumer rest metadata := by
  refine List.find?_cons_of_neg ?_
  intro hfound
  obtain ⟨hhash, hverify⟩ := of_decide_eq_true hfound
  exact hverify (h hhash)

theorem of_consumer {rollups : List SubmittedRollupData} (h : consumer rollups metadata = some rollup) :
    rollup ∈ rollups ∧ rollup.sequencerBlockHash = metadata.blockHash ∧
      verifyRollupBlobAgainstSequencerBlob rollup metadata ≠ some false := by
  unfold consumer at h
  exact ⟨List.mem_of_find?_eq_some h, by simpa using List.find?_some h⟩

theorem consumer_cons_of_taken (hhash : rollup.sequencerBlockHash = metadata.blockHash)
    (hverify : verifyRollupBlobAgainstSequencerBlob rollup metadata ≠ some false) :
    consumer (rollup :: rest) metadata = some rollup :=
  List.find?_cons_of_pos (decide_eq_true ⟨hhash, hverify⟩)

/-- An item that matches no metadata makes no difference. -/
theorem Matched.skip {blocks : List ReconstructedBlock}
    {left : IndexMap BlockHash SubmittedMetadata}
    (hskip : ∀ hash metadata, headers.get hash = some metadata →
      consumer (rollup :: rest) metadata = consumer rest metadata)
    (h : Matched celestiaHeight headers rest blocks left) :
    Matched celestiaHeight headers (rollup :: rest) blocks left where
  get_left := by
    intro hash metadata
    rw [h.get_left]
    refine and_congr_right fun hget => ?_
    rw [hskip hash metadata hget]
  mem_blocks := by
    intro block
    rw [h.mem_blocks]
    refine exists_congr fun hash => exists_congr fun metadata => exists_congr fun item => ?_
    refine and_congr_right fun hget => ?_
    rw [hskip hash metadata hget]
  nodup := h.nodup

/-- An item that is matched takes its metadata. -/
theorem Matched.take {blocks : List ReconstructedBlock}
    {left : IndexMap BlockHash SubmittedMetadata} (hkeyed : Keyed headers)
    (hget : headers.get rollup.sequencerBlockHash = some metadata)
    (hverify : verifyRollupBlobAgainstSequencerBlob rollup metadata = some true)
    (h : Matched celestiaHeight (headers.remove rollup.sequencerBlockHash) rest blocks left) :
    Matched celestiaHeight headers (rollup :: rest)
      (.ofMetadata celestiaHeight metadata rollup.transactions :: blocks) left := by
  have hhash : metadata.blockHash = rollup.sequencerBlockHash := hkeyed _ metadata hget
  have htaken : consumer (rollup :: rest) metadata = some rollup :=
    consumer_cons_of_taken hhash.symm (by rw [hverify]; decide)
  have hother {hash : BlockHash} {other : SubmittedMetadata} (hne : hash ≠ rollup.sequencerBlockHash)
      (hother : headers.get hash = some other) :
      consumer (rollup :: rest) other = consumer rest other := by
    refine consumer_cons_of_skipped fun heq => ?_
    rw [hkeyed hash other hother] at heq
    exact absurd heq.symm hne
  constructor
  · intro hash other
    rw [h.get_left, IndexMap.get_remove]
    by_cases heq : hash = rollup.sequencerBlockHash
    · rw [if_pos heq]
      refine iff_of_false (fun hnone => by cases hnone.1) ?_
      rintro ⟨hget', hnone⟩
      rw [heq, hget] at hget'
      cases hget'
      rw [htaken] at hnone
      cases hnone
    · rw [if_neg heq]
      refine and_congr_right fun hget' => ?_
      rw [hother heq hget']
  · intro block
    rw [List.mem_cons, h.mem_blocks]
    constructor
    · rintro (rfl | ⟨hash, other, item, hget', hconsumer, rfl⟩)
      · exact ⟨_, metadata, rollup, hget, htaken, rfl⟩
      · rw [IndexMap.get_remove] at hget'
        split_ifs at hget' with heq
        exact ⟨hash, other, item, hget', (hother heq hget').trans hconsumer, rfl⟩
    · rintro ⟨hash, other, item, hget', hconsumer, rfl⟩
      by_cases heq : hash = rollup.sequencerBlockHash
      · rw [heq, hget] at hget'
        cases hget'
        rw [htaken] at hconsumer
        cases hconsumer
        exact Or.inl rfl
      · refine Or.inr ⟨hash, other, item, ?_, (hother heq hget').symm.trans hconsumer, rfl⟩
        rw [IndexMap.get_remove, if_neg heq]
        exact hget'
  · rw [List.map_cons, List.nodup_cons]
    refine ⟨?_, h.nodup⟩
    intro hmem
    obtain ⟨block, hblock, heq⟩ := List.mem_map.mp hmem
    obtain ⟨hash, other, item, hget', -, rfl⟩ := (h.mem_blocks block).mp hblock
    have hkey : other.blockHash = hash := hkeyed.remove _ hash other hget'
    have heq : other.blockHash = metadata.blockHash := heq
    rw [IndexMap.get_remove, if_pos (by rw [← hkey, heq, hhash])] at hget'
    cases hget'

/-- The loop ends without a panic exactly if no audit of an item that takes its metadata panics. -/
theorem returns_matchRollupBlobs (hkeyed : Keyed headers) (celestiaHeight : ℕ)
    (rollups : List SubmittedRollupData) :
    (Audited headers rollups ∧ ∃ blocks left,
      matchRollupBlobs celestiaHeight rollups headers = some (blocks, left) ∧
        Matched celestiaHeight headers rollups blocks left) ∨
      ¬Audited headers rollups ∧ matchRollupBlobs celestiaHeight rollups headers = none := by
  induction rollups generalizing headers with
  | nil =>
    refine Or.inl ⟨fun _ _ _ rollup h => (by cases h), [], headers, rfl, ?_⟩
    constructor
    · intro hash metadata
      exact ⟨fun h => ⟨h, rfl⟩, fun h => h.1⟩
    · intro block
      refine iff_of_false List.not_mem_nil ?_
      rintro ⟨hash, metadata, rollup, -, h, -⟩
      cases h
    · exact List.nodup_nil
  | cons rollup rest ih =>
    -- an item that matches no metadata is passed over
    have hskipped (hskip : ∀ hash metadata, headers.get hash = some metadata →
          consumer (rollup :: rest) metadata = consumer rest metadata)
        (hstep : matchRollupBlobs celestiaHeight (rollup :: rest) headers =
          matchRollupBlobs celestiaHeight rest headers) :
        (Audited headers (rollup :: rest) ∧ ∃ blocks left,
          matchRollupBlobs celestiaHeight (rollup :: rest) headers = some (blocks, left) ∧
            Matched celestiaHeight headers (rollup :: rest) blocks left) ∨
          ¬Audited headers (rollup :: rest) ∧
            matchRollupBlobs celestiaHeight (rollup :: rest) headers = none := by
      have haudited : Audited headers (rollup :: rest) ↔ Audited headers rest := by
        refine forall_congr' fun hash => forall_congr' fun metadata => forall_congr' fun hget => ?_
        rw [hskip hash metadata hget]
      rw [hstep, haudited]
      refine (ih hkeyed).imp_left ?_
      rintro ⟨hok, blocks, left, hmatch, hmatched⟩
      exact ⟨hok, blocks, left, hmatch, hmatched.skip hskip⟩
    cases hget : headers.get rollup.sequencerBlockHash with
    | none =>
      apply hskipped
      · intro hash metadata hget'
        refine consumer_cons_of_skipped fun heq => ?_
        rw [heq, hkeyed hash metadata hget', hget'] at hget
        cases hget
      · simp only [matchRollupBlobs, removeHeaderBlobMatchingRollupBlob, hget]
    | some metadata =>
      have hhash : metadata.blockHash = rollup.sequencerBlockHash := hkeyed _ metadata hget
      cases hverify : verifyRollupBlobAgainstSequencerBlob rollup metadata with
      | none =>
        refine Or.inr ⟨fun haudited => ?_, ?_⟩
        · have htrue := haudited _ metadata hget rollup
            (consumer_cons_of_taken hhash.symm (by rw [hverify]; decide))
          rw [hverify] at htrue
          cases htrue
        · simp only [matchRollupBlobs, removeHeaderBlobMatchingRollupBlob, hget, hverify]
      | some verified =>
        cases verified with
        | false =>
          apply hskipped
          · intro hash other hget'
            refine consumer_cons_of_skipped fun heq => ?_
            rw [heq, hkeyed hash other hget', hget'] at hget
            cases hget
            exact hverify
          · simp only [matchRollupBlobs, removeHeaderBlobMatchingRollupBlob, hget, hverify]
        | true =>
          have htaken : consumer (rollup :: rest) metadata = some rollup :=
            consumer_cons_of_taken hhash.symm (by rw [hverify]; decide)
          have haudited : Audited headers (rollup :: rest) ↔
              Audited (headers.remove rollup.sequencerBlockHash) rest := by
            constructor
            · intro h hash other hget' item hitem
              rw [IndexMap.get_remove] at hget'
              split_ifs at hget' with hne
              refine h hash other hget' item ?_
              rw [consumer_cons_of_skipped fun heq => absurd ?_ hne, hitem]
              rw [heq, hkeyed hash other hget']
            · intro h hash other hget' item hitem
              by_cases heq : hash = rollup.sequencerBlockHash
              · rw [heq, hget] at hget'
                cases hget'
                rw [htaken] at hitem
                cases hitem
                exact hverify
              · refine h hash other ?_ item ?_
                · rw [IndexMap.get_remove, if_neg heq]
                  exact hget'
                · rw [← hitem, consumer_cons_of_skipped fun heq' => absurd ?_ heq]
                  rw [heq', hkeyed hash other hget']
          rw [haudited]
          rcases ih (hkeyed.remove rollup.sequencerBlockHash) with
            ⟨hok, blocks, left, hmatch, hmatched⟩ | ⟨hpanic, hmatch⟩
          · refine Or.inl ⟨hok, _ :: blocks, left, ?_, hmatched.take hkeyed hget hverify⟩
            simp only [matchRollupBlobs, removeHeaderBlobMatchingRollupBlob, hget, hverify, hmatch]
          · refine Or.inr ⟨hpanic, ?_⟩
            simp only [matchRollupBlobs, removeHeaderBlobMatchingRollupBlob, hget, hverify, hmatch]

end

/-! ## The blocks -/

/-- The transactions with which the code reconstructs a block for a metadata item, if it does. -/
def outcome (rollupId : RollupId) (rollups : List SubmittedRollupData) (metadata : SubmittedMetadata) :
    Option (List Bytes) :=
  match consumer rollups metadata with
  | some rollup => some rollup.transactions
  | none => if rollupId ∈ metadata.rollupIds then none else some []

/-- The blocks by their metadata: at most one for each item. -/
structure Reconstructed (verifiedBlobs : VerifiedBlobs) (rollupId : RollupId)
    (blocks : List ReconstructedBlock) : Prop where
  mem_blocks : ∀ block, block ∈ blocks ↔ ∃ hash metadata transactions,
    verifiedBlobs.headerBlobs.get hash = some metadata ∧
      outcome rollupId verifiedBlobs.rollupBlobs metadata = some transactions ∧
        block = .ofMetadata verifiedBlobs.celestiaHeight metadata transactions
  nodup : (blocks.map (·.blockHash)).Nodup

section

variable {verifiedBlobs : VerifiedBlobs} {rollupId : RollupId} {blocks : List ReconstructedBlock}

omit ext in
theorem mem_reconstructLeftOver {celestiaHeight : ℕ} {left : IndexMap BlockHash SubmittedMetadata}
    {block : ReconstructedBlock} :
    block ∈ reconstructLeftOver celestiaHeight rollupId left ↔ ∃ hash metadata,
      left.get hash = some metadata ∧ rollupId ∉ metadata.rollupIds ∧
        block = .ofMetadata celestiaHeight metadata [] := by
  unfold reconstructLeftOver IndexMap.values
  rw [List.mem_map]
  constructor
  · rintro ⟨metadata, hmem, rfl⟩
    obtain ⟨hmem, hid⟩ := List.mem_filter.mp hmem
    obtain ⟨⟨hash, metadata⟩, hentry, rfl⟩ := List.mem_map.mp hmem
    exact ⟨hash, metadata, IndexMap.get_eq_some.mpr hentry, of_decide_eq_true hid, rfl⟩
  · rintro ⟨hash, metadata, hget, hid, rfl⟩
    refine ⟨metadata, List.mem_filter.mpr ⟨?_, decide_eq_true hid⟩, rfl⟩
    exact List.mem_map_of_mem (IndexMap.get_eq_some.mp hget)

omit ext in
/-- The blocks that are left over have the hashes of their metadata. -/
theorem nodup_reconstructLeftOver {left : IndexMap BlockHash SubmittedMetadata} (h : Keyed left)
    (celestiaHeight : ℕ) (rollupId : RollupId) :
    ((reconstructLeftOver celestiaHeight rollupId left).map (·.blockHash)).Nodup := by
  have hkeys : left.values.map (·.blockHash) = left.keys := by
    unfold IndexMap.values IndexMap.keys
    rw [List.map_map]
    refine List.map_congr_left ?_
    rintro ⟨hash, metadata⟩ hentry
    exact h hash metadata (IndexMap.get_eq_some.mpr hentry)
  have hnodup : (left.values.map (·.blockHash)).Nodup := hkeys ▸ left.nodup
  unfold reconstructLeftOver
  rw [List.map_map]
  exact hnodup.sublist (List.filter_sublist.map _)

theorem Matched.reconstructed {left : IndexMap BlockHash SubmittedMetadata}
    (hkeyed : Keyed verifiedBlobs.headerBlobs)
    (h : Matched verifiedBlobs.celestiaHeight verifiedBlobs.headerBlobs verifiedBlobs.rollupBlobs
      blocks left) :
    Reconstructed verifiedBlobs rollupId
      (blocks ++ reconstructLeftOver verifiedBlobs.celestiaHeight rollupId left) := by
  have hleft : Keyed left := fun hash metadata hget => hkeyed hash metadata ((h.get_left _ _).mp hget).1
  constructor
  · intro block
    rw [List.mem_append, h.mem_blocks, mem_reconstructLeftOver]
    constructor
    · rintro (⟨hash, metadata, rollup, hget, hconsumer, rfl⟩ | ⟨hash, metadata, hget, hid, rfl⟩)
      · refine ⟨hash, metadata, rollup.transactions, hget, ?_, rfl⟩
        rw [outcome, hconsumer]
      · obtain ⟨hget, hconsumer⟩ := (h.get_left _ _).mp hget
        refine ⟨hash, metadata, [], hget, ?_, rfl⟩
        rw [outcome, hconsumer]
        exact if_neg hid
    · rintro ⟨hash, metadata, transactions, hget, houtcome, rfl⟩
      unfold outcome at houtcome
      cases hconsumer : consumer verifiedBlobs.rollupBlobs metadata with
      | some rollup =>
        rw [hconsumer] at houtcome
        cases houtcome
        exact Or.inl ⟨hash, metadata, rollup, hget, hconsumer, rfl⟩
      | none =>
        rw [hconsumer] at houtcome
        dsimp only at houtcome
        split_ifs at houtcome with hid
        cases houtcome
        exact Or.inr ⟨hash, metadata, (h.get_left _ _).mpr ⟨hget, hconsumer⟩, hid, rfl⟩
  · rw [List.map_append, List.nodup_append]
    refine ⟨h.nodup, nodup_reconstructLeftOver hleft _ _, ?_⟩
    intro hash hmem hash' hmem' heq
    obtain ⟨block, hblock, rfl⟩ := List.mem_map.mp hmem
    obtain ⟨block', hblock', rfl⟩ := List.mem_map.mp hmem'
    obtain ⟨key, metadata, rollup, hget, hconsumer, rfl⟩ := (h.mem_blocks _).mp hblock
    obtain ⟨key', metadata', hget', -, rfl⟩ := mem_reconstructLeftOver.mp hblock'
    obtain ⟨hget', hnone⟩ := (h.get_left _ _).mp hget'
    have hkey : key = key' := by
      rw [← hkeyed _ _ hget, ← hkeyed _ _ hget']
      exact heq
    rw [hkey, hget'] at hget
    cases hget
    rw [hconsumer] at hnone
    cases hnone

/-- Blocks are reconstructed exactly if no audit panics, and then they are these. -/
theorem reconstructBlocks_spec (hkeyed : Keyed verifiedBlobs.headerBlobs) (rollupId : RollupId) :
    (Audited verifiedBlobs.headerBlobs verifiedBlobs.rollupBlobs ∧
      ∃ blocks, reconstructBlocksFromVerifiedBlobs verifiedBlobs rollupId = some blocks ∧
        Reconstructed verifiedBlobs rollupId blocks) ∨
      ¬Audited verifiedBlobs.headerBlobs verifiedBlobs.rollupBlobs ∧
        reconstructBlocksFromVerifiedBlobs verifiedBlobs rollupId = none := by
  unfold reconstructBlocksFromVerifiedBlobs
  rcases returns_matchRollupBlobs hkeyed verifiedBlobs.celestiaHeight verifiedBlobs.rollupBlobs with
    ⟨haudited, blocks, left, hmatch, hmatched⟩ | ⟨hpanic, hmatch⟩
  · rw [hmatch]
    exact Or.inl ⟨haudited, _, rfl, hmatched.reconstructed hkeyed⟩
  · rw [hmatch]
    exact Or.inr ⟨hpanic, rfl⟩

end

/-! ## What is committed -/

/-- The root of a metadata item is that of some data. -/
structure Commits (metadata : SubmittedMetadata) (datas : RollupDatas) : Prop where
  root : metadata.header.rollupTransactionsRoot = Sequencer.rollupTransactionsRoot datas
  nodup : (datas.map (·.1)).Nodup
  addressable : Addressable datas

omit ext in
/-- The transactions that are committed for a rollup: none if the rollup is not among the ids. -/
def committedFor (datas : RollupDatas) (rollupId : RollupId) (metadata : SubmittedMetadata) :
    List Bytes :=
  if rollupId ∈ metadata.rollupIds then (SortedMap.lookup rollupId datas).getD [] else []

/-- What is hashed when an item is audited. -/
def hashedByAudit (rollup : SubmittedRollupData) : List Bytes :=
  Merkle.treeBytes Bytes32 rollup.transactions ++
    (rollup.proof.inputs (rollupLeaf (rollup.rollupId, rollup.transactions))).map Merkle.encodeInput

/-- The item of a rollup that verifies is an entry of the data under the root. -/
theorem mem_committed_of_verify {l : List Bytes} (hl : CollisionFree l)
    {metadata : SubmittedMetadata} {datas : RollupDatas} (hcommits : Commits metadata datas)
    {rollup : SubmittedRollupData} (h64 : rollup.transactions.length ≤ 2 ^ 63)
    (hdatas : hashedByDatas datas ⊆ l) (hrollup : hashedByAudit rollup ⊆ l)
    (hverify : verifyRollupBlobAgainstSequencerBlob rollup metadata = some true) :
    (rollup.rollupId, rollup.transactions) ∈ datas := by
  have hlength : (datas.map rollupLeaf).length ≤ 2 ^ 63 := by
    rw [List.length_map]
    exact hcommits.addressable.1
  have hholds := Merkle.Tree.fromLeaves_holds (D := Bytes32) hlength
  have hfree : Merkle.NoCollision Bytes32 (Merkle.hashedBytes (datas.map rollupLeaf) rollup.proof
      (rollupLeaf (rollup.rollupId, rollup.transactions))) := by
    intro a ha b hb
    refine hl.mono ?_ a ha b hb
    refine List.append_subset.mpr ⟨fun i hi => hdatas (List.mem_append_left _ hi), ?_⟩
    exact fun i hi => hrollup (List.mem_append_right _ hi)
  have hverify : rollup.proof.verify (rollupLeaf (rollup.rollupId, rollup.transactions))
      (Merkle.Tree.fromLeaves (datas.map rollupLeaf) : Merkle.Tree Bytes32).root = some true := by
    have h := hverify
    unfold verifyRollupBlobAgainstSequencerBlob at h
    rw [hcommits.root] at h
    exact h
  obtain ⟨e, he, hleaf⟩ := List.mem_map.mp
    (hholds.mem_of_verify splits_bytes32 hlength hfree hverify)
  have heq : e = (rollup.rollupId, rollup.transactions) := by
    refine rollupLeaf_inj hl (hcommits.addressable.2 e he) h64 ?_ ?_ hleaf
    · intro i hi
      exact hdatas (List.mem_append_right _ (List.mem_flatMap.mpr ⟨e, he, hi⟩))
    · exact fun i hi => hrollup (List.mem_append_left _ hi)
  exact heq ▸ he

/-! ## Exactness -/

/-- The list holds an item of the rollup itself for a metadata item, with a proof that verifies. -/
def OwnVerifies (rollupId : RollupId) (rollups : List SubmittedRollupData)
    (metadata : SubmittedMetadata) : Prop :=
  ∃ rollup ∈ rollups, rollup.sequencerBlockHash = metadata.blockHash ∧ rollup.rollupId = rollupId ∧
    verifyRollupBlobAgainstSequencerBlob rollup metadata = some true

/-- The blocks are those of the metadata whose rollup ids do not have the rollup, or for which the list
holds its item, each once and with the transactions that are committed. -/
structure Exact (verifiedBlobs : VerifiedBlobs) (rollupId : RollupId)
    (committed : BlockHash → RollupDatas) (blocks : List ReconstructedBlock) : Prop where
  nodup : (blocks.map (·.blockHash)).Nodup
  of_metadata : ∀ block ∈ blocks, ∃ metadata,
    verifiedBlobs.headerBlobs.get block.blockHash = some metadata ∧
      block = .ofMetadata verifiedBlobs.celestiaHeight metadata
        (committedFor (committed block.blockHash) rollupId metadata)
  present_iff : ∀ hash metadata, verifiedBlobs.headerBlobs.get hash = some metadata →
    ((∃ block ∈ blocks, block.blockHash = hash) ↔
      rollupId ∉ metadata.rollupIds ∨ OwnVerifies rollupId verifiedBlobs.rollupBlobs metadata)

/-- Reconstruction ends with exactly the committed blocks. -/
def ReconstructsExactly (verifiedBlobs : VerifiedBlobs) (rollupId : RollupId)
    (committed : BlockHash → RollupDatas) : Prop :=
  ∃ blocks, reconstructBlocksFromVerifiedBlobs verifiedBlobs rollupId = some blocks ∧
    Exact verifiedBlobs rollupId committed blocks

/-- An item takes no metadata away from the rollup: its audit does not panic, a block is due, and it has
the transactions of that block. -/
def TakesRightly (rollupId : RollupId) (rollups : List SubmittedRollupData) (datas : RollupDatas)
    (metadata : SubmittedMetadata) (rollup : SubmittedRollupData) : Prop :=
  verifyRollupBlobAgainstSequencerBlob rollup metadata = some true ∧
    (rollupId ∈ metadata.rollupIds → OwnVerifies rollupId rollups metadata) ∧
      rollup.transactions = committedFor datas rollupId metadata

theorem not_ownVerifies {rollupId : RollupId} {rollups : List SubmittedRollupData}
    {metadata : SubmittedMetadata} (h : consumer rollups metadata = none) :
    ¬OwnVerifies rollupId rollups metadata := by
  rintro ⟨rollup, hmem, hhash, -, hverify⟩
  have hnot := List.find?_eq_none.mp h rollup hmem
  refine hnot (decide_eq_true ⟨hhash, ?_⟩)
  rw [hverify]
  decide

theorem reconstructsExactly_iff {verifiedBlobs : VerifiedBlobs}
    (hkeyed : Keyed verifiedBlobs.headerBlobs) (rollupId : RollupId)
    (committed : BlockHash → RollupDatas) :
    ReconstructsExactly verifiedBlobs rollupId committed ↔
      ∀ hash metadata, verifiedBlobs.headerBlobs.get hash = some metadata → ∀ rollup,
        consumer verifiedBlobs.rollupBlobs metadata = some rollup →
          TakesRightly rollupId verifiedBlobs.rollupBlobs (committed hash) metadata rollup := by
  constructor
  · rintro ⟨blocks, hblocks, hexact⟩ hash metadata hget rollup hconsumer
    rcases reconstructBlocks_spec hkeyed rollupId with
      ⟨haudited, blocks', hblocks', hspec⟩ | ⟨-, hpanic⟩
    · obtain rfl : blocks' = blocks := Option.some.inj (hblocks'.symm.trans hblocks)
      have houtcome : outcome rollupId verifiedBlobs.rollupBlobs metadata = some rollup.transactions := by
        rw [outcome, hconsumer]
      have hmem := (hspec.mem_blocks _).mpr ⟨hash, metadata, _, hget, houtcome, rfl⟩
      have hhash := hkeyed hash metadata hget
      refine ⟨haudited hash metadata hget rollup hconsumer, fun hid => ?_, ?_⟩
      · exact ((hexact.present_iff hash metadata hget).mp ⟨_, hmem, hhash⟩).resolve_left
          (not_not_intro hid)
      · obtain ⟨metadata', hget', heq⟩ := hexact.of_metadata _ hmem
        have hblock : (ReconstructedBlock.ofMetadata verifiedBlobs.celestiaHeight metadata
          rollup.transactions).blockHash = hash := hhash
        rw [hblock] at hget' heq
        rw [hget] at hget'
        cases hget'
        exact congrArg ReconstructedBlock.transactions heq
    · rw [hblocks] at hpanic
      cases hpanic
  · intro h
    have haudited : Audited verifiedBlobs.headerBlobs verifiedBlobs.rollupBlobs :=
      fun hash metadata hget rollup hconsumer => (h hash metadata hget rollup hconsumer).1
    rcases reconstructBlocks_spec hkeyed rollupId with ⟨-, blocks, hblocks, hspec⟩ | ⟨hpanic, -⟩
    · refine ⟨blocks, hblocks, hspec.nodup, ?_, ?_⟩
      · intro block hblock
        obtain ⟨hash, metadata, transactions, hget, houtcome, rfl⟩ := (hspec.mem_blocks _).mp hblock
        have hhash : (ReconstructedBlock.ofMetadata verifiedBlobs.celestiaHeight metadata
          transactions).blockHash = hash := hkeyed hash metadata hget
        rw [hhash]
        refine ⟨metadata, hget, ?_⟩
        unfold outcome at houtcome
        cases hconsumer : consumer verifiedBlobs.rollupBlobs metadata with
        | some rollup =>
          rw [hconsumer] at houtcome
          cases houtcome
          rw [← (h hash metadata hget rollup hconsumer).2.2]
        | none =>
          rw [hconsumer] at houtcome
          dsimp only at houtcome
          split_ifs at houtcome with hid
          cases houtcome
          rw [committedFor, if_neg hid]
      · intro hash metadata hget
        constructor
        · rintro ⟨block, hblock, rfl⟩
          obtain ⟨hash', metadata', transactions, hget', houtcome, rfl⟩ :=
            (hspec.mem_blocks _).mp hblock
          obtain rfl := hkeyed hash' metadata' hget'
          obtain rfl : metadata' = metadata := Option.some.inj (hget'.symm.trans hget)
          unfold outcome at houtcome
          cases hconsumer : consumer verifiedBlobs.rollupBlobs metadata' with
          | some rollup =>
            exact or_iff_not_imp_left.mpr fun hid =>
              (h _ metadata' hget rollup hconsumer).2.1 (not_not.mp hid)
          | none =>
            rw [hconsumer] at houtcome
            dsimp only at houtcome
            split_ifs at houtcome with hid
            exact Or.inl hid
        · intro hdue
          obtain ⟨transactions, houtcome⟩ : ∃ transactions,
              outcome rollupId verifiedBlobs.rollupBlobs metadata = some transactions := by
            unfold outcome
            cases hconsumer : consumer verifiedBlobs.rollupBlobs metadata with
            | some rollup => exact ⟨_, rfl⟩
            | none =>
              exact ⟨[], if_neg (hdue.resolve_right (not_ownVerifies hconsumer))⟩
          exact ⟨_, (hspec.mem_blocks _).mpr ⟨hash, metadata, _, hget, houtcome, rfl⟩,
            hkeyed hash metadata hget⟩
    · exact absurd haudited hpanic

/-- What is hashed for the data that are committed, and for the items that are audited. -/
def hashedByReconstruction (verifiedBlobs : VerifiedBlobs) (committed : BlockHash → RollupDatas) :
    List Bytes :=
  verifiedBlobs.headerBlobs.keys.flatMap (fun hash => hashedByDatas (committed hash)) ++
    verifiedBlobs.rollupBlobs.flatMap hashedByAudit

/-- Reconstruction is exact, in whatever order the items come, exactly if the audit of no item panics,
and every item that verifies is the rollup's own, and the rollup is among the ids, or it happens to have
the transactions of the block that is due. -/
theorem reconstructs_iff {verifiedBlobs : VerifiedBlobs} {committed : BlockHash → RollupDatas}
    (hkeyed : Keyed verifiedBlobs.headerBlobs)
    (hcommits : ∀ hash metadata, verifiedBlobs.headerBlobs.get hash = some metadata →
      Commits metadata (committed hash))
    (h64 : ∀ rollup ∈ verifiedBlobs.rollupBlobs, rollup.transactions.length ≤ 2 ^ 63)
    (hfree : CollisionFree (hashedByReconstruction verifiedBlobs committed)) (rollupId : RollupId) :
    (∀ rollups : List SubmittedRollupData, rollups.Perm verifiedBlobs.rollupBlobs →
      ReconstructsExactly { verifiedBlobs with rollupBlobs := rollups } rollupId committed) ↔
      ∀ hash metadata, verifiedBlobs.headerBlobs.get hash = some metadata →
        ∀ rollup ∈ verifiedBlobs.rollupBlobs, rollup.sequencerBlockHash = hash →
          verifyRollupBlobAgainstSequencerBlob rollup metadata ≠ some false →
            verifyRollupBlobAgainstSequencerBlob rollup metadata = some true ∧
              (rollup.rollupId = rollupId ∧ rollupId ∈ metadata.rollupIds ∨
                (rollupId ∈ metadata.rollupIds →
                  OwnVerifies rollupId verifiedBlobs.rollupBlobs metadata) ∧
                  rollup.transactions = committedFor (committed hash) rollupId metadata) := by
  have hown {rollups : List SubmittedRollupData} (hperm : rollups.Perm verifiedBlobs.rollupBlobs)
      (metadata : SubmittedMetadata) : OwnVerifies rollupId rollups metadata ↔
        OwnVerifies rollupId verifiedBlobs.rollupBlobs metadata :=
    exists_congr fun rollup => and_congr_left fun _ => hperm.mem_iff
  constructor
  · intro h hash metadata hget rollup hmem hhash hverify
    -- the item comes first in some order
    obtain ⟨before, behind, heq⟩ := List.append_of_mem hmem
    have hperm : (rollup :: (before ++ behind)).Perm verifiedBlobs.rollupBlobs := by
      rw [heq]
      exact List.perm_middle.symm
    have hfirst : Keyed { verifiedBlobs with
      rollupBlobs := rollup :: (before ++ behind) }.headerBlobs := hkeyed
    have hexact := (reconstructsExactly_iff hfirst rollupId committed).mp (h _ hperm)
    obtain ⟨htrue, hdue, htransactions⟩ := hexact hash metadata hget rollup
      (consumer_cons_of_taken (hhash.trans (hkeyed hash metadata hget).symm) hverify)
    exact ⟨htrue, Or.inr ⟨fun hid => (hown hperm metadata).mp (hdue hid), htransactions⟩⟩
  · intro h rollups hperm
    have hkeyed' : Keyed { verifiedBlobs with rollupBlobs := rollups }.headerBlobs := hkeyed
    rw [reconstructsExactly_iff hkeyed']
    intro hash metadata hget rollup hconsumer
    obtain ⟨hmem, hhash, hverify⟩ := of_consumer hconsumer
    have hmem := hperm.mem_iff.mp hmem
    obtain ⟨htrue, hcase⟩ := h hash metadata hget rollup hmem
      (hhash.trans (hkeyed hash metadata hget)) hverify
    unfold TakesRightly
    dsimp only
    rw [hown hperm]
    refine ⟨htrue, ?_⟩
    rcases hcase with ⟨hself, hid⟩ | ⟨hdue, htransactions⟩
    · refine ⟨fun _ => ⟨rollup, hmem, hhash, hself, htrue⟩, ?_⟩
      have hentry := mem_committed_of_verify hfree (hcommits hash metadata hget) (h64 rollup hmem)
        (fun i hi => List.mem_append_left _ (List.mem_flatMap.mpr
          ⟨hash, List.mem_map_of_mem (IndexMap.get_eq_some.mp hget), hi⟩))
        (fun i hi => List.mem_append_right _ (List.mem_flatMap.mpr ⟨rollup, hmem, hi⟩)) htrue
      have hlookup : SortedMap.lookup rollup.rollupId (committed hash) = some rollup.transactions :=
        IndexMap.get_eq_some (m := ⟨committed hash, (hcommits hash metadata hget).nodup⟩).mpr hentry
      rw [committedFor, if_pos hid, ← hself, hlookup]
      rfl
    · exact ⟨hdue, htransactions⟩

/-! ## What a commit binds -/

/-- A metadata item that passes the checks, for a commit at a height. -/
structure Accepted (height : ℕ) (signedHeader : SignedHeader) (metadata : SubmittedMetadata) : Prop where
  proved : SubmittedMetadata.tryFromUnchecked metadata = .ok metadata
  height : metadata.header.height = height
  matched : Matches signedHeader metadata

/-- The blocks that are reconstructed from accepted items have the data hash and the time of the commit's
header, and items that are accepted have the same contents. -/
structure HeaderBound (height : ℕ) (signedHeader : SignedHeader) : Prop where
  executed : ∀ (verifiedBlobs : VerifiedBlobs) (rollupId : RollupId) (blocks : List ReconstructedBlock),
    (∀ hash metadata, verifiedBlobs.headerBlobs.get hash = some metadata →
      Accepted height signedHeader metadata) →
    reconstructBlocksFromVerifiedBlobs verifiedBlobs rollupId = some blocks →
    ∀ block ∈ blocks, signedHeader.header.dataHash = some block.header.dataHash ∧
      block.header.time = signedHeader.header.time
  contents : ∀ metadata metadata' : SubmittedMetadata, Accepted height signedHeader metadata →
    Accepted height signedHeader metadata' → metadata.header = metadata'.header ∧
      metadata.rollupIds = metadata'.rollupIds ∧
      metadata.extendedCommitInfo = metadata'.extendedCommitInfo

/-- Any rollup ids, any root and any time are accepted under the block hash of a commit. -/
theorem accepted_assembled {signedHeader : SignedHeader} {blockHash : BlockHash}
    (hhash : signedHeader.commit.blockId.hash = some blockHash) (height time : ℕ)
    (rollupIds : List RollupId) (root : Bytes32) :
    Accepted height signedHeader
      (.assembled blockHash signedHeader.header.chainId height time rollupIds root) where
  proved := SubmittedMetadata.tryFromUnchecked_assembled _ _ _ _ _ _
  height := rfl
  matched := ⟨rfl, hhash⟩

/-- A map with one entry. -/
def singleBlob (celestiaHeight : ℕ) (metadata : SubmittedMetadata) (rollups : List SubmittedRollupData) :
    VerifiedBlobs :=
  { celestiaHeight := celestiaHeight
    headerBlobs := IndexMap.empty.insert metadata.blockHash metadata
    rollupBlobs := rollups }

omit ext in
theorem get_singleBlob {celestiaHeight : ℕ} {metadata metadata' : SubmittedMetadata}
    {rollups : List SubmittedRollupData} {hash : BlockHash} :
    (singleBlob celestiaHeight metadata rollups).headerBlobs.get hash = some metadata' ↔
      hash = metadata.blockHash ∧ metadata' = metadata := by
  unfold singleBlob
  dsimp only
  rw [IndexMap.get_insert]
  split_ifs with hhash
  · rw [Option.some.injEq, eq_comm]
    exact (and_iff_right hhash).symm
  · exact iff_of_false (fun h => by cases h) fun h => hhash h.1

/-- Under the block hash of a commit, a header with another time is executed. -/
theorem not_headerBound {signedHeader : SignedHeader} {blockHash : BlockHash}
    (hhash : signedHeader.commit.blockId.hash = some blockHash) (height : ℕ) :
    ¬HeaderBound height signedHeader := by
  intro hbound
  let time := if signedHeader.header.time = 0 then 1 else 0
  have haccepted := accepted_assembled hhash height time [] (List.Vector.replicate 32 0)
  obtain ⟨-, htime⟩ := hbound.executed (singleBlob 1 _ []) { inner := List.Vector.replicate 32 0 } _
    (fun hash metadata hget => (get_singleBlob.mp hget).2 ▸ haccepted) rfl
    (.ofMetadata 1 _ []) (mem_reconstructLeftOver.mpr
      ⟨_, _, get_singleBlob.mpr ⟨rfl, rfl⟩, List.not_mem_nil, rfl⟩)
  have htime : time = signedHeader.header.time := htime
  simp only [time] at htime
  split_ifs at htime with hzero
  · rw [hzero] at htime
    cases htime
  · exact hzero htime.symm

/-- The header that is executed is the commit's only where there is nothing to execute: for a commit
without a block hash. -/
theorem headerBound_iff (height : ℕ) (signedHeader : SignedHeader) :
    HeaderBound height signedHeader ↔ signedHeader.commit.blockId.hash = none := by
  constructor
  · intro hbound
    by_contra hsome
    obtain ⟨blockHash, hhash⟩ := Option.ne_none_iff_exists'.mp hsome
    exact not_headerBound hhash height hbound
  · intro hnone
    have hempty (metadata : SubmittedMetadata) : ¬Accepted height signedHeader metadata := by
      intro haccepted
      have hhash := haccepted.matched.blockHash
      rw [hnone] at hhash
      cases hhash
    refine ⟨?_, fun metadata _ h => absurd h (hempty metadata)⟩
    intro verifiedBlobs rollupId blocks haccepted hblocks block hblock
    have hkeyed : Keyed verifiedBlobs.headerBlobs :=
      fun hash metadata hget => absurd (haccepted hash metadata hget) (hempty metadata)
    rcases reconstructBlocks_spec hkeyed rollupId with ⟨-, blocks', hblocks', hspec⟩ | ⟨-, hpanic⟩
    · obtain rfl : blocks' = blocks := Option.some.inj (hblocks'.symm.trans hblocks)
      obtain ⟨hash, metadata, transactions, hget, -⟩ := (hspec.mem_blocks block).mp hblock
      exact absurd (haccepted hash metadata hget) (hempty metadata)
    · rw [hblocks] at hpanic
      cases hpanic

end

/-! ## A block of another rollup -/

section

open TestUtils
open scoped Sequencer.TestUtils

theorem not_headerBound_signedHeader : ¬HeaderBound 2 signedHeader := by
  exact not_headerBound rfl 2

/-- A rollup of the block. -/
def TestUtils.otherRollupId : RollupId := { inner := List.Vector.replicate 32 3 }

/-- The data of the block, with one rollup. -/
def TestUtils.otherDatas : RollupDatas := [(otherRollupId, [[1]])]

/-- The metadata of the block. -/
def TestUtils.otherMetadata : SubmittedMetadata :=
  .assembled (List.Vector.replicate 32 1) "test" 2 1 [otherRollupId]
    (Sequencer.rollupTransactionsRoot otherDatas)

/-- The data of the rollup, whose leaf is the root. -/
def TestUtils.otherRollupData : SubmittedRollupData :=
  { sequencerBlockHash := List.Vector.replicate 32 1
    rollupId := otherRollupId
    transactions := [[1]]
    proof := { auditPath := [], leafIndex := 0, treeSize := 1 } }

theorem otherRollupData_verifies :
    verifyRollupBlobAgainstSequencerBlob otherRollupData otherMetadata = some true := by
  decide +kernel

theorem commits_otherMetadata : Commits otherMetadata otherDatas :=
  ⟨rfl, by decide, by decide, by decide⟩

/-- The metadata and the data of the block. -/
def TestUtils.otherBlobs : VerifiedBlobs := singleBlob 1 otherMetadata [otherRollupData]

theorem keyed_otherBlobs : Keyed otherBlobs.headerBlobs := by
  intro hash metadata hget
  obtain ⟨rfl, rfl⟩ := get_singleBlob.mp hget
  rfl

theorem collisionFree_otherBlobs :
    CollisionFree (hashedByReconstruction otherBlobs fun _ => otherDatas) := by
  decide +kernel

/-- The block of the rollup itself is reconstructed. -/
theorem reconstructs_otherRollup :
    ReconstructsExactly otherBlobs otherRollupId fun _ => otherDatas := by
  refine (reconstructs_iff keyed_otherBlobs ?_ ?_ collisionFree_otherBlobs otherRollupId).mpr ?_
    otherBlobs.rollupBlobs (List.Perm.refl _)
  · intro hash metadata hget
    obtain ⟨rfl, rfl⟩ := get_singleBlob.mp hget
    exact commits_otherMetadata
  · intro rollup hmem
    obtain rfl := List.mem_singleton.mp hmem
    decide
  · intro hash metadata hget rollup hmem _ _
    obtain ⟨rfl, rfl⟩ := get_singleBlob.mp hget
    obtain rfl := List.mem_singleton.mp hmem
    exact ⟨otherRollupData_verifies, Or.inl ⟨rfl, List.mem_singleton_self _⟩⟩

/-- A rollup that is not in the block gets one with the transactions of the other. -/
theorem not_reconstructs_rollup :
    ¬∀ rollups : List SubmittedRollupData, rollups.Perm otherBlobs.rollupBlobs →
      ReconstructsExactly { otherBlobs with rollupBlobs := rollups }
        { inner := List.Vector.replicate 32 24 } fun _ => otherDatas := by
  intro h
  have htakes := (reconstructsExactly_iff keyed_otherBlobs _ _).mp (h _ (List.Perm.refl _)) _ _
    (get_singleBlob.mpr ⟨rfl, rfl⟩) otherRollupData
    (consumer_cons_of_taken rfl (by rw [otherRollupData_verifies]; decide))
  exact absurd htakes.2.2 (by decide)

end

end Astria.Conductor
