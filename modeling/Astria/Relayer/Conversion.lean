import Astria.Core.BlockConversions
import Mathlib.Data.Finset.Max

/-!
# Payloads of Celestia blobs

Collecting sequencer blocks into the next submission to Celestia
(`crates/astria-sequencer-relayer/src/relayer/write/conversion.rs`), and splitting a block for it
(`crates/astria-core/src/sequencerblock/v1/celestia.rs`, `crates/astria-core/src/celestia.rs`).

The encoding of messages, the compression and the construction of blobs are parameters.  The order in
which a hash map is iterated is an argument of every conversion.

Results:
* `Input.metadata_ofBlocks`, `Input.rollupData_ofBlocks`: what the input holds of the blocks added;
* `NextSubmission.tryAdd_spec`: adding a block succeeds or leaves the next submission unchanged;
* `NextSubmission.Accumulates.tryAdd`, `NextSubmission.Accumulates.take`: the payload is the
  conversion of the blocks added, and small enough;
* `NextSubmission.accumulates_calls`: so it is after all calls.
-/

namespace Astria.Relayer

open Astria.Core Astria.Lib
open Astria.Sequencer (BlockHash External)

/-! ## Splitting blocks -/

/-- `Namespace`, of version 0. -/
abbrev Namespace := List.Vector UInt8 10

/-- `namespace_v0_from_first_10_bytes`. -/
def namespaceV0FromFirst10Bytes (bytes : Bytes32) : Namespace := ⟨bytes.toList.take 10, by simp⟩

/-- `namespace_v0_from_rollup_id`. -/
def namespaceV0FromRollupId (rollupId : RollupId) : Namespace :=
  namespaceV0FromFirst10Bytes rollupId.inner

/-- `namespace_v0_from_sha256_of_bytes`. -/
def namespaceV0FromSha256OfBytes [ext : External] (bytes : Bytes) : Namespace :=
  namespaceV0FromFirst10Bytes (ext.sha256 bytes)

/-- `SubmittedMetadata`. -/
structure SubmittedMetadata where
  blockHash : BlockHash
  header : SequencerBlockHeader
  rollupIds : List RollupId
  rollupTransactionsProof : Merkle.Proof Bytes32
  rollupIdsProof : Merkle.Proof Bytes32
  upgradeChangeHashes : List Bytes32
  extendedCommitInfoWithProof : Option ExtendedCommitInfoWithProof

/-- `SubmittedRollupData`. -/
structure SubmittedRollupData where
  sequencerBlockHash : BlockHash
  rollupId : RollupId
  transactions : List Bytes
  proof : Merkle.Proof Bytes32

/-- The raw form of `SubmittedMetadata`. -/
structure RawSubmittedMetadata where
  blockHash : Bytes
  header : Option RawSequencerBlockHeader
  rollupIds : List Bytes
  rollupTransactionsProof : Option RawProof
  rollupIdsProof : Option RawProof
  upgradeChangeHashes : List Bytes
  extendedCommitInfoWithProof : Option RawExtendedCommitInfoWithProof
  deriving DecidableEq

/-- The raw form of `SubmittedRollupData`. -/
structure RawSubmittedRollupData where
  sequencerBlockHash : Bytes
  rollupId : Option Bytes
  transactions : List Bytes
  proof : Option RawProof
  deriving DecidableEq

/-- `SubmittedMetadata::into_raw`. -/
def SubmittedMetadata.intoRaw [TimeCodec] (metadata : SubmittedMetadata) : RawSubmittedMetadata :=
  { blockHash := metadata.blockHash.toList
    header := some metadata.header.intoRaw
    rollupIds := metadata.rollupIds.map fun id => id.inner.toList
    rollupTransactionsProof := some (intoRawProof metadata.rollupTransactionsProof)
    rollupIdsProof := some (intoRawProof metadata.rollupIdsProof)
    upgradeChangeHashes := metadata.upgradeChangeHashes.map List.Vector.toList
    extendedCommitInfoWithProof :=
      metadata.extendedCommitInfoWithProof.map ExtendedCommitInfoWithProof.intoRaw }

/-- `SubmittedRollupData::into_raw`. -/
def SubmittedRollupData.intoRaw (data : SubmittedRollupData) : RawSubmittedRollupData :=
  { sequencerBlockHash := data.sequencerBlockHash.toList
    rollupId := some data.rollupId.inner.toList
    transactions := data.transactions
    proof := some (intoRawProof data.proof) }

/-- `split_for_celestia`. -/
def splitForCelestia (block : SequencerBlock) : SubmittedMetadata × List SubmittedRollupData :=
  ({ blockHash := block.blockHash
     header := block.header
     rollupIds := block.rollupTransactions.keys
     rollupTransactionsProof := block.rollupTransactionsProof
     rollupIdsProof := block.rollupIdsProof
     upgradeChangeHashes := block.upgradeChangeHashes
     extendedCommitInfoWithProof := block.extendedCommitInfoWithProof },
    block.rollupTransactions.entries.map fun e =>
      { sequencerBlockHash := block.blockHash
        rollupId := e.1
        transactions := e.2.transactions
        proof := e.2.proof })

/-- `sequencer_namespace`; without a header it panics. -/
def sequencerNamespace [External] (metadata : RawSubmittedMetadata) : Option Namespace :=
  metadata.header.map fun header => namespaceV0FromSha256OfBytes (asBytes header.chainId)

/-! ## Payloads -/

/-- `MAX_PAYLOAD_SIZE_BYTES`. -/
def maxPayloadSizeBytes : ℕ := 1000000

/-- The encodings of `prost`, the compression of `brotli` and what `celestia_types::Blob::new` checks. -/
class PayloadFormats where
  encodeMetadataList : List RawSubmittedMetadata → Bytes
  encodeRollupDataList : List RawSubmittedRollupData → Bytes
  compressBytes : Bytes → Except Report Bytes
  checkBlob : Namespace → Bytes → Except Report Unit

/-- What is relied on: compressing into memory does not fail, and there is a blob of any compressed bytes
under any namespace of version 0. -/
structure PayloadFormats.Laws [formats : PayloadFormats] : Prop where
  compressBytes : ∀ data, ∃ compressed, formats.compressBytes data = .ok compressed
  checkBlob : ∀ namespaceId data, formats.checkBlob namespaceId data = .ok ()

/-- `Blob`, as far as it is used here. -/
structure Blob where
  namespaceId : Namespace
  data : Bytes
  deriving DecidableEq

/-- `Payload`. -/
structure Payload where
  compressedSize : ℕ
  uncompressedSize : ℕ
  blobs : List Blob
  deriving DecidableEq

/-- An order in which a hash map is iterated. -/
structure HashOrder where
  iterate : List (Namespace × List RawSubmittedRollupData) →
    List (Namespace × List RawSubmittedRollupData)
  perm : ∀ entries, (iterate entries).Perm entries

section

variable [formats : PayloadFormats]

/-- `Blob::new`. -/
def Blob.new (namespaceId : Namespace) (data : Bytes) : Except Report Blob := do
  formats.checkBlob namespaceId data
  .ok { namespaceId := namespaceId, data := data }

namespace Payload

/-- `Payload::new`. -/
def new : Payload := { compressedSize := 0, uncompressedSize := 0, blobs := [] }

def isEmpty (payload : Payload) : Bool := payload.blobs.isEmpty

/-- `try_add`, of an encoded message. -/
def tryAdd (namespaceId : Namespace) (encoded : Bytes) (payload : Payload) : Except Report Payload := do
  let compressed ←
    withContext "failed to compress protobuf encoded bytes" (formats.compressBytes encoded)
  let blob ← withContext "failed to create Celestia blob from compressed bytes"
    (Blob.new namespaceId compressed)
  .ok
    { uncompressedSize := saturatingAdd u64Max payload.uncompressedSize encoded.length
      compressedSize := saturatingAdd u64Max payload.compressedSize blob.data.length
      blobs := payload.blobs ++ [blob] }

/-- The context of an error of `try_add`. -/
def addToPayload (typeUrl : String) (payload : Except Report Payload) : Except Report Payload :=
  withContext s!"failed adding protobuf `{typeUrl}` to Celestia blob payload" payload

/-- Adds the rollup data of one namespace after the other. -/
def addRollupData : List (Namespace × List RawSubmittedRollupData) → Payload → Except Report Payload
  | [], payload => .ok payload
  | e :: entries, payload => do
    let payload ← addToPayload "astria.sequencerblock.v1.SubmittedRollupDataList"
      (payload.tryAdd e.1 (formats.encodeRollupDataList e.2))
    addRollupData entries payload

end Payload

/-- `IncludeRollup` (`config.rs`). -/
structure IncludeRollup where
  rollupIds : List RollupId

/-- `should_include`. -/
def IncludeRollup.shouldInclude (rollupFilter : IncludeRollup) (rollupId : RollupId) : Bool :=
  rollupFilter.rollupIds.isEmpty || rollupFilter.rollupIds.contains rollupId

/-- `Input`. -/
structure Input where
  metadata : List RawSubmittedMetadata
  rollupDataForNamespace : IndexMap Namespace (List RawSubmittedRollupData)
  sequencerHeights : Finset ℕ
  sequencerNamespace : Option Namespace

namespace Input

/-- `Input::new`. -/
def new : Input :=
  { metadata := []
    rollupDataForNamespace := IndexMap.empty
    sequencerHeights := ∅
    sequencerNamespace := none }

def numBlocks (input : Input) : ℕ := input.metadata.length

/-- `greatest_sequencer_height`. -/
def greatestSequencerHeight (input : Input) : Option ℕ := input.sequencerHeights.max

/-- The rollup data of a block, under the namespaces of their rollups; the filter leaves out some. -/
def addRollupData (rollupFilter : IncludeRollup) (rollupData : List SubmittedRollupData)
    (m : IndexMap Namespace (List RawSubmittedRollupData)) :
    IndexMap Namespace (List RawSubmittedRollupData) :=
  rollupData.foldl (fun m elem =>
    if rollupFilter.shouldInclude elem.rollupId then
      m.modify (namespaceV0FromRollupId elem.rollupId) [] (· ++ [elem.intoRaw])
    else m) m

/-- `extend_from_sequencer_block`. -/
def extendFromSequencerBlock [External] [TimeCodec] (rollupFilter : IncludeRollup) (input : Input)
    (block : SequencerBlock) : Input :=
  let (metadata, rollupData) := splitForCelestia block
  let metadata := metadata.intoRaw
  { metadata := input.metadata ++ [metadata]
    rollupDataForNamespace := addRollupData rollupFilter rollupData input.rollupDataForNamespace
    -- a height that is there already is only logged
    sequencerHeights := insert block.header.height input.sequencerHeights
    sequencerNamespace := input.sequencerNamespace.or (Relayer.sequencerNamespace metadata) }

/-- `try_into_payload`. -/
def tryIntoPayload (order : HashOrder) (input : Input) : Except Report Payload := do
  let _ ← okOr
    (checkedAdd u64Max input.metadata.length input.rollupDataForNamespace.entries.length)
    ["the payload size exceeded `u64::MAX` bytes"]
  let sequencerNamespace ← okOr input.sequencerNamespace
    ["there was no sequencer namespace present in the input so a payload of Celestia blobs " ++
      "could not be constructed"]
  let payload ← Payload.addToPayload "/astria.sequencerblock.v1.SubmittedMetadataList"
    (Payload.new.tryAdd sequencerNamespace (formats.encodeMetadataList input.metadata))
  payload.addRollupData (order.iterate input.rollupDataForNamespace.entries)

end Input

/-! ## The next submission -/

/-- `Submission`. -/
structure Submission where
  input : Input
  payload : Payload

/-- `NextSubmission`. -/
structure NextSubmission where
  rollupFilter : IncludeRollup
  input : Input
  payload : Payload

/-- `TryAddError`. -/
inductive TryAddError where
  | full (block : SequencerBlock)
  | intoPayload (source : Report)
  | oversizedBlock (sequencerHeight compressedSize : ℕ)

namespace NextSubmission

/-- `NextSubmission::new`. -/
def new (rollupFilter : IncludeRollup) : NextSubmission :=
  { rollupFilter := rollupFilter, input := Input.new, payload := Payload.new }

/-- `try_add`. -/
def tryAdd [External] [TimeCodec] (order : HashOrder) (block : SequencerBlock) (next : NextSubmission) :
    Except TryAddError Unit × NextSubmission :=
  let inputCandidate := next.input.extendFromSequencerBlock next.rollupFilter block
  match inputCandidate.tryIntoPayload order with
  | .error source => (.error (.intoPayload source), next)
  | .ok payloadCandidate =>
    if payloadCandidate.compressedSize ≤ maxPayloadSizeBytes then
      (.ok (), { next with input := inputCandidate, payload := payloadCandidate })
    else if inputCandidate.numBlocks = 1 ∧ maxPayloadSizeBytes < payloadCandidate.compressedSize then
      (.error (.oversizedBlock block.header.height payloadCandidate.compressedSize), next)
    else (.error (.full block), next)

/-- The poll of the future that `take` returns. -/
def take (next : NextSubmission) : Option Submission × NextSubmission :=
  (if next.payload.isEmpty then none else some { input := next.input, payload := next.payload },
    { next with input := Input.new, payload := Payload.new })

end NextSubmission

/-! ## The size of a payload -/

namespace Payload

/-- The size of a payload is the size of its blobs, as far as a machine integer goes. -/
def Sized (payload : Payload) : Prop :=
  payload.compressedSize = min (payload.blobs.map (·.data.length)).sum u64Max

theorem tryAdd_eq_ok {namespaceId : Namespace} {encoded : Bytes} {payload payload' : Payload}
    (h : payload.tryAdd namespaceId encoded = .ok payload') :
    ∃ data, formats.compressBytes encoded = .ok data ∧
      payload'.blobs = payload.blobs ++ [{ namespaceId := namespaceId, data := data }] ∧
        payload'.compressedSize = saturatingAdd u64Max payload.compressedSize data.length := by
  obtain ⟨compressed, hcompressed, h⟩ := Codec.bind_eq_ok.mp h
  obtain ⟨blob, hblob, h⟩ := Codec.bind_eq_ok.mp h
  obtain ⟨_, -, hblob⟩ := Codec.bind_eq_ok.mp (withContext_eq_ok.mp hblob)
  cases hblob
  cases h
  exact ⟨compressed, withContext_eq_ok.mp hcompressed, rfl, rfl⟩

theorem Sized.tryAdd {namespaceId : Namespace} {encoded : Bytes} {payload payload' : Payload}
    (hsized : payload.Sized) (h : payload.tryAdd namespaceId encoded = .ok payload') :
    payload'.Sized ∧ payload'.blobs ≠ [] := by
  obtain ⟨data, -, hblobs, hsize⟩ := tryAdd_eq_ok h
  unfold Sized saturatingAdd at *
  rw [hsize, hblobs, hsized, List.map_append, List.sum_append, List.map_singleton, List.sum_singleton]
  dsimp only
  refine ⟨by omega, ?_⟩
  exact List.append_ne_nil_of_right_ne_nil _ (List.cons_ne_nil _ _)

theorem Sized.addRollupData {entries : List (Namespace × List RawSubmittedRollupData)}
    {payload payload' : Payload} (hsized : payload.Sized) (hne : payload.blobs ≠ [])
    (h : payload.addRollupData entries = .ok payload') : payload'.Sized ∧ payload'.blobs ≠ [] := by
  induction entries generalizing payload with
  | nil =>
    cases h
    exact ⟨hsized, hne⟩
  | cons e entries ih =>
    obtain ⟨next, hnext, h⟩ := Codec.bind_eq_ok.mp h
    obtain ⟨hsized, hne⟩ := hsized.tryAdd (withContext_eq_ok.mp hnext)
    exact ih hsized hne h

/-- The rollup data of an entry, compressed in a blob of its namespace. -/
def Holds (blob : Blob) (e : Namespace × List RawSubmittedRollupData) : Prop :=
  blob.namespaceId = e.1 ∧ formats.compressBytes (formats.encodeRollupDataList e.2) = .ok blob.data

theorem addRollupData_blobs {entries : List (Namespace × List RawSubmittedRollupData)}
    {payload payload' : Payload} (h : payload.addRollupData entries = .ok payload') :
    ∃ blobs, payload'.blobs = payload.blobs ++ blobs ∧ List.Forall₂ Holds blobs entries := by
  induction entries generalizing payload with
  | nil =>
    cases h
    exact ⟨[], (List.append_nil _).symm, .nil⟩
  | cons e entries ih =>
    obtain ⟨next, hnext, h⟩ := Codec.bind_eq_ok.mp h
    obtain ⟨data, hdata, hblobs, -⟩ := tryAdd_eq_ok (withContext_eq_ok.mp hnext)
    obtain ⟨blobs, hblobs', hholds⟩ := ih h
    refine ⟨{ namespaceId := e.1, data := data } :: blobs, ?_, .cons ⟨rfl, hdata⟩ hholds⟩
    rw [hblobs', hblobs, List.append_assoc, List.singleton_append]

end Payload

/-- The blob of the metadata, and a blob for each namespace that has rollup data. -/
theorem Input.tryIntoPayload_blobs {order : HashOrder} {input : Input} {payload : Payload}
    (h : input.tryIntoPayload order = .ok payload) :
    ∃ namespaceId data blobs, input.sequencerNamespace = some namespaceId ∧
      formats.compressBytes (formats.encodeMetadataList input.metadata) = .ok data ∧
        payload.blobs = { namespaceId := namespaceId, data := data } :: blobs ∧
          List.Forall₂ Payload.Holds blobs (order.iterate input.rollupDataForNamespace.entries) := by
  obtain ⟨_, -, h⟩ := Codec.bind_eq_ok.mp h
  obtain ⟨namespaceId, hnamespace, h⟩ := Codec.bind_eq_ok.mp h
  obtain ⟨first, hfirst, h⟩ := Codec.bind_eq_ok.mp h
  obtain ⟨data, hdata, hblobs, -⟩ := Payload.tryAdd_eq_ok (withContext_eq_ok.mp hfirst)
  obtain ⟨blobs, hblobs', hholds⟩ := Payload.addRollupData_blobs h
  refine ⟨namespaceId, data, blobs, okOr_eq_ok.mp hnamespace, hdata, ?_, hholds⟩
  rw [hblobs', hblobs]
  rfl

theorem Input.tryIntoPayload_sized {order : HashOrder} {input : Input} {payload : Payload}
    (h : input.tryIntoPayload order = .ok payload) : payload.Sized ∧ payload.blobs ≠ [] := by
  obtain ⟨_, -, h⟩ := Codec.bind_eq_ok.mp h
  obtain ⟨_, -, h⟩ := Codec.bind_eq_ok.mp h
  obtain ⟨first, hfirst, h⟩ := Codec.bind_eq_ok.mp h
  have hnew : Payload.new.Sized := rfl
  obtain ⟨hsized, hne⟩ := hnew.tryAdd (withContext_eq_ok.mp hfirst)
  exact hsized.addRollupData hne h

/-! ## Conversions that succeed -/

theorem Payload.exists_tryAdd (hlaws : PayloadFormats.Laws) (namespaceId : Namespace) (encoded : Bytes)
    (payload : Payload) : ∃ payload', payload.tryAdd namespaceId encoded = .ok payload' := by
  obtain ⟨compressed, hcompressed⟩ := hlaws.compressBytes encoded
  have hblob : Blob.new namespaceId compressed =
      .ok { namespaceId := namespaceId, data := compressed } :=
    Codec.bind_eq_ok.mpr ⟨_, hlaws.checkBlob namespaceId compressed, rfl⟩
  unfold tryAdd
  rw [withContext_eq_ok.mpr hcompressed]
  dsimp only [bind, Except.bind]
  rw [hblob]
  exact ⟨_, rfl⟩

theorem Payload.exists_addRollupData (hlaws : PayloadFormats.Laws)
    (entries : List (Namespace × List RawSubmittedRollupData)) (payload : Payload) :
    ∃ payload', payload.addRollupData entries = .ok payload' := by
  induction entries generalizing payload with
  | nil => exact ⟨payload, rfl⟩
  | cons e entries ih =>
    obtain ⟨next, hnext⟩ := exists_tryAdd hlaws e.1 (formats.encodeRollupDataList e.2) payload
    obtain ⟨payload', hpayload'⟩ := ih next
    exact ⟨payload', Codec.bind_eq_ok.mpr ⟨next, withContext_eq_ok.mpr hnext, hpayload'⟩⟩

/-- An input with a namespace is converted, whatever its size, as long as its items can be counted. -/
theorem Input.exists_tryIntoPayload (hlaws : PayloadFormats.Laws) {input : Input}
    (hnamespace : input.sequencerNamespace.isSome)
    (hcount : input.metadata.length + input.rollupDataForNamespace.entries.length ≤ u64Max)
    (order : HashOrder) : ∃ payload, input.tryIntoPayload order = .ok payload := by
  obtain ⟨namespaceId, hnamespace⟩ := Option.isSome_iff_exists.mp hnamespace
  obtain ⟨first, hfirst⟩ :=
    Payload.exists_tryAdd hlaws namespaceId (formats.encodeMetadataList input.metadata) Payload.new
  obtain ⟨payload, hpayload⟩ :=
    Payload.exists_addRollupData hlaws (order.iterate input.rollupDataForNamespace.entries) first
  refine ⟨payload, Codec.bind_eq_ok.mpr ⟨_, okOr_eq_ok.mpr (checkedAdd_eq_some.mpr ⟨rfl, hcount⟩), ?_⟩⟩
  refine Codec.bind_eq_ok.mpr ⟨namespaceId, okOr_eq_ok.mpr hnamespace, ?_⟩
  exact Codec.bind_eq_ok.mpr ⟨first, withContext_eq_ok.mpr hfirst, hpayload⟩

end

/-! ## The input of some blocks -/

section

variable {rollupFilter : IncludeRollup}

/-- The rollup data of a block that belongs under a namespace. -/
def rollupDataOf (rollupFilter : IncludeRollup) (namespaceId : Namespace)
    (data : List SubmittedRollupData) : List RawSubmittedRollupData :=
  (data.filter fun elem => rollupFilter.shouldInclude elem.rollupId ∧
    namespaceV0FromRollupId elem.rollupId = namespaceId).map SubmittedRollupData.intoRaw

theorem Input.get_addRollupData (namespaceId : Namespace) (data : List SubmittedRollupData)
    (m : IndexMap Namespace (List RawSubmittedRollupData)) :
    ((Input.addRollupData rollupFilter data m).get namespaceId).getD [] =
      (m.get namespaceId).getD [] ++ rollupDataOf rollupFilter namespaceId data := by
  induction data generalizing m with
  | nil => exact (List.append_nil _).symm
  | cons elem data ih =>
    rw [addRollupData, List.foldl_cons]
    refine (ih _).trans ?_
    unfold rollupDataOf
    rw [List.filter_cons]
    by_cases hinclude : rollupFilter.shouldInclude elem.rollupId
    · rw [if_pos hinclude, IndexMap.get_modify]
      by_cases hname : namespaceV0FromRollupId elem.rollupId = namespaceId
      · rw [if_pos hname.symm, if_pos (decide_eq_true ⟨hinclude, hname⟩), List.map_cons, hname,
          Option.getD_some, List.append_assoc]
        rfl
      · rw [if_neg (Ne.symm hname), if_neg (by simp [hname])]
    · rw [if_neg hinclude, if_neg (by simp [hinclude])]

variable [ext : External] [times : TimeCodec]

/-- The input that blocks are added to, one after the other. -/
def Input.ofBlocks (rollupFilter : IncludeRollup) (blocks : List SequencerBlock) : Input :=
  blocks.foldl (Input.extendFromSequencerBlock rollupFilter) Input.new

theorem Input.ofBlocks_snoc (blocks : List SequencerBlock) (block : SequencerBlock) :
    Input.ofBlocks rollupFilter (blocks ++ [block]) =
      (Input.ofBlocks rollupFilter blocks).extendFromSequencerBlock rollupFilter block :=
  List.foldl_append

/-- One metadata for each block, in their order. -/
theorem Input.metadata_ofBlocks (blocks : List SequencerBlock) :
    (Input.ofBlocks rollupFilter blocks).metadata =
      blocks.map fun block => (splitForCelestia block).1.intoRaw := by
  induction blocks using List.reverseRecOn with
  | nil => rfl
  | append_singleton blocks block ih =>
    rw [ofBlocks_snoc, List.map_append, ← ih]
    rfl

theorem Input.numBlocks_ofBlocks (blocks : List SequencerBlock) :
    (Input.ofBlocks rollupFilter blocks).numBlocks = blocks.length := by
  rw [numBlocks, metadata_ofBlocks, List.length_map]

theorem Input.numBlocks_extendFromSequencerBlock (input : Input) (rollupFilter : IncludeRollup)
    (block : SequencerBlock) :
    (input.extendFromSequencerBlock rollupFilter block).numBlocks = input.numBlocks + 1 := by
  unfold Input.extendFromSequencerBlock Input.numBlocks
  exact List.length_append

theorem Input.mem_sequencerHeights_ofBlocks {blocks : List SequencerBlock} {height : ℕ} :
    height ∈ (Input.ofBlocks rollupFilter blocks).sequencerHeights ↔
      ∃ block ∈ blocks, block.header.height = height := by
  induction blocks using List.reverseRecOn with
  | nil => simp [ofBlocks, new]
  | append_singleton blocks block ih =>
    rw [ofBlocks_snoc, extendFromSequencerBlock, Finset.mem_insert, ih]
    simp only [List.mem_append, List.mem_singleton]
    constructor
    · rintro (rfl | ⟨b, hb, rfl⟩)
      · exact ⟨block, Or.inr rfl, rfl⟩
      · exact ⟨b, Or.inl hb, rfl⟩
    · rintro ⟨b, hb | rfl, rfl⟩
      · exact Or.inr ⟨b, hb, rfl⟩
      · exact Or.inl rfl

/-- The greatest height is that of one of the blocks. -/
theorem Input.greatestSequencerHeight_ofBlocks {blocks : List SequencerBlock} (h : blocks ≠ []) :
    ∃ block ∈ blocks, (Input.ofBlocks rollupFilter blocks).greatestSequencerHeight =
      some block.header.height := by
  obtain ⟨first, hfirst⟩ := List.exists_mem_of_ne_nil _ h
  have hmem : first.header.height ∈ (Input.ofBlocks rollupFilter blocks).sequencerHeights :=
    mem_sequencerHeights_ofBlocks.mpr ⟨first, hfirst, rfl⟩
  obtain ⟨height, hmax⟩ := Finset.max_of_mem hmem
  obtain ⟨block, hblock, rfl⟩ := mem_sequencerHeights_ofBlocks.mp (Finset.mem_of_max hmax)
  exact ⟨block, hblock, hmax⟩

/-- Under each namespace, the rollup data of all blocks in their order. -/
theorem Input.rollupData_ofBlocks (namespaceId : Namespace) (blocks : List SequencerBlock) :
    ((Input.ofBlocks rollupFilter blocks).rollupDataForNamespace.get namespaceId).getD [] =
      blocks.flatMap fun block => rollupDataOf rollupFilter namespaceId (splitForCelestia block).2 := by
  induction blocks using List.reverseRecOn with
  | nil => rfl
  | append_singleton blocks block ih =>
    rw [ofBlocks_snoc, List.flatMap_append, ← ih, List.flatMap_singleton]
    exact get_addRollupData ..

/-- No more blocks and rollups than a `usize` counts. -/
def Countable (blocks : List SequencerBlock) : Prop :=
  (blocks.map fun block => block.rollupTransactions.entries.length + 1).sum ≤ u64Max

omit ext times in
theorem Countable.sublist {blocks blocks' : List SequencerBlock} (h : Countable blocks)
    (hsub : blocks'.Sublist blocks) : Countable blocks' :=
  (List.Sublist.sum_le_sum (hsub.map _) fun _ _ => Nat.zero_le _).trans h

omit ext times in
theorem Input.length_addRollupData_le (data : List SubmittedRollupData)
    (m : IndexMap Namespace (List RawSubmittedRollupData)) :
    (addRollupData rollupFilter data m).entries.length ≤ m.entries.length + data.length := by
  induction data generalizing m with
  | nil => exact Nat.le_refl _
  | cons elem data ih =>
    refine (ih _).trans ?_
    rw [List.length_cons]
    dsimp only
    split_ifs
    · have hadded := IndexMap.length_updateEntries_le (namespaceV0FromRollupId elem.rollupId)
        (fun list => list.getD [] ++ [elem.intoRaw]) m.entries
      unfold IndexMap.modify
      dsimp only
      omega
    · omega

/-- The items of an input are those of its blocks, or fewer. -/
theorem Input.length_ofBlocks_le (blocks : List SequencerBlock) :
    (Input.ofBlocks rollupFilter blocks).metadata.length +
        (Input.ofBlocks rollupFilter blocks).rollupDataForNamespace.entries.length ≤
      (blocks.map fun block => block.rollupTransactions.entries.length + 1).sum := by
  induction blocks using List.reverseRecOn with
  | nil => exact Nat.le_refl 0
  | append_singleton blocks block ih =>
    have hadded : (addRollupData rollupFilter (splitForCelestia block).2
        (Input.ofBlocks rollupFilter blocks).rollupDataForNamespace).entries.length ≤ _ :=
      length_addRollupData_le ..
    have hsplit : (splitForCelestia block).2.length = block.rollupTransactions.entries.length :=
      List.length_map _
    rw [ofBlocks_snoc, List.map_append, List.sum_append, List.map_singleton, List.sum_singleton]
    unfold extendFromSequencerBlock
    dsimp only
    rw [List.length_append, List.length_singleton]
    omega

/-- The first block of an input sets the namespace. -/
theorem Input.isSome_sequencerNamespace_ofBlocks (blocks : List SequencerBlock) (block : SequencerBlock) :
    (Input.ofBlocks rollupFilter (blocks ++ [block])).sequencerNamespace.isSome := by
  have hblock : (Relayer.sequencerNamespace (splitForCelestia block).1.intoRaw).isSome := rfl
  rw [ofBlocks_snoc, extendFromSequencerBlock]
  dsimp only
  rw [Option.isSome_or, hblock, Bool.or_true]

/-- The sequencer's namespace is that of the chain id of the blocks. -/
theorem Input.sequencerNamespace_ofBlocks {blocks : List SequencerBlock} (hne : blocks ≠ [])
    {chainId : String} (h : ∀ block ∈ blocks, block.header.chainId = chainId) :
    (Input.ofBlocks rollupFilter blocks).sequencerNamespace =
      some (namespaceV0FromSha256OfBytes (asBytes chainId)) := by
  have hall : (Input.ofBlocks rollupFilter blocks).sequencerNamespace =
      if blocks = [] then none else some (namespaceV0FromSha256OfBytes (asBytes chainId)) := by
    clear hne
    induction blocks using List.reverseRecOn with
    | nil => rfl
    | append_singleton blocks block ih =>
      have hchain := h block (List.mem_append_right _ (List.mem_singleton_self _))
      have hlast : Relayer.sequencerNamespace (splitForCelestia block).1.intoRaw =
          some (namespaceV0FromSha256OfBytes (asBytes chainId)) := by
        rw [← hchain]
        rfl
      rw [ofBlocks_snoc, extendFromSequencerBlock]
      dsimp only
      rw [hlast, ih fun b hb => h b (List.mem_append_left _ hb),
        if_neg (List.append_ne_nil_of_right_ne_nil _ (List.cons_ne_nil _ _))]
      split_ifs
      · rfl
      · rfl
  rw [hall, if_neg hne]

/-! ## The blocks of a next submission -/

namespace NextSubmission

variable [formats : PayloadFormats]

/-- The next submission is that of some blocks: its input is theirs, and its payload the conversion of
the input, or empty if there are no blocks.  The payload is small enough. -/
structure Accumulates (next : NextSubmission) (blocks : List SequencerBlock) : Prop where
  input : next.input = Input.ofBlocks next.rollupFilter blocks
  payload : blocks = [] ∧ next.payload = Payload.new ∨
    blocks ≠ [] ∧ ∃ order, next.input.tryIntoPayload order = .ok next.payload
  size : (next.payload.blobs.map (·.data.length)).sum ≤ maxPayloadSizeBytes
  empty : next.payload.isEmpty ↔ next.input.metadata = []

theorem accumulates_new (rollupFilter : IncludeRollup) : (new rollupFilter).Accumulates [] where
  input := rfl
  payload := Or.inl ⟨rfl, rfl⟩
  size := Nat.zero_le _
  empty := iff_of_true rfl rfl

/-- The payload is empty exactly if no block was added. -/
theorem Accumulates.isEmpty_iff {next : NextSubmission} {blocks : List SequencerBlock}
    (h : next.Accumulates blocks) : next.payload.isEmpty ↔ blocks = [] := by
  rw [h.empty, h.input, Input.metadata_ofBlocks, List.map_eq_nil_iff]

/-- How adding a block ends, and the state that it leaves. -/
inductive TryAdds (next : NextSubmission) (order : HashOrder) (block : SequencerBlock) :
    Except TryAddError Unit → NextSubmission → Prop
  | added {payload : Payload} :
    (next.input.extendFromSequencerBlock next.rollupFilter block).tryIntoPayload order = .ok payload →
    payload.compressedSize ≤ maxPayloadSizeBytes →
    TryAdds next order block (.ok ())
      { next with
        input := next.input.extendFromSequencerBlock next.rollupFilter block, payload := payload }
  | full {payload : Payload} :
    (next.input.extendFromSequencerBlock next.rollupFilter block).tryIntoPayload order = .ok payload →
    maxPayloadSizeBytes < payload.compressedSize → next.input.numBlocks ≠ 0 →
    TryAdds next order block (.error (.full block)) next
  | oversizedBlock {payload : Payload} :
    (next.input.extendFromSequencerBlock next.rollupFilter block).tryIntoPayload order = .ok payload →
    maxPayloadSizeBytes < payload.compressedSize → next.input.numBlocks = 0 →
    TryAdds next order block
      (.error (.oversizedBlock block.header.height payload.compressedSize)) next
  | intoPayload {source : Report} :
    (next.input.extendFromSequencerBlock next.rollupFilter block).tryIntoPayload order =
      .error source →
    TryAdds next order block (.error (.intoPayload source)) next

theorem tryAdd_spec (next : NextSubmission) (order : HashOrder) (block : SequencerBlock) :
    TryAdds next order block (next.tryAdd order block).1 (next.tryAdd order block).2 := by
  unfold tryAdd
  dsimp only
  cases hpayload :
    (next.input.extendFromSequencerBlock next.rollupFilter block).tryIntoPayload order with
  | error source => exact .intoPayload hpayload
  | ok payload =>
    dsimp only
    rw [Input.numBlocks_extendFromSequencerBlock]
    split_ifs with hsize hone
    · exact .added hpayload hsize
    · exact .oversizedBlock hpayload hone.2 (by omega)
    · exact .full hpayload (by omega) (by omega)

/-- An added block is accumulated. -/
theorem Accumulates.added {next : NextSubmission} {blocks : List SequencerBlock}
    (h : next.Accumulates blocks) {order : HashOrder} {block : SequencerBlock} {payload : Payload}
    (hpayload : (next.input.extendFromSequencerBlock next.rollupFilter block).tryIntoPayload order =
      .ok payload) (hsize : payload.compressedSize ≤ maxPayloadSizeBytes) :
    ({ next with
        input := next.input.extendFromSequencerBlock next.rollupFilter block
        payload := payload } : NextSubmission).Accumulates (blocks ++ [block]) := by
  obtain ⟨hsized, hblobs⟩ := Input.tryIntoPayload_sized hpayload
  have hinput : next.input.extendFromSequencerBlock next.rollupFilter block =
      Input.ofBlocks next.rollupFilter (blocks ++ [block]) := by
    rw [Input.ofBlocks_snoc, ← h.input]
  have hne : blocks ++ [block] ≠ [] := List.append_ne_nil_of_right_ne_nil _ (List.cons_ne_nil _ _)
  constructor
  · exact hinput
  · exact Or.inr ⟨hne, order, hpayload⟩
  · have hmax : maxPayloadSizeBytes < u64Max := by decide
    unfold Payload.Sized at hsized
    dsimp only
    omega
  · dsimp only
    rw [hinput, Input.metadata_ofBlocks, List.map_eq_nil_iff]
    exact iff_of_false (fun hempty => hblobs (List.isEmpty_iff.mp hempty)) hne

/-- Adding a block either accumulates it, or leaves the next submission as it was. -/
theorem Accumulates.tryAdd {next : NextSubmission} {blocks : List SequencerBlock}
    (h : next.Accumulates blocks) (order : HashOrder) (block : SequencerBlock) :
    (next.tryAdd order block).1 = .ok () ∧
        (next.tryAdd order block).2.Accumulates (blocks ++ [block]) ∨
      ∃ e, (next.tryAdd order block).1 = .error e ∧ (next.tryAdd order block).2 = next := by
  have hspec := next.tryAdd_spec order block
  generalize (next.tryAdd order block).1 = result, (next.tryAdd order block).2 = next' at hspec ⊢
  cases hspec with
  | added hpayload hsize => exact Or.inl ⟨rfl, h.added hpayload hsize⟩
  | full => exact Or.inr ⟨_, rfl, rfl⟩
  | oversizedBlock => exact Or.inr ⟨_, rfl, rfl⟩
  | intoPayload => exact Or.inr ⟨_, rfl, rfl⟩

/-- A submission that carries some blocks: its payload is the conversion of their input. -/
structure Carries (rollupFilter : IncludeRollup) (submission : Submission)
    (blocks : List SequencerBlock) : Prop where
  ne_nil : blocks ≠ []
  input : submission.input = Input.ofBlocks rollupFilter blocks
  payload : ∃ order, submission.input.tryIntoPayload order = .ok submission.payload
  size : (submission.payload.blobs.map (·.data.length)).sum ≤ maxPayloadSizeBytes

/-- Taking gives a submission of all the blocks that were added, if there are any, and leaves none. -/
theorem Accumulates.take {next : NextSubmission} {blocks : List SequencerBlock}
    (h : next.Accumulates blocks) :
    next.take.2 = new next.rollupFilter ∧
      (blocks = [] ∧ next.take.1 = none ∨
        ∃ submission, next.take.1 = some submission ∧ Carries next.rollupFilter submission blocks) := by
  refine ⟨rfl, ?_⟩
  unfold NextSubmission.take
  rcases h.payload with ⟨hnil, -⟩ | ⟨hne, horder⟩
  · exact Or.inl ⟨hnil, if_pos (h.isEmpty_iff.mpr hnil)⟩
  · refine Or.inr ⟨_, if_neg fun hempty => hne (h.isEmpty_iff.mp hempty), ?_⟩
    exact { ne_nil := hne, input := h.input, payload := horder, size := h.size }

/-! ### All calls -/

/-- The calls of a next submission. -/
inductive Call where
  | tryAdd (order : HashOrder) (block : SequencerBlock)
  | take

/-- A next submission with the blocks that were added to it since it was last taken. -/
def Call.run : NextSubmission × List SequencerBlock → Call → NextSubmission × List SequencerBlock
  | (next, blocks), .tryAdd order block =>
    let (result, next) := next.tryAdd order block
    match result with
    | .ok () => (next, blocks ++ [block])
    | .error _ => (next, blocks)
  | (next, _), .take => (next.take.2, [])

theorem Accumulates.call {next : NextSubmission} {blocks : List SequencerBlock}
    (h : next.Accumulates blocks) (call : Call) :
    (call.run (next, blocks)).1.Accumulates (call.run (next, blocks)).2 := by
  cases call with
  | take => exact accumulates_new next.rollupFilter
  | tryAdd order block =>
    unfold Call.run
    rcases h.tryAdd order block with ⟨hok, haccumulates⟩ | ⟨e, he, hnext⟩
    · dsimp only
      rw [hok]
      exact haccumulates
    · dsimp only
      rw [he, hnext]
      exact h

theorem rollupFilter_calls (rollupFilter : IncludeRollup) (calls : List Call) :
    (calls.foldl (fun s call => call.run s) (new rollupFilter, [])).1.rollupFilter = rollupFilter := by
  induction calls using List.reverseRecOn with
  | nil => rfl
  | append_singleton calls call ih =>
    rw [List.foldl_append]
    generalize calls.foldl (fun s call => call.run s) (new rollupFilter, []) = s at ih ⊢
    refine Eq.trans ?_ ih
    cases call with
    | take => rfl
    | tryAdd order block =>
      have hspec := s.1.tryAdd_spec order block
      show (Call.run s (.tryAdd order block)).1.rollupFilter = s.1.rollupFilter
      unfold Call.run
      dsimp only
      generalize (s.1.tryAdd order block).1 = result, (s.1.tryAdd order block).2 = next at hspec ⊢
      cases hspec with
      | added => rfl
      | full => rfl
      | oversizedBlock => rfl
      | intoPayload => rfl

/-- After any calls, the next submission is that of the blocks added since it was last taken. -/
theorem accumulates_calls (rollupFilter : IncludeRollup) (calls : List Call) :
    (calls.foldl (fun s call => call.run s) (new rollupFilter, [])).1.Accumulates
      (calls.foldl (fun s call => call.run s) (new rollupFilter, [])).2 := by
  induction calls using List.reverseRecOn with
  | nil => exact accumulates_new rollupFilter
  | append_singleton calls call ih =>
    rw [List.foldl_append]
    exact ih.call call

end NextSubmission

end

end Astria.Relayer
