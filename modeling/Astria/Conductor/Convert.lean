import Astria.Conductor.Verify

/-!
# Decoded blobs

Conductor decodes the blobs of two namespaces into metadata and rollup data (`celestia/convert.rs`); the
decompression and the protobuf messages are parameters.

Results:
* `tryForEach_map`: a list is read if each of its items is;
* `decodeRawBlobs_eq`: the items that are decoded of a list of blobs.
-/

namespace Astria.Conductor

open Astria.Core Astria.Lib
open Astria.Relayer (Blob HashOrder Input Namespace Payload PayloadFormats RawSubmittedMetadata
  RawSubmittedRollupData SubmittedMetadata SubmittedRollupData)
open Astria.Sequencer (BlockCodec External)

/-- `decompress_bytes` and the messages of the two lists. -/
class BlobFormats where
  decompressBytes : Bytes → Option Bytes
  decodeMetadataList : Bytes → Option (List RawSubmittedMetadata)
  decodeRollupDataList : Bytes → Option (List RawSubmittedRollupData)

/-- `RawBlobs`. -/
structure RawBlobs where
  celestiaHeight : ℕ
  headerBlobs : List Blob
  rollupBlobs : List Blob

/-- `try_for_each` of a conversion over a list, with the items that were converted. -/
def tryForEach {α β : Type} (convert : α → Except Report β) : List α → Except Report (List β)
  | [] => .ok []
  | a :: rest => do
    let b ← convert a
    let items ← tryForEach convert rest
    .ok (b :: items)

theorem tryForEach_map {α β : Type} {convert : α → Except Report β} {f : β → α} {l : List β}
    (h : ∀ b ∈ l, convert (f b) = .ok b) : tryForEach convert (l.map f) = .ok l := by
  induction l with
  | nil => rfl
  | cons b l ih =>
    obtain ⟨hb, hl⟩ := List.forall_mem_cons.mp h
    rw [List.map_cons, tryForEach]
    exact Codec.bind_eq_ok.mpr ⟨b, hb, Codec.bind_eq_ok.mpr ⟨l, ih hl, rfl⟩⟩

theorem exists_of_tryForEach {α β : Type} {convert : α → Except Report β} {l : List α} {items : List β}
    (h : tryForEach convert l = .ok items) : ∀ b ∈ items, ∃ a ∈ l, convert a = .ok b := by
  induction l generalizing items with
  | nil =>
    cases h
    intro b hb
    cases hb
  | cons a l ih =>
    obtain ⟨b, hb, h⟩ := Codec.bind_eq_ok.mp h
    obtain ⟨rest, hrest, h⟩ := Codec.bind_eq_ok.mp h
    cases h
    refine List.forall_mem_cons.mpr ⟨⟨a, List.mem_cons_self, hb⟩, ?_⟩
    intro b' hb'
    obtain ⟨a', ha', heq⟩ := ih hrest b' hb'
    exact ⟨a', List.mem_cons_of_mem _ ha', heq⟩

/-- The items of a list that is well formed; of another one, none. -/
def wellFormedItems {α β : Type} (convert : α → Except Report β) (l : List α) : List β :=
  match tryForEach convert l with
  | .ok items => items
  | .error _ => []

theorem wellFormedItems_map {α β : Type} {convert : α → Except Report β} {f : β → α} {l : List β}
    (h : ∀ b ∈ l, convert (f b) = .ok b) : wellFormedItems convert (l.map f) = l := by
  unfold wellFormedItems
  rw [tryForEach_map h]

/-- No item is read from a list if each is refused. -/
theorem wellFormedItems_eq_nil {α β : Type} {convert : α → Except Report β} {l : List α}
    (h : ∀ a ∈ l, ∀ b, convert a ≠ .ok b) : wellFormedItems convert l = [] := by
  unfold wellFormedItems
  cases hitems : tryForEach convert l with
  | error e => rfl
  | ok items =>
    refine List.eq_nil_iff_forall_not_mem.mpr ?_
    intro b hb
    obtain ⟨a, ha, heq⟩ := exists_of_tryForEach hitems b hb
    exact h a ha b heq

section

variable [formats : BlobFormats]

/-- `convert_blob_to_header_list`. -/
def convertBlobToHeaderList (blob : Blob) : Option (List RawSubmittedMetadata) :=
  (formats.decompressBytes blob.data).bind formats.decodeMetadataList

/-- `convert_blob_to_rollup_data_list`. -/
def convertBlobToRollupDataList (blob : Blob) : Option (List RawSubmittedRollupData) :=
  (formats.decompressBytes blob.data).bind formats.decodeRollupDataList

variable [ext : External] [times : TimeCodec] [codec : BlockCodec]

namespace ConvertedBlobs

omit formats ext times codec in
/-- `ConvertedBlobs::new`. -/
def new (celestiaHeight : ℕ) : ConvertedBlobs :=
  { celestiaHeight := celestiaHeight, metadata := [], rollupData := [] }

omit formats in
/-- `extend_from_header_list_if_well_formed`: if one item is not well formed, all are dropped. -/
def extendFromHeaderListIfWellFormed (list : List RawSubmittedMetadata) (blobs : ConvertedBlobs) :
    ConvertedBlobs :=
  match tryForEach SubmittedMetadata.tryFromRaw list with
  | .error _ => blobs
  | .ok items => { blobs with metadata := blobs.metadata ++ items }

omit formats ext times codec in
/-- `extend_from_rollup_data_list_if_well_formed`. -/
def extendFromRollupDataListIfWellFormed (list : List RawSubmittedRollupData) (blobs : ConvertedBlobs) :
    ConvertedBlobs :=
  match tryForEach SubmittedRollupData.tryFromRaw list with
  | .error _ => blobs
  | .ok items => { blobs with rollupData := blobs.rollupData ++ items }

/-- The first loop of `decode_raw_blobs`. -/
def addHeaderBlob (sequencerNamespace : Namespace) (blobs : ConvertedBlobs) (blob : Blob) :
    ConvertedBlobs :=
  if blob.namespaceId = sequencerNamespace then
    match convertBlobToHeaderList blob with
    | none => blobs
    | some list => blobs.extendFromHeaderListIfWellFormed list
  else blobs

omit ext times codec in
/-- The second loop of `decode_raw_blobs`. -/
def addRollupBlob (rollupNamespace : Namespace) (blobs : ConvertedBlobs) (blob : Blob) :
    ConvertedBlobs :=
  if blob.namespaceId = rollupNamespace then
    match convertBlobToRollupDataList blob with
    | none => blobs
    | some list => blobs.extendFromRollupDataListIfWellFormed list
  else blobs

end ConvertedBlobs

/-- `decode_raw_blobs`. -/
def decodeRawBlobs (rawBlobs : RawBlobs) (rollupNamespace sequencerNamespace : Namespace) :
    ConvertedBlobs :=
  rawBlobs.rollupBlobs.foldl (ConvertedBlobs.addRollupBlob rollupNamespace)
    (rawBlobs.headerBlobs.foldl (ConvertedBlobs.addHeaderBlob sequencerNamespace)
      (.new rawBlobs.celestiaHeight))

/-! ## What is decoded -/

/-- What a header blob adds. -/
def headersOf (sequencerNamespace : Namespace) (blob : Blob) : List SubmittedMetadata :=
  if blob.namespaceId = sequencerNamespace then
    (convertBlobToHeaderList blob).elim [] (wellFormedItems SubmittedMetadata.tryFromRaw)
  else []

omit ext times codec in
/-- What a rollup blob adds. -/
def rollupDataOf (rollupNamespace : Namespace) (blob : Blob) : List SubmittedRollupData :=
  if blob.namespaceId = rollupNamespace then
    (convertBlobToRollupDataList blob).elim [] (wellFormedItems SubmittedRollupData.tryFromRaw)
  else []

theorem addHeaderBlob_eq (sequencerNamespace : Namespace) (blobs : ConvertedBlobs) (blob : Blob) :
    blobs.addHeaderBlob sequencerNamespace blob =
      { blobs with metadata := blobs.metadata ++ headersOf sequencerNamespace blob } := by
  have hnone : blobs = { blobs with metadata := blobs.metadata ++ [] } := by rw [List.append_nil]
  unfold headersOf ConvertedBlobs.addHeaderBlob
  split_ifs
  · cases convertBlobToHeaderList blob with
    | none => exact hnone
    | some list =>
      rw [Option.elim_some]
      dsimp only
      unfold ConvertedBlobs.extendFromHeaderListIfWellFormed wellFormedItems
      cases tryForEach SubmittedMetadata.tryFromRaw list with
      | error e => exact hnone
      | ok items => rfl
  · exact hnone

omit ext times codec in
theorem addRollupBlob_eq (rollupNamespace : Namespace) (blobs : ConvertedBlobs) (blob : Blob) :
    blobs.addRollupBlob rollupNamespace blob =
      { blobs with rollupData := blobs.rollupData ++ rollupDataOf rollupNamespace blob } := by
  have hnone : blobs = { blobs with rollupData := blobs.rollupData ++ [] } := by rw [List.append_nil]
  unfold rollupDataOf ConvertedBlobs.addRollupBlob
  split_ifs
  · cases convertBlobToRollupDataList blob with
    | none => exact hnone
    | some list =>
      rw [Option.elim_some]
      dsimp only
      unfold ConvertedBlobs.extendFromRollupDataListIfWellFormed wellFormedItems
      cases tryForEach SubmittedRollupData.tryFromRaw list with
      | error e => exact hnone
      | ok items => rfl
  · exact hnone

/-- The items of all blobs, in their order. -/
theorem decodeRawBlobs_eq (rawBlobs : RawBlobs) (rollupNamespace sequencerNamespace : Namespace) :
    decodeRawBlobs rawBlobs rollupNamespace sequencerNamespace =
      { celestiaHeight := rawBlobs.celestiaHeight
        metadata := rawBlobs.headerBlobs.flatMap (headersOf sequencerNamespace)
        rollupData := rawBlobs.rollupBlobs.flatMap (rollupDataOf rollupNamespace) } := by
  have hheaders (l : List Blob) (blobs : ConvertedBlobs) :
      l.foldl (ConvertedBlobs.addHeaderBlob sequencerNamespace) blobs =
        { blobs with metadata := blobs.metadata ++ l.flatMap (headersOf sequencerNamespace) } := by
    induction l generalizing blobs with
    | nil => rw [List.foldl_nil, List.flatMap_nil, List.append_nil]
    | cons blob l ih => rw [List.foldl_cons, ih, addHeaderBlob_eq, List.flatMap_cons, List.append_assoc]
  have hrollups (l : List Blob) (blobs : ConvertedBlobs) :
      l.foldl (ConvertedBlobs.addRollupBlob rollupNamespace) blobs =
        { blobs with rollupData := blobs.rollupData ++ l.flatMap (rollupDataOf rollupNamespace) } := by
    induction l generalizing blobs with
    | nil => rw [List.foldl_nil, List.flatMap_nil, List.append_nil]
    | cons blob l ih => rw [List.foldl_cons, ih, addRollupBlob_eq, List.flatMap_cons, List.append_assoc]
  unfold decodeRawBlobs
  rw [hheaders, hrollups]
  rfl

/-! ## A payload read back -/

omit ext times codec formats in
/-- `fetch_new_blobs`, of blobs at a height: those of each namespace. -/
def fetchNewBlobs (celestiaHeight : ℕ) (blobs : List Blob)
    (rollupNamespace sequencerNamespace : Namespace) : RawBlobs :=
  { celestiaHeight := celestiaHeight
    headerBlobs := blobs.filter (·.namespaceId = sequencerNamespace)
    rollupBlobs := blobs.filter (·.namespaceId = rollupNamespace) }

omit ext times codec formats in
/-- What passes a filter is all that adds something. -/
theorem flatMap_filter_of_nil {α β : Type} {p : α → Prop} [DecidablePred p] {f : α → List β}
    (h : ∀ a, ¬p a → f a = []) (l : List α) : (l.filter p).flatMap f = l.flatMap f := by
  induction l with
  | nil => rfl
  | cons a l ih =>
    rw [List.filter_cons, List.flatMap_cons, ← ih]
    by_cases hp : p a
    · rw [if_pos (decide_eq_true hp), List.flatMap_cons]
    · rw [if_neg (by simpa using hp), h a hp, List.nil_append]

omit ext times codec formats in
theorem flatMap_of_forall₂ {α β γ : Type} {R : α → β → Prop} {l : List α} {k : List β}
    (h : List.Forall₂ R l k) {f : α → List γ} {g : β → List γ}
    (heq : ∀ a b, b ∈ k → R a b → f a = g b) : l.flatMap f = k.flatMap g := by
  induction h with
  | nil => rfl
  | cons hab _ ih =>
    rw [List.flatMap_cons, List.flatMap_cons, heq _ _ List.mem_cons_self hab,
      ih fun a b hb => heq a b (List.mem_cons_of_mem _ hb)]

variable [payloads : PayloadFormats]

omit ext times codec in
/-- Nothing is lost of an input when it is encoded and compressed.  A message of rollup data has no field
for a proof of the rollup ids. -/
structure ReadsBack (input : Input) : Prop where
  decompress : ∀ bytes data, payloads.compressBytes bytes = .ok data →
    formats.decompressBytes data = some bytes
  metadata : formats.decodeMetadataList (payloads.encodeMetadataList input.metadata) =
    some input.metadata
  rollupData : ∀ e ∈ input.rollupDataForNamespace.entries,
    formats.decodeRollupDataList (payloads.encodeRollupDataList e.2) = some e.2
  idsProof : ∀ e ∈ input.rollupDataForNamespace.entries, ∀ list,
    formats.decodeMetadataList (payloads.encodeRollupDataList e.2) = some list →
      ∀ raw ∈ list, raw.rollupIdsProof = none

/-- A blob with rollup data has no metadata. -/
theorem headersOf_of_holds {input : Input} (hreads : ReadsBack input)
    {e : Namespace × List RawSubmittedRollupData} (he : e ∈ input.rollupDataForNamespace.entries)
    {blob : Blob} (hblob : Payload.Holds blob e) (sequencerNamespace : Namespace) :
    headersOf sequencerNamespace blob = [] := by
  unfold headersOf convertBlobToHeaderList
  rw [hreads.decompress _ _ hblob.2, Option.bind_some]
  split_ifs
  · cases hlist : formats.decodeMetadataList (payloads.encodeRollupDataList e.2) with
    | none => rfl
    | some list =>
      refine wellFormedItems_eq_nil ?_
      intro raw hraw metadata h
      exact SubmittedMetadata.idsProof_of_tryFromRaw h (hreads.idsProof e he list hlist raw hraw)
  · rfl

omit ext times codec in
/-- A blob with rollup data has that of its namespace. -/
theorem rollupDataOf_of_holds {input : Input} (hreads : ReadsBack input)
    {e : Namespace × List RawSubmittedRollupData} (he : e ∈ input.rollupDataForNamespace.entries)
    {blob : Blob} (hblob : Payload.Holds blob e) (rollupNamespace : Namespace) :
    rollupDataOf rollupNamespace blob =
      if e.1 = rollupNamespace then wellFormedItems SubmittedRollupData.tryFromRaw e.2 else [] := by
  unfold rollupDataOf convertBlobToRollupDataList
  rw [hreads.decompress _ _ hblob.2, Option.bind_some, hreads.rollupData e he, hblob.1]
  rfl

/-- What is decoded of the payload of an input: its metadata, and the rollup data of the namespace. -/
theorem decodeRawBlobs_payload {input : Input} {order : HashOrder} {payload : Payload}
    (hpayload : input.tryIntoPayload order = .ok payload) (hreads : ReadsBack input)
    {sequencerNamespace rollupNamespace : Namespace}
    (hsequencer : input.sequencerNamespace = some sequencerNamespace)
    (hne : rollupNamespace ≠ sequencerNamespace) {metadata : List SubmittedMetadata}
    (hmetadata : input.metadata = metadata.map SubmittedMetadata.intoRaw)
    (hreadable : ∀ item ∈ metadata, item.Readable) {rollupData : List SubmittedRollupData}
    (hrollupData : (input.rollupDataForNamespace.get rollupNamespace).getD [] =
      rollupData.map SubmittedRollupData.intoRaw)
    (hproofs : ∀ item ∈ rollupData, ProofInTree item.proof) (celestiaHeight : ℕ) :
    decodeRawBlobs (fetchNewBlobs celestiaHeight payload.blobs rollupNamespace sequencerNamespace)
        rollupNamespace sequencerNamespace =
      { celestiaHeight := celestiaHeight, metadata := metadata, rollupData := rollupData } := by
  obtain ⟨namespaceId, data, blobs, hsome, hdata, hblobs, hholds⟩ := Input.tryIntoPayload_blobs hpayload
  obtain rfl : sequencerNamespace = namespaceId := Option.some.inj (hsequencer.symm.trans hsome)
  have hentries {e : Namespace × List RawSubmittedRollupData}
      (he : e ∈ order.iterate input.rollupDataForNamespace.entries) :
      e ∈ input.rollupDataForNamespace.entries := (order.perm _).mem_iff.mp he
  have hheaders : payload.blobs.flatMap (headersOf sequencerNamespace) = metadata := by
    have hfirst : headersOf sequencerNamespace { namespaceId := sequencerNamespace, data := data } =
        metadata := by
      unfold headersOf convertBlobToHeaderList
      rw [if_pos rfl, hreads.decompress _ _ hdata, Option.bind_some, hreads.metadata, hmetadata]
      exact wellFormedItems_map fun item hitem => SubmittedMetadata.tryFromRaw_intoRaw (hreadable item hitem)
    have hrest := flatMap_of_forall₂ hholds (f := headersOf sequencerNamespace) (g := fun _ => [])
      fun blob e he hblob => headersOf_of_holds hreads (hentries he) hblob sequencerNamespace
    rw [hblobs, List.flatMap_cons, hfirst, hrest, List.flatMap_eq_nil_iff.mpr fun _ _ => rfl,
      List.append_nil]
  have hrollups : payload.blobs.flatMap (rollupDataOf rollupNamespace) = rollupData := by
    have hfirst : rollupDataOf rollupNamespace { namespaceId := sequencerNamespace, data := data } =
        [] := if_neg hne.symm
    have hrest := flatMap_of_forall₂ hholds
      fun blob e he hblob => rollupDataOf_of_holds hreads (hentries he) hblob rollupNamespace
    let iterated : IndexMap Namespace (List RawSubmittedRollupData) :=
      { entries := order.iterate input.rollupDataForNamespace.entries
        nodup := ((order.perm _).map _).nodup_iff.mpr input.rollupDataForNamespace.nodup }
    have hkey := iterated.flatMap_key rollupNamespace
      (wellFormedItems SubmittedRollupData.tryFromRaw)
    have hsame : iterated.Same input.rollupDataForNamespace := order.perm _
    rw [hblobs, List.flatMap_cons, hfirst, List.nil_append, hrest]
    refine hkey.trans ?_
    rw [IndexMap.get_eq_of_same hsame rollupNamespace]
    have hread : wellFormedItems SubmittedRollupData.tryFromRaw
        (rollupData.map SubmittedRollupData.intoRaw) = rollupData :=
      wellFormedItems_map fun item hitem => SubmittedRollupData.tryFromRaw_intoRaw (hproofs item hitem)
    cases hget : input.rollupDataForNamespace.get rollupNamespace with
    | none =>
      rw [hget, Option.getD_none] at hrollupData
      rw [← hrollupData] at hread
      exact hread
    | some list =>
      rw [hget, Option.getD_some] at hrollupData
      rw [Option.map_some, Option.getD_some, hrollupData, hread]
  rw [decodeRawBlobs_eq]
  unfold fetchNewBlobs
  dsimp only
  have hheader : ∀ blob : Blob, blob.namespaceId ≠ sequencerNamespace →
      headersOf sequencerNamespace blob = [] := fun blob h => if_neg h
  have hrollup : ∀ blob : Blob, blob.namespaceId ≠ rollupNamespace →
      rollupDataOf rollupNamespace blob = [] := fun blob h => if_neg h
  rw [flatMap_filter_of_nil hheader, flatMap_filter_of_nil hrollup, hheaders, hrollups]

end

end Astria.Conductor
