import Astria.Conductor.Convert
import Astria.Conductor.Reconstruct
import Astria.Conductor.TestUtils
import Astria.Sequencer.Grpc

/-!
# Soft and firm blocks

A sequencer block comes to a rollup twice: filtered for the rollup from the sequencer, and by way of
Celestia, where the relayer puts it (`astria-conductor/src/executor/mod.rs`, `celestia/mod.rs`).

On Celestia the data of a rollup are found by the first ten bytes of its id, so that those of another
rollup may be found as well.

Results:
* `Taken.carries`, `decodeRawBlobs_carried`: what conductor decodes of a submission of the relayer;
* `consumer_submitted`: which rollup of a block consumes its metadata;
* `firm_agrees_iff`: when the firm blocks are the soft ones.
-/

namespace Astria.Conductor

open Astria.Core Astria.Lib
open Astria.Relayer (Blob HashOrder IncludeRollup Input Namespace NextSubmission Payload PayloadFormats
  Submission SubmittedMetadata SubmittedRollupData namespaceV0FromRollupId
  namespaceV0FromSha256OfBytes splitForCelestia)
open Astria.Sequencer (BlockCodec BlockHash External)

/-! ## Finding an item -/

/-- The only member of a list for which there may be something. -/
theorem findSome?_eq_of_mem {α β : Type} {l : List α} {f : α → Option β} {a : α} (ha : a ∈ l)
    (hother : ∀ b ∈ l, b = a ∨ f b = none) : l.findSome? f = f a := by
  induction l with
  | nil => cases ha
  | cons b l ih =>
    obtain ⟨hb, hl⟩ := List.forall_mem_cons.mp hother
    rw [List.findSome?_cons]
    cases hfound : f b with
    | some c =>
      rcases hb with rfl | hnone
      · exact hfound.symm
      · rw [hfound] at hnone
        cases hnone
    | none =>
      rcases List.mem_cons.mp ha with rfl | ha
      · rw [hfound]
        refine List.findSome?_eq_none_iff.mpr ?_
        intro c hc
        rcases hl c hc with rfl | hnone
        · exact hfound
        · exact hnone
      · exact ih ha hl

theorem find?_eq_head?_of_forall {α : Type} {l : List α} {p : α → Bool} (h : ∀ a ∈ l, p a = true) :
    l.find? p = l.head? := by
  cases l with
  | nil => rfl
  | cons a l => exact List.find?_cons_of_pos (h a List.mem_cons_self)

/-! ## The rollups in a namespace -/

/-- The first rollup of a block whose data come under the namespace of a rollup. -/
def firstInNamespace (rollupFilter : IncludeRollup) (rollupId : RollupId) (block : SequencerBlock) :
    Option (RollupId × RollupTransactions) :=
  block.rollupTransactions.entries.find? fun e =>
    rollupFilter.shouldInclude e.1 ∧ namespaceV0FromRollupId e.1 = namespaceV0FromRollupId rollupId

/-- The transactions of a rollup in a block. -/
def transactionsIn (block : SequencerBlock) (rollupId : RollupId) : List Bytes :=
  ((block.rollupTransactions.get rollupId).map (·.transactions)).getD []

theorem transactionsOf_toFilteredBlock (block : SequencerBlock) (rollupId : RollupId) :
    (block.toFilteredBlock [rollupId]).transactionsOf rollupId = transactionsIn block rollupId := by
  have hget := IndexMap.get_copyKeys block.rollupTransactions [rollupId] IndexMap.empty rollupId
  have hempty : (IndexMap.empty : IndexMap RollupId RollupTransactions).get rollupId = none := rfl
  rw [if_pos (List.mem_singleton_self _), hempty, Option.or_none] at hget
  unfold transactionsIn
  rw [← hget]
  unfold IndexMap.get SortedMap.lookup
  rw [Option.map_map]
  rfl

/-- The transactions of the first rollup in the namespace are those of the rollup itself. -/
theorem firstTransactions_eq_iff {rollupFilter : IncludeRollup} {block : SequencerBlock} {rollupId : RollupId}
    (hfilter : rollupFilter.shouldInclude rollupId) :
    (firstInNamespace rollupFilter rollupId block).elim [] (·.2.transactions) =
        transactionsIn block rollupId ↔
      ∀ e, firstInNamespace rollupFilter rollupId block = some e →
        e.2.transactions = transactionsIn block rollupId := by
  cases hfirst : firstInNamespace rollupFilter rollupId block with
  | some e =>
    constructor
    · rintro h _ ⟨⟩
      exact h
    · intro h
      exact h e rfl
  | none =>
    have hnone : block.rollupTransactions.get rollupId = none := by
      by_contra hsome
      obtain ⟨txs, htxs⟩ := Option.ne_none_iff_exists'.mp hsome
      exact List.find?_eq_none.mp hfirst _ (IndexMap.get_eq_some.mp htxs)
        (decide_eq_true ⟨hfilter, rfl⟩)
    refine iff_of_true ?_ fun e he => (by cases he)
    unfold transactionsIn
    rw [hnone]
    rfl

/-- So they are in a block without another rollup in its namespace. -/
theorem firstTransactions_of_distinct {rollupFilter : IncludeRollup} {block : SequencerBlock}
    {rollupId : RollupId}
    (h : ∀ id ∈ block.rollupTransactions.keys,
      namespaceV0FromRollupId id = namespaceV0FromRollupId rollupId → id = rollupId)
    {e : RollupId × RollupTransactions}
    (he : firstInNamespace rollupFilter rollupId block = some e) :
    e.2.transactions = transactionsIn block rollupId := by
  unfold firstInNamespace at he
  have hmem := List.mem_of_find?_eq_some he
  have hpasses := List.find?_some he
  have hid : e.1 = rollupId := h e.1 (List.mem_map_of_mem hmem) (of_decide_eq_true hpasses).2
  have hget : block.rollupTransactions.get rollupId = some e.2 := by
    rw [← hid]
    exact IndexMap.get_eq_some.mpr hmem
  unfold transactionsIn
  rw [hget]
  rfl

/-! ## How a block is executed -/

section

variable [codec : BlockCodec] [dataCodec : RollupDataCodec]

theorem prependTransactions_inj {transactions transactions' : List Bytes}
    {info : Option Sequencer.ExtendedCommitInfoWithMapping}
    (h : prependTransactionsByPriceFeedIfExists transactions info =
      prependTransactionsByPriceFeedIfExists transactions' info) : transactions = transactions' := by
  unfold prependTransactionsByPriceFeedIfExists at h
  cases info with
  | none => exact h
  | some info =>
    dsimp only at h
    cases hprices : calculatePrices info with
    | error e =>
      rw [hprices] at h
      exact h
    | ok prices =>
      rw [hprices] at h
      exact (List.cons.inj h).2

/-- How a block is executed with some transactions. -/
def executableOf (block : SequencerBlock) (transactions : List Bytes) : ExecutableBlock :=
  { hash := block.blockHash
    height := block.header.height
    timestamp := convertTendermintTimeToProtobufTimestamp block.header.time
    transactions := prependTransactionsByPriceFeedIfExists transactions
      (block.extendedCommitInfoWithProof.map (·.extendedCommitInfo)) }

theorem fromReconstructed_ofMetadata (celestiaHeight : ℕ) (block : SequencerBlock)
    (transactions : List Bytes) :
    ExecutableBlock.fromReconstructed
        (.ofMetadata celestiaHeight (splitForCelestia block).1 transactions) =
      executableOf block transactions := rfl

theorem fromSequencer_toFilteredBlock (block : SequencerBlock) (rollupId : RollupId) :
    ExecutableBlock.fromSequencer (block.toFilteredBlock [rollupId]) rollupId =
      executableOf block (transactionsIn block rollupId) := by
  rw [← transactionsOf_toFilteredBlock]
  rfl

theorem executableOf_inj {block : SequencerBlock} {transactions transactions' : List Bytes}
    (h : executableOf block transactions = executableOf block transactions') :
    transactions = transactions' :=
  prependTransactions_inj (congrArg ExecutableBlock.transactions h)

end

section

variable [ext : External] [times : TimeCodec] [codec : BlockCodec]

/-! ## Blocks that are split -/

/-- A block as the sequencer makes it: it can be read back, and the proofs of its rollups verify. -/
structure Genuine (block : SequencerBlock) : Prop where
  wellFormed : block.WellFormed
  proved : ∀ e ∈ block.rollupTransactions.entries,
    doRollupTransactionsMatchRoot e.2 block.header.rollupTransactionsRoot = some true

/-- The rollup data of an entry of a block. -/
def submittedEntry (block : SequencerBlock) (e : RollupId × RollupTransactions) : SubmittedRollupData :=
  { sequencerBlockHash := block.blockHash
    rollupId := e.1
    transactions := e.2.transactions
    proof := e.2.proof }

namespace Genuine

variable {block : SequencerBlock}

theorem readable (h : Genuine block) : (splitForCelestia block).1.Readable :=
  { header := h.wellFormed.header
    proved :=
      { root := h.wellFormed.root
        ids := by
          show block.rollupIdsProof.verify (ext.sha256 (FilteredSequencerBlock.idsRoot
            block.rollupTransactions.keys).toList).toList block.header.dataHash = some true
          rw [SequencerBlock.idsRoot_keys]
          exact h.wellFormed.ids }
    transactionsProof := h.wellFormed.transactionsProof
    idsProof := h.wellFormed.idsProof
    info := fun info hinfo =>
      ⟨h.wellFormed.infoProof info hinfo, h.wellFormed.extendedCommitInfo info hinfo⟩ }

theorem proofInTree (h : Genuine block) {item : SubmittedRollupData}
    (hitem : item ∈ (splitForCelestia block).2) : ProofInTree item.proof := by
  obtain ⟨e, he, rfl⟩ := List.mem_map.mp hitem
  exact (h.wellFormed.entries e he).2

/-- The rollup data of a block verify against its metadata. -/
theorem verifies (h : Genuine block) {item : SubmittedRollupData}
    (hitem : item ∈ (splitForCelestia block).2) :
    verifyRollupBlobAgainstSequencerBlob item (splitForCelestia block).1 = some true := by
  obtain ⟨e, he, rfl⟩ := List.mem_map.mp hitem
  have hproved := h.proved e he
  unfold doRollupTransactionsMatchRoot at hproved
  rw [← (h.wellFormed.entries e he).1] at hproved
  exact hproved

end Genuine

/-! ## Which rollup consumes the metadata -/

/-- The rollup data of some blocks that come under the namespace of a rollup. -/
def submittedFor (rollupFilter : IncludeRollup) (rollupId : RollupId) (blocks : List SequencerBlock) :
    List SubmittedRollupData :=
  blocks.flatMap fun block => (splitForCelestia block).2.filter fun item =>
    rollupFilter.shouldInclude item.rollupId ∧
      namespaceV0FromRollupId item.rollupId = namespaceV0FromRollupId rollupId

/-- In a list of blocks with hashes of their own, the first rollup of a block in the namespace consumes
its metadata. -/
theorem consumer_submitted {rollupFilter : IncludeRollup} {blocks : List SequencerBlock}
    (hgenuine : ∀ block ∈ blocks, Genuine block)
    (hidentified : ∀ block ∈ blocks, ∀ block' ∈ blocks,
      block.blockHash = block'.blockHash → block = block')
    {block : SequencerBlock} (hblock : block ∈ blocks) (rollupId : RollupId) :
    consumer (submittedFor rollupFilter rollupId blocks) (splitForCelestia block).1 =
      (firstInNamespace rollupFilter rollupId block).map (submittedEntry block) := by
  let passes (item : SubmittedRollupData) : Bool := rollupFilter.shouldInclude item.rollupId ∧
    namespaceV0FromRollupId item.rollupId = namespaceV0FromRollupId rollupId
  let matching (item : SubmittedRollupData) : Bool := item.sequencerBlockHash = block.blockHash ∧
    verifyRollupBlobAgainstSequencerBlob item (splitForCelestia block).1 ≠ some false
  have hown : ((splitForCelestia block).2.filter passes).find? matching =
      (firstInNamespace rollupFilter rollupId block).map (submittedEntry block) := by
    have hall : ∀ item ∈ (splitForCelestia block).2.filter passes, matching item = true := by
      intro item hitem
      have hmem := List.mem_of_mem_filter hitem
      refine decide_eq_true ⟨?_, ?_⟩
      · obtain ⟨e, -, rfl⟩ := List.mem_map.mp hmem
        rfl
      · rw [(hgenuine block hblock).verifies hmem]
        decide
    rw [find?_eq_head?_of_forall hall, List.head?_filter]
    exact List.find?_map
  have hother : ∀ block' ∈ blocks, block' = block ∨
      ((splitForCelestia block').2.filter passes).find? matching = none := by
    intro block' hblock'
    by_cases heq : block' = block
    · exact Or.inl heq
    · refine Or.inr (List.find?_eq_none.mpr ?_)
      intro item hitem hmatching
      obtain ⟨e, -, rfl⟩ := List.mem_map.mp (List.mem_of_mem_filter hitem)
      exact heq (hidentified block' hblock' block hblock (of_decide_eq_true hmatching).1)
  show ((blocks.flatMap fun block' => (splitForCelestia block').2.filter passes).find? matching) = _
  rw [List.find?_flatMap, findSome?_eq_of_mem hblock hother]
  exact hown

/-- The transactions with which a block is reconstructed: those of the first rollup in the namespace. -/
theorem outcome_submitted {rollupFilter : IncludeRollup} {blocks : List SequencerBlock}
    (hgenuine : ∀ block ∈ blocks, Genuine block)
    (hidentified : ∀ block ∈ blocks, ∀ block' ∈ blocks,
      block.blockHash = block'.blockHash → block = block')
    {block : SequencerBlock} (hblock : block ∈ blocks) {rollupId : RollupId}
    (hfilter : rollupFilter.shouldInclude rollupId) :
    outcome rollupId (submittedFor rollupFilter rollupId blocks) (splitForCelestia block).1 =
      some ((firstInNamespace rollupFilter rollupId block).elim [] (·.2.transactions)) := by
  unfold outcome
  rw [consumer_submitted hgenuine hidentified hblock]
  cases hfirst : firstInNamespace rollupFilter rollupId block with
  | some e => rfl
  | none =>
    have hnot : rollupId ∉ (splitForCelestia block).1.rollupIds := by
      intro hmem
      obtain ⟨e, he, rfl⟩ := List.mem_map.mp hmem
      exact List.find?_eq_none.mp hfirst e he (decide_eq_true ⟨hfilter, rfl⟩)
    exact if_neg hnot

/-! ## What is submitted -/

variable [payloads : PayloadFormats]

/-- A submission that is taken after some calls, with the blocks that were added to it. -/
def Taken (rollupFilter : IncludeRollup) (submission : Submission) (blocks : List SequencerBlock) :
    Prop :=
  ∃ calls : List NextSubmission.Call,
    let s := calls.foldl (fun s call => call.run s) (NextSubmission.new rollupFilter, [])
    s.1.take.1 = some submission ∧ s.2 = blocks

/-- Sequencer blocks of one chain that have hashes of their own, with commits in which conductor finds a
quorum. -/
structure Committed (client : CometBft) [CommitCrypto] (chainId : String)
    (blocks : List SequencerBlock) : Prop where
  genuine : ∀ block ∈ blocks, Genuine block
  chainId : ∀ block ∈ blocks, block.header.chainId = chainId
  identified : ∀ block ∈ blocks, ∀ block' ∈ blocks, block.blockHash = block'.blockHash → block = block'
  quorum : ∀ block ∈ blocks, ∃ signedHeader, QuorumCommit client block.header.height signedHeader

variable {rollupFilter : IncludeRollup} {submission : Submission} {blocks : List SequencerBlock}

omit codec in
theorem Taken.carries (h : Taken rollupFilter submission blocks) :
    NextSubmission.Carries rollupFilter submission blocks := by
  obtain ⟨calls, htake, rfl⟩ := h
  have haccumulates := NextSubmission.accumulates_calls rollupFilter calls
  rcases haccumulates.take.2 with ⟨-, hnone⟩ | ⟨submission', hsome, hcarries⟩
  · rw [htake] at hnone
    cases hnone
  · obtain rfl := Option.some.inj (hsome.symm.trans htake)
    rw [NextSubmission.rollupFilter_calls] at hcarries
    exact hcarries

variable [formats : BlobFormats] [crypto : CommitCrypto] {client : CometBft} {chainId : String}

/-- What conductor decodes of a submission. -/
theorem decodeRawBlobs_carried (hcarries : NextSubmission.Carries rollupFilter submission blocks)
    (hreads : ReadsBack submission.input) (hblocks : Committed client chainId blocks)
    {rollupId : RollupId} (hne : namespaceV0FromRollupId rollupId ≠
      namespaceV0FromSha256OfBytes (asBytes chainId)) (celestiaHeight : ℕ) :
    decodeRawBlobs
        (fetchNewBlobs celestiaHeight submission.payload.blobs (namespaceV0FromRollupId rollupId)
          (namespaceV0FromSha256OfBytes (asBytes chainId)))
        (namespaceV0FromRollupId rollupId) (namespaceV0FromSha256OfBytes (asBytes chainId)) =
      { celestiaHeight := celestiaHeight
        metadata := blocks.map fun block => (splitForCelestia block).1
        rollupData := submittedFor rollupFilter rollupId blocks } := by
  obtain ⟨order, hpayload⟩ := hcarries.payload
  refine decodeRawBlobs_payload hpayload hreads ?_ hne ?_ ?_ ?_ ?_ celestiaHeight
  · rw [hcarries.input]
    exact Input.sequencerNamespace_ofBlocks hcarries.ne_nil hblocks.chainId
  · rw [hcarries.input, Input.metadata_ofBlocks, List.map_map]
    rfl
  · intro item hitem
    obtain ⟨block, hblock, rfl⟩ := List.mem_map.mp hitem
    exact (hblocks.genuine block hblock).readable
  · rw [hcarries.input, Input.rollupData_ofBlocks, submittedFor, List.map_flatMap]
    rfl
  · intro item hitem
    obtain ⟨block, hblock, hitem⟩ := List.mem_flatMap.mp hitem
    exact (hblocks.genuine block hblock).proofInTree (List.mem_of_mem_filter hitem)

omit payloads formats in
/-- The blocks that are reconstructed of a submission: one for each block that is not below the next
expected height. -/
theorem exists_firm {blobVerifier : BlobVerifier}
    (hblocks : Committed blobVerifier.client chainId blocks) {rollupId : RollupId}
    (hfilter : rollupFilter.shouldInclude rollupId) (celestiaHeight : ℕ) {next : ℕ}
    {progress : List Progress} (hreaches : ∀ event ∈ progress, Verification.Reaches event)
    (hjoined : ((Verification.start blobVerifier
      (blocks.map fun block => (splitForCelestia block).1) next).run progress).Joined) :
    ∃ firm, reconstructBlocksFromVerifiedBlobs
        (verifyMetadata blobVerifier
          { celestiaHeight := celestiaHeight
            metadata := blocks.map fun block => (splitForCelestia block).1
            rollupData := submittedFor rollupFilter rollupId blocks } next progress) rollupId =
        some firm ∧
      (firm.map (·.blockHash)).Nodup ∧
        ∀ x, x ∈ firm ↔ ∃ block ∈ blocks, next ≤ block.header.height ∧
          x = .ofMetadata celestiaHeight (splitForCelestia block).1
            ((firstInNamespace rollupFilter rollupId block).elim [] (·.2.transactions)) := by
  let convertedBlobs : ConvertedBlobs :=
    { celestiaHeight := celestiaHeight
      metadata := blocks.map fun block => (splitForCelestia block).1
      rollupData := submittedFor rollupFilter rollupId blocks }
  have hverified (hash : BlockHash) (item : SubmittedMetadata) :
      (verifyMetadata blobVerifier convertedBlobs next progress).headerBlobs.get hash = some item ↔
        ∃ block ∈ blocks, next ≤ block.header.height ∧ block.blockHash = hash ∧
          item = (splitForCelestia block).1 := by
    have hquorum : ∀ item ∈ convertedBlobs.metadata, ∃ signedHeader,
        QuorumCommit blobVerifier.client item.header.height signedHeader := by
      intro item hitem
      obtain ⟨block, hblock, rfl⟩ := List.mem_map.mp hitem
      exact hblocks.quorum block hblock
    have hidentified : ∀ item ∈ convertedBlobs.metadata, ∀ item' ∈ convertedBlobs.metadata,
        item.blockHash = item'.blockHash → item = item' := by
      intro item hitem item' hitem' hhash
      obtain ⟨block, hblock, rfl⟩ := List.mem_map.mp hitem
      obtain ⟨block', hblock', rfl⟩ := List.mem_map.mp hitem'
      rw [hblocks.identified block hblock block' hblock' hhash]
    rw [get_verifyMetadata hreaches hjoined hquorum hidentified]
    constructor
    · rintro ⟨hmem, hheight, hhash⟩
      obtain ⟨block, hblock, rfl⟩ := List.mem_map.mp hmem
      exact ⟨block, hblock, hheight, hhash, rfl⟩
    · rintro ⟨block, hblock, hheight, hhash, rfl⟩
      exact ⟨List.mem_map_of_mem hblock, hheight, hhash⟩
  have hkeyed : Keyed (verifyMetadata blobVerifier convertedBlobs next progress).headerBlobs := by
    intro hash item hget
    obtain ⟨block, -, -, hhash, rfl⟩ := (hverified hash item).mp hget
    exact hhash
  have houtcome {block : SequencerBlock} (hblock : block ∈ blocks) :=
    outcome_submitted hblocks.genuine hblocks.identified hblock hfilter
  rcases reconstructBlocks_spec hkeyed rollupId with ⟨-, firm, hfirm, hspec⟩ | ⟨hpanic, -⟩
  · refine ⟨firm, hfirm, hspec.nodup, ?_⟩
    intro x
    rw [hspec.mem_blocks]
    constructor
    · rintro ⟨hash, item, transactions, hget, hout, rfl⟩
      obtain ⟨block, hblock, hheight, -, rfl⟩ := (hverified hash item).mp hget
      obtain rfl := Option.some.inj ((houtcome hblock).symm.trans hout)
      exact ⟨block, hblock, hheight, rfl⟩
    · rintro ⟨block, hblock, hheight, rfl⟩
      exact ⟨block.blockHash, _, _, (hverified _ _).mpr ⟨block, hblock, hheight, rfl, rfl⟩,
        houtcome hblock, rfl⟩
  · refine absurd ?_ hpanic
    intro hash item hget rollup hconsumer
    obtain ⟨block, hblock, -, -, rfl⟩ := (hverified hash item).mp hget
    have hconsumer : consumer (submittedFor rollupFilter rollupId blocks)
      (splitForCelestia block).1 = some rollup := hconsumer
    rw [consumer_submitted hblocks.genuine hblocks.identified hblock] at hconsumer
    obtain ⟨e, he, rfl⟩ := Option.map_eq_some_iff.mp hconsumer
    exact (hblocks.genuine block hblock).verifies
      (List.mem_map_of_mem (List.mem_of_find?_eq_some he))

/-! ## Agreement -/

variable [dataCodec : RollupDataCodec]

/-- The firm blocks are the soft ones from a height on: each sequencer block has one, and they are executed
alike. -/
def Agree (rollupId : RollupId) (next : ℕ) (blocks : List SequencerBlock)
    (reconstructed : Option (List ReconstructedBlock)) : Prop :=
  ∃ firm, reconstructed = some firm ∧ (firm.map (·.blockHash)).Nodup ∧
    ∀ executable : ExecutableBlock, executable ∈ firm.map ExecutableBlock.fromReconstructed ↔
      ∃ block ∈ blocks, next ≤ block.header.height ∧
        executable = .fromSequencer (block.toFilteredBlock [rollupId]) rollupId

/-- `FetchConvertVerifyAndReconstruct::execute`, on the blobs at a height. -/
def fetchConvertVerifyAndReconstruct (blobVerifier : BlobVerifier) (celestiaHeight : ℕ)
    (blobs : List Blob) (rollupId : RollupId) (rollupNamespace sequencerNamespace : Namespace)
    (nextExpectedFirmSequencerHeight : ℕ) (progress : List Progress) :
    Option (List ReconstructedBlock) :=
  let newBlobs := fetchNewBlobs celestiaHeight blobs rollupNamespace sequencerNamespace
  let decodedBlobs := decodeRawBlobs newBlobs rollupNamespace sequencerNamespace
  let verifiedBlobs :=
    verifyMetadata blobVerifier decodedBlobs nextExpectedFirmSequencerHeight progress
  reconstructBlocksFromVerifiedBlobs verifiedBlobs rollupId

omit payloads formats in
/-- The firm blocks that are made of the items of some blocks are the soft ones exactly if in every block
the first rollup whose data come under the namespace has the transactions of the rollup itself. -/
theorem agree_reconstructed_iff {blobVerifier : BlobVerifier}
    (hblocks : Committed blobVerifier.client chainId blocks) {rollupId : RollupId}
    (hfilter : rollupFilter.shouldInclude rollupId) (celestiaHeight : ℕ) {next : ℕ}
    {progress : List Progress} (hreaches : ∀ event ∈ progress, Verification.Reaches event)
    (hjoined : ((Verification.start blobVerifier
      (blocks.map fun block => (splitForCelestia block).1) next).run progress).Joined) :
    Agree rollupId next blocks
        (reconstructBlocksFromVerifiedBlobs
          (verifyMetadata blobVerifier
            { celestiaHeight := celestiaHeight
              metadata := blocks.map fun block => (splitForCelestia block).1
              rollupData := submittedFor rollupFilter rollupId blocks } next progress) rollupId) ↔
      ∀ block ∈ blocks, next ≤ block.header.height → ∀ e,
        firstInNamespace rollupFilter rollupId block = some e →
          e.2.transactions = transactionsIn block rollupId := by
  obtain ⟨firm, hfirm, hnodup, hmem⟩ := exists_firm hblocks hfilter celestiaHeight hreaches hjoined
  have hexecuted (executable : ExecutableBlock) :
      executable ∈ firm.map ExecutableBlock.fromReconstructed ↔
        ∃ block ∈ blocks, next ≤ block.header.height ∧ executable = executableOf block
          ((firstInNamespace rollupFilter rollupId block).elim [] (·.2.transactions)) := by
    rw [List.mem_map]
    constructor
    · rintro ⟨x, hx, rfl⟩
      obtain ⟨block, hblock, hheight, rfl⟩ := (hmem x).mp hx
      exact ⟨block, hblock, hheight, fromReconstructed_ofMetadata ..⟩
    · rintro ⟨block, hblock, hheight, rfl⟩
      exact ⟨_, (hmem _).mpr ⟨block, hblock, hheight, rfl⟩, fromReconstructed_ofMetadata ..⟩
  constructor
  · rintro ⟨firm', hfirm', -, hagree⟩ block hblock hheight
    obtain rfl : firm = firm' := Option.some.inj (hfirm.symm.trans hfirm')
    rw [← firstTransactions_eq_iff hfilter]
    obtain ⟨block', hblock', -, heq⟩ :=
      (hagree _).mp ((hexecuted _).mpr ⟨block, hblock, hheight, rfl⟩)
    rw [fromSequencer_toFilteredBlock] at heq
    obtain rfl := hblocks.identified block hblock block' hblock' (congrArg ExecutableBlock.hash heq)
    exact executableOf_inj heq
  · intro h
    refine ⟨firm, hfirm, hnodup, ?_⟩
    intro executable
    rw [hexecuted]
    refine exists_congr fun block => and_congr_right fun hblock => and_congr_right fun hheight => ?_
    rw [fromSequencer_toFilteredBlock,
      (firstTransactions_eq_iff hfilter).mpr (h block hblock hheight)]

/-- The firm blocks of a submission are the soft ones exactly if in every block the first rollup whose data
come under the namespace has the transactions of the rollup itself. -/
theorem firm_agrees_iff (htaken : Taken rollupFilter submission blocks)
    (hreads : ReadsBack submission.input) {blobVerifier : BlobVerifier}
    (hblocks : Committed blobVerifier.client chainId blocks) {rollupId : RollupId}
    (hfilter : rollupFilter.shouldInclude rollupId)
    (hne : namespaceV0FromRollupId rollupId ≠ namespaceV0FromSha256OfBytes (asBytes chainId))
    (celestiaHeight : ℕ) {next : ℕ} {progress : List Progress}
    (hreaches : ∀ event ∈ progress, Verification.Reaches event)
    (hjoined : ((Verification.start blobVerifier
      (blocks.map fun block => (splitForCelestia block).1) next).run progress).Joined) :
    Agree rollupId next blocks
        (fetchConvertVerifyAndReconstruct blobVerifier celestiaHeight submission.payload.blobs rollupId
          (namespaceV0FromRollupId rollupId) (namespaceV0FromSha256OfBytes (asBytes chainId)) next
          progress) ↔
      ∀ block ∈ blocks, next ≤ block.header.height → ∀ e,
        firstInNamespace rollupFilter rollupId block = some e →
          e.2.transactions = transactionsIn block rollupId := by
  unfold fetchConvertVerifyAndReconstruct
  dsimp only
  rw [decodeRawBlobs_carried htaken.carries hreads hblocks hne]
  exact agree_reconstructed_iff hblocks hfilter celestiaHeight hreaches hjoined

end

/-! ## A rollup with the namespace of another -/

section

open TestUtils
open scoped Sequencer.TestUtils

/-- The transactions of a rollup, whose leaf is the root. -/
def TestUtils.otherRollupTransactions : RollupTransactions :=
  { rollupId := otherRollupId
    transactions := [[1]]
    proof := { auditPath := [], leafIndex := 0, treeSize := 1 } }

/-- A block with the data of one rollup. -/
def TestUtils.otherBlock : SequencerBlock :=
  { blockHash := otherMetadata.blockHash
    header := otherMetadata.header
    rollupTransactions := IndexMap.empty.insert otherRollupId otherRollupTransactions
    rollupTransactionsProof := otherMetadata.rollupTransactionsProof
    rollupIdsProof := otherMetadata.rollupIdsProof
    upgradeChangeHashes := []
    extendedCommitInfoWithProof := none }

/-- A rollup whose id starts with the same ten bytes. -/
def TestUtils.namesakeId : RollupId := { inner := ⟨List.replicate 10 3 ++ List.replicate 22 4, rfl⟩ }

/-- Formats for the items of that block. -/
scoped instance TestUtils.instPayloadFormats : PayloadFormats where
  encodeMetadataList _ := [0]
  encodeRollupDataList _ := [1]
  compressBytes := .ok
  checkBlob _ _ := .ok ()

scoped instance TestUtils.instBlobFormats : BlobFormats where
  decompressBytes := some
  decodeMetadataList bytes := if bytes = [0] then some [otherMetadata.intoRaw] else none
  decodeRollupDataList bytes := if bytes = [1] then some [otherRollupData.intoRaw] else none

/-- The submission of the block. -/
def TestUtils.otherSubmission : Submission :=
  { input := Input.ofBlocks { rollupIds := [] } [otherBlock]
    payload :=
      { compressedSize := 2
        uncompressedSize := 2
        blobs :=
          [{ namespaceId := namespaceV0FromSha256OfBytes (asBytes "test"), data := [0] },
            { namespaceId := namespaceV0FromRollupId otherRollupId, data := [1] }] } }

theorem genuine_otherBlock : Genuine otherBlock := by
  have hproved := Relayer.SubmittedMetadata.proved_assembled (List.Vector.replicate 32 1) "test" 2 1
    [otherRollupId] (Sequencer.rollupTransactionsRoot otherDatas)
  constructor
  · constructor
    · exact
        { root := hproved.root
          transactions := hproved.root
          ids := hproved.ids
          extendedCommitInfo := fun info hinfo => absurd hinfo.symm (Option.some_ne_none info) }
    · exact ⟨by decide +kernel, by decide, by decide +kernel⟩
    · exact ⟨by decide, by decide⟩
    · exact ⟨by decide, by decide⟩
    · intro e he
      obtain rfl := List.mem_singleton.mp he
      exact ⟨rfl, by decide, by decide⟩
    · intro info hinfo
      cases hinfo
  · intro e he
    obtain rfl := List.mem_singleton.mp he
    exact otherRollupData_verifies

theorem taken_otherSubmission : Taken { rollupIds := [] } otherSubmission [otherBlock] :=
  ⟨[.tryAdd { iterate := id, perm := List.Perm.refl } otherBlock], rfl, rfl⟩

theorem readsBack_otherSubmission : ReadsBack otherSubmission.input := by
  constructor
  · rintro bytes _ ⟨⟩
    rfl
  · rfl
  · intro e he
    obtain rfl := List.mem_singleton.mp he
    rfl
  · intro e _ list h
    cases h

theorem committed_otherBlock : Committed cometBft "test" [otherBlock] := by
  constructor
  · intro block hblock
    obtain rfl := List.mem_singleton.mp hblock
    exact genuine_otherBlock
  · intro block hblock
    obtain rfl := List.mem_singleton.mp hblock
    rfl
  · intro block hblock block' hblock' _
    rw [List.mem_singleton.mp hblock, List.mem_singleton.mp hblock']
  · intro block hblock
    obtain rfl := List.mem_singleton.mp hblock
    exact ⟨_, quorumCommit_signedHeader⟩

theorem joined_otherBlock : ((Verification.start (.new cometBft)
    ([otherBlock].map fun block => (splitForCelestia block).1) 2).run [.ended 0 true]).Joined := by
  intro index
  refine (Verification.get_run_ended _ [0] index).trans ?_
  split_ifs with hmem
  · rfl
  · by_contra hsome
    obtain ⟨item, hitem⟩ := Option.ne_none_iff_exists'.mp hsome
    obtain ⟨hindex, -⟩ := get_spawnTasks.mp hitem
    obtain ⟨hlt, -⟩ := List.getElem?_eq_some_iff.mp hindex
    exact hmem (List.mem_singleton.mpr (Nat.lt_one_iff.mp hlt))

theorem reaches_ended : ∀ event ∈ [Progress.ended 0 true], Verification.Reaches event := by
  intro event hevent
  obtain rfl := List.mem_singleton.mp hevent
  rfl

theorem namespace_ne_sequencer :
    namespaceV0FromRollupId otherRollupId ≠ namespaceV0FromSha256OfBytes (asBytes "test") ∧
      namespaceV0FromRollupId namesakeId = namespaceV0FromRollupId otherRollupId := by
  decide +kernel

theorem agree_otherBlock :
    Agree otherRollupId 2 [otherBlock]
      (fetchConvertVerifyAndReconstruct (.new cometBft) 1 otherSubmission.payload.blobs otherRollupId
        (namespaceV0FromRollupId otherRollupId) (namespaceV0FromSha256OfBytes (asBytes "test")) 2
        [.ended 0 true]) := by
  refine (firm_agrees_iff taken_otherSubmission readsBack_otherSubmission committed_otherBlock (by decide)
    namespace_ne_sequencer.1 1 reaches_ended joined_otherBlock).mpr ?_
  intro block hblock _ e he
  obtain rfl := List.mem_singleton.mp hblock
  refine firstTransactions_of_distinct ?_ he
  intro id hid _
  exact List.mem_singleton.mp hid

/-- The rollup has no data in the block, and its firm block has those of the other one. -/
theorem not_agree_namesake :
    Taken { rollupIds := [] } otherSubmission [otherBlock] ∧ ReadsBack otherSubmission.input ∧
      Committed cometBft "test" [otherBlock] ∧
      (([otherBlock].flatMap fun block => block.rollupTransactions.keys).map
        namespaceV0FromRollupId).Nodup ∧
      ¬Agree namesakeId 2 [otherBlock]
        (fetchConvertVerifyAndReconstruct (.new cometBft) 1 otherSubmission.payload.blobs namesakeId
          (namespaceV0FromRollupId namesakeId) (namespaceV0FromSha256OfBytes (asBytes "test")) 2
          [.ended 0 true]) := by
  refine ⟨taken_otherSubmission, readsBack_otherSubmission, committed_otherBlock, by decide, ?_⟩
  have hne : namespaceV0FromRollupId namesakeId ≠ namespaceV0FromSha256OfBytes (asBytes "test") :=
    namespace_ne_sequencer.2 ▸ namespace_ne_sequencer.1
  unfold fetchConvertVerifyAndReconstruct
  dsimp only
  rw [decodeRawBlobs_carried taken_otherSubmission.carries readsBack_otherSubmission
    committed_otherBlock hne]
  intro hagree
  have hsame := (agree_reconstructed_iff committed_otherBlock (by decide) 1 reaches_ended
    joined_otherBlock).mp hagree otherBlock (List.mem_singleton_self _) (by decide)
  have hfirst : firstInNamespace { rollupIds := [] } namesakeId otherBlock =
      some (otherRollupId, otherRollupTransactions) :=
    List.find?_cons_of_pos (decide_eq_true ⟨rfl, namespace_ne_sequencer.2.symm⟩)
  exact absurd (hsame _ hfirst) (by decide)

end

end Astria.Conductor
