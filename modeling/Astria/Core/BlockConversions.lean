import Astria.Core.SequencerBlock
import Astria.Lib.Codec
import Astria.Lib.IndexMap

/-!
# Raw sequencer blocks

The conversions between a sequencer block and its protobuf message
(`astria-core/src/sequencerblock/v1/block/mod.rs`, `astria-core/src/sequencerblock/v1/mod.rs`,
`astria-core/src/primitive/v1/mod.rs`, `astria-merkle/src/audit.rs`).  A message is a record of its
fields; what a field of a wrong length or value does is part of the model, and a panic is a failure
with the panic's message.

Results:
* `RawProof.tryIntoProof_intoRaw`, `RollupTransactions.tryFromRaw_intoRaw`,
  `SequencerBlockHeader.tryFromRaw_intoRaw`: round trips of the parts of a block;
* `SequencerBlock.tryFromRaw_eq_ok`: which raw blocks are accepted, part by part;
* `SequencerBlock.tryFromRaw_verified`, `SequencerBlock.tryFromRaw_wellFormed`: what a raw block that
  is accepted satisfies;
* `SequencerBlock.tryFromRaw_intoRaw`: the round trip of a block.
-/

namespace Astria.Core

open Astria.Lib
open Astria.Sequencer (BlockHash BlockCodec External ExtendedCommitInfoWithMapping Time RollupDatas
  toBytes32)

/-! ## Results -/

section

variable {α β : Type}

/-- `ok_or`. -/
def okOr (o : Option α) (e : Report) : Except Report α :=
  match o with
  | some a => .ok a
  | none => .error e

/-- `map_err` with a context. -/
def withContext (context : String) (x : Except Report α) : Except Report α :=
  match x with
  | .ok a => .ok a
  | .error e => .error (context :: e)

@[simp] theorem okOr_eq_ok {o : Option α} {e : Report} {a : α} : okOr o e = .ok a ↔ o = some a := by
  cases o <;> simp [okOr]

@[simp] theorem withContext_eq_ok {context : String} {x : Except Report α} {a : α} :
    withContext context x = .ok a ↔ x = .ok a := by
  cases x <;> simp [withContext]

/-- The message of `unwrap` on `None`. -/
def unwrapPanic : Report := ["called `Option::unwrap()` on a `None` value"]

end

/-! ## Proofs -/

/-- The raw form of a proof, with the numbers of the type `u64`. -/
structure RawProof where
  auditPath : Bytes
  leafIndex : ℕ
  treeSize : ℕ
  deriving DecidableEq

/-- The digests that some bytes hold in pieces of 32. -/
def readDigests : ℕ → Bytes → Option (List Bytes32)
  | 0, _ => some []
  | count + 1, bytes =>
    match toBytes32 (bytes.take 32) with
    | none => none
    | some digest => (readDigests count (bytes.drop 32)).map (digest :: ·)

/-- `UncheckedProof::try_into_proof`. -/
def RawProof.tryIntoProof (raw : RawProof) : Except Report (Merkle.Proof Bytes32) :=
  let invalid (kind : String) : Except Report (Merkle.Proof Bytes32) :=
    .error ["the unchecked proof is not a valid proof", kind]
  if raw.treeSize = 0 then invalid "proof is undefined for trees of size zero"
  else if u64Max < 2 * raw.leafIndex then .error unwrapPanic
  else if raw.treeSize ≤ 2 * raw.leafIndex then
    invalid ("leaf index " ++ toString raw.leafIndex ++ " corresponding to tree index " ++
      toString (2 * raw.leafIndex) ++ " exceeds tree of size " ++ toString raw.treeSize)
  else if raw.auditPath.length % 32 ≠ 0 then
    invalid ("audit path byte buffer length must be a multiple of 32 bytes, but was " ++
      toString raw.auditPath.length ++ " bytes")
  else
    match readDigests (raw.auditPath.length / 32) raw.auditPath with
    | none => .error unwrapPanic
    | some auditPath =>
      .ok { auditPath := auditPath, leafIndex := raw.leafIndex, treeSize := raw.treeSize }

/-- `Proof::into_raw`. -/
def intoRawProof (proof : Merkle.Proof Bytes32) : RawProof :=
  { auditPath := proof.auditPath.flatMap List.Vector.toList
    leafIndex := proof.leafIndex
    treeSize := proof.treeSize }

/-- What `try_into_proof` checks of a proof: a leaf of a tree, with indices of 64 bits. -/
def ProofInTree (proof : Merkle.Proof Bytes32) : Prop :=
  2 * proof.leafIndex < proof.treeSize ∧ proof.treeSize ≤ u64Max

/-- The numbers of a raw proof are of their type. -/
def RawProof.Typed (raw : RawProof) : Prop := raw.leafIndex ≤ u64Max ∧ raw.treeSize ≤ u64Max

theorem RawProof.tryIntoProof_inTree {raw : RawProof} {proof : Merkle.Proof Bytes32}
    (htyped : raw.Typed) (h : raw.tryIntoProof = .ok proof) : ProofInTree proof := by
  unfold tryIntoProof at h
  dsimp only at h
  split_ifs at h with hzero hword hin hpath
  cases hread : readDigests (raw.auditPath.length / 32) raw.auditPath with
  | none =>
    rw [hread] at h
    cases h
  | some path =>
    rw [hread] at h
    cases h
    exact ⟨Nat.lt_of_not_le hin, htyped.2⟩

theorem ProofInTree.typed_intoRaw {proof : Merkle.Proof Bytes32} (h : ProofInTree proof) :
    (intoRawProof proof).Typed := by
  obtain ⟨hin, h64⟩ := h
  refine ⟨?_, h64⟩
  show proof.leafIndex ≤ u64Max
  omega

theorem readDigests_flatMap (digests : List Bytes32) :
    readDigests digests.length (digests.flatMap List.Vector.toList) = some digests := by
  induction digests with
  | nil => rfl
  | cons digest digests ih =>
    have hlen : digest.toList.length = 32 := digest.toList_length
    rw [List.length_cons, readDigests, List.flatMap_cons, List.take_left' hlen,
      List.drop_left' hlen, Sequencer.toBytes32_toList, ih]
    rfl

theorem RawProof.tryIntoProof_intoRaw {proof : Merkle.Proof Bytes32} (h : ProofInTree proof) :
    (intoRawProof proof).tryIntoProof = .ok proof := by
  obtain ⟨hin, h64⟩ := h
  have hlen : (proof.auditPath.flatMap List.Vector.toList).length = 32 * proof.auditPath.length := by
    rw [List.length_flatMap]
    simp [Nat.mul_comm]
  unfold RawProof.tryIntoProof intoRawProof
  dsimp only
  rw [if_neg (by omega), if_neg (by omega), if_neg (by omega), hlen, Nat.mul_mod_right,
    if_neg (by omega), Nat.mul_div_cancel_left _ (by omega), readDigests_flatMap]

/-! ## Rollup transactions -/

/-- The raw form of `RollupTransactions`. -/
structure RawRollupTransactions where
  rollupId : Option Bytes
  transactions : List Bytes
  proof : Option RawProof
  deriving DecidableEq

/-- `RollupId::try_from_raw`. -/
def RollupId.tryFromRaw (bytes : Bytes) : Except Report RollupId :=
  match toBytes32 bytes with
  | some inner => .ok { inner := inner }
  | none => .error ["expected 32 bytes, got " ++ toString bytes.length]

namespace RollupTransactions

/-- `RollupTransactions::into_raw`. -/
def intoRaw (txs : RollupTransactions) : RawRollupTransactions :=
  { rollupId := some txs.rollupId.inner.toList
    transactions := txs.transactions
    proof := some (intoRawProof txs.proof) }

/-- `RollupTransactions::try_from_raw`. -/
def tryFromRaw (raw : RawRollupTransactions) : Except Report RollupTransactions := do
  let rawId ← okOr raw.rollupId
    ["the expected field in the raw source type was not set: `rollup_id`"]
  let rollupId ← withContext "`id` field is invalid" (RollupId.tryFromRaw rawId)
  let rawProof ← okOr raw.proof
    ["the expected field in the raw source type was not set: `proof`"]
  let proof ← withContext "failed constructing a proof from the raw protobuf `proof` field"
    rawProof.tryIntoProof
  .ok { rollupId := rollupId, transactions := raw.transactions, proof := proof }

theorem tryFromRaw_intoRaw {txs : RollupTransactions} (h : ProofInTree txs.proof) :
    tryFromRaw txs.intoRaw = .ok txs := by
  have hid : RollupId.tryFromRaw txs.rollupId.inner.toList = .ok txs.rollupId := by
    rw [RollupId.tryFromRaw, Sequencer.toBytes32_toList]
  unfold tryFromRaw
  refine Codec.bind_eq_ok.mpr ⟨_, rfl, ?_⟩
  refine Codec.bind_eq_ok.mpr ⟨_, withContext_eq_ok.mpr hid, ?_⟩
  refine Codec.bind_eq_ok.mpr ⟨_, rfl, ?_⟩
  exact Codec.bind_eq_ok.mpr ⟨_, withContext_eq_ok.mpr (RawProof.tryIntoProof_intoRaw h), rfl⟩

theorem tryFromRaw_inTree {raw : RawRollupTransactions} {txs : RollupTransactions}
    (htyped : ∀ proof, raw.proof = some proof → proof.Typed) (h : tryFromRaw raw = .ok txs) :
    ProofInTree txs.proof := by
  unfold tryFromRaw at h
  obtain ⟨rawId, -, h⟩ := Codec.bind_eq_ok.mp h
  obtain ⟨rollupId, -, h⟩ := Codec.bind_eq_ok.mp h
  obtain ⟨rawProof, hraw, h⟩ := Codec.bind_eq_ok.mp h
  obtain ⟨proof, hproof, h⟩ := Codec.bind_eq_ok.mp h
  cases h
  exact RawProof.tryIntoProof_inTree (htyped rawProof (okOr_eq_ok.mp hraw))
    (withContext_eq_ok.mp hproof)

end RollupTransactions

/-! ## The header -/

/-- `google.protobuf.Timestamp`. -/
structure RawTimestamp where
  seconds : ℤ
  nanos : ℤ
  deriving DecidableEq

/-- The conversions of `tendermint::Time`, which fail outside of the years 1 to 9999. -/
class TimeCodec where
  timeToRaw : Time → RawTimestamp
  timeFromRaw : RawTimestamp → Option Time

/-- The raw form of `SequencerBlockHeader`. -/
structure RawSequencerBlockHeader where
  chainId : String
  height : ℕ
  time : Option RawTimestamp
  rollupTransactionsRoot : Bytes
  dataHash : Bytes
  proposerAddress : Bytes
  deriving DecidableEq

/-- The 20 bytes of an account id. -/
def toAddressBytes (bytes : Bytes) : Option AddressBytes :=
  if h : bytes.length = 20 then some ⟨bytes, h⟩ else none

theorem toAddressBytes_toList (address : AddressBytes) :
    toAddressBytes address.toList = some address := by
  obtain ⟨bytes, h⟩ := address
  exact dif_pos h

namespace SequencerBlockHeader

variable [ext : External] [codec : TimeCodec]

/-- `SequencerBlockHeader::into_raw`. -/
def intoRaw (header : SequencerBlockHeader) : RawSequencerBlockHeader :=
  { chainId := header.chainId
    height := header.height
    time := some (codec.timeToRaw header.time)
    rollupTransactionsRoot := header.rollupTransactionsRoot.toList
    dataHash := header.dataHash.toList
    proposerAddress := header.proposerAddress.toList }

/-- A root of the header; the source has one error for both. -/
def readRoot (bytes : Bytes) : Except Report Bytes32 :=
  okOr (toBytes32 bytes)
    ["the rollup transaction root in the cometbft `block.data` field was expected to be 32 bytes " ++
      "long, but was actually `" ++ toString bytes.length ++ "`"]

/-- `SequencerBlockHeader::try_from_raw`. -/
def tryFromRaw (raw : RawSequencerBlockHeader) : Except Report SequencerBlockHeader := do
  if ¬ ext.validChainId raw.chainId then
    .error ["the chain ID in the raw protobuf sequencer block header was invalid"]
  else if maxHeight < raw.height then
    .error ["the height in the raw protobuf sequencer block header was invalid"]
  else
    let rawTime ← okOr raw.time ["the expected field in the raw source type was not set: `time`"]
    let time ← okOr (codec.timeFromRaw rawTime)
      ["failed to create a tendermint time from the raw protobuf time"]
    let rollupTransactionsRoot ← readRoot raw.rollupTransactionsRoot
    let dataHash ← readRoot raw.dataHash
    let proposerAddress ← okOr (toAddressBytes raw.proposerAddress)
      ["the proposer address in the raw protobuf sequencer block header was not 20 bytes long"]
    .ok
      { chainId := raw.chainId
        height := raw.height
        time := time
        rollupTransactionsRoot := rollupTransactionsRoot
        dataHash := dataHash
        proposerAddress := proposerAddress }

/-- The values that the types of the source admit: a chain id, a height and a time of CometBFT. -/
structure Valid (header : SequencerBlockHeader) : Prop where
  chainId : ext.validChainId header.chainId = true
  height : header.height ≤ maxHeight
  time : codec.timeFromRaw (codec.timeToRaw header.time) = some header.time

theorem tryFromRaw_intoRaw {header : SequencerBlockHeader} (h : header.Valid) :
    tryFromRaw header.intoRaw = .ok header := by
  have hroot (root : Bytes32) : readRoot root.toList = .ok root :=
    okOr_eq_ok.mpr (Sequencer.toBytes32_toList root)
  unfold tryFromRaw
  refine (if_neg (not_not_intro h.chainId)).trans ?_
  refine (if_neg (Nat.not_lt.mpr h.height)).trans ?_
  refine Codec.bind_eq_ok.mpr ⟨_, rfl, ?_⟩
  refine Codec.bind_eq_ok.mpr ⟨_, okOr_eq_ok.mpr h.time, ?_⟩
  refine Codec.bind_eq_ok.mpr ⟨_, hroot _, ?_⟩
  refine Codec.bind_eq_ok.mpr ⟨_, hroot _, ?_⟩
  exact Codec.bind_eq_ok.mpr ⟨_, okOr_eq_ok.mpr (toAddressBytes_toList _), rfl⟩

/-- A time that was read is one that can be written and read again. -/
def LawfulTimes : Prop :=
  ∀ (raw : RawTimestamp) (time : Time), codec.timeFromRaw raw = some time →
    codec.timeFromRaw (codec.timeToRaw time) = some time

theorem tryFromRaw_valid (htimes : LawfulTimes) {raw : RawSequencerBlockHeader}
    {header : SequencerBlockHeader} (h : tryFromRaw raw = .ok header) : header.Valid := by
  unfold tryFromRaw at h
  split_ifs at h with hchain hheight
  obtain ⟨rawTime, -, h⟩ := Codec.bind_eq_ok.mp h
  obtain ⟨time, htime, h⟩ := Codec.bind_eq_ok.mp h
  obtain ⟨transactionsRoot, -, h⟩ := Codec.bind_eq_ok.mp h
  obtain ⟨dataHash, -, h⟩ := Codec.bind_eq_ok.mp h
  obtain ⟨proposer, -, h⟩ := Codec.bind_eq_ok.mp h
  cases h
  exact ⟨hchain, Nat.le_of_not_lt hheight, htimes rawTime time (okOr_eq_ok.mp htime)⟩

end SequencerBlockHeader

/-! ## Inclusion in the data hash -/

section

variable [ext : External]

/-- `Proof::verify`, with a panic as a failure. -/
def ensureIncluded (proof : Merkle.Proof Bytes32) (leaf root : Bytes32) (e : Report) :
    Except Report Unit :=
  match proof.verify leaf.toList root with
  | none => .error unwrapPanic
  | some true => .ok ()
  | some false => .error e

theorem ensureIncluded_eq_ok {proof : Merkle.Proof Bytes32} {leaf root : Bytes32} {e : Report} :
    ensureIncluded proof leaf root e = .ok () ↔ proof.verify leaf.toList root = some true := by
  unfold ensureIncluded
  cases proof.verify leaf.toList root with
  | none => simp
  | some b => cases b <;> simp

/-- The data of the rollups of a block, in the order of the map. -/
def rollupDatasOf (txs : IndexMap RollupId RollupTransactions) : RollupDatas :=
  txs.entries.map fun e => (e.1, e.2.transactions)

/-! ## The extended commit info -/

/-- The raw form of `ExtendedCommitInfoWithProof`. -/
structure RawExtendedCommitInfoWithProof where
  extendedCommitInfo : Bytes
  proof : Option RawProof
  deriving DecidableEq

namespace ExtendedCommitInfoWithProof

/-- `ExtendedCommitInfoWithProof::into_raw`. -/
def intoRaw (info : ExtendedCommitInfoWithProof) : RawExtendedCommitInfoWithProof :=
  { extendedCommitInfo := info.encodedExtendedCommitInfo
    proof := some (intoRawProof info.proof) }

variable [codec : BlockCodec]

/-- Decodes the message and converts it. -/
def parse (encoded : Bytes) : Except Report ExtendedCommitInfoWithMapping := do
  let raw ← okOr (codec.decodeInfo encoded)
    ["failed decoding the extended commit info from the raw protobuf"]
  withContext
    "failed constructing the extended commit info with currency pair mapping from the raw protobuf"
    (ExtendedCommitInfoWithMapping.tryFromRaw raw)

/-- `ExtendedCommitInfoWithProof::try_from_raw`. -/
def tryFromRaw (raw : RawExtendedCommitInfoWithProof) (dataHash : Bytes32) :
    Except Report ExtendedCommitInfoWithProof := do
  let rawProof ← okOr raw.proof ["the extended commit info proof field was not set"]
  let proof ← withContext
    "failed to convert into native extended commit info proof from the raw protobuf"
    rawProof.tryIntoProof
  ensureIncluded proof (ext.sha256 raw.extendedCommitInfo) dataHash
    ["the extended commit info in the sequencer block was not included in the block's data hash"]
  let info ← parse raw.extendedCommitInfo
  .ok
    { extendedCommitInfo := info
      encodedExtendedCommitInfo := raw.extendedCommitInfo
      proof := proof }

/-- `ExtendedCommitInfoWithProof::unchecked_from_parts`, which panics on what it cannot parse. -/
def uncheckedFromParts (encoded : Bytes) (proof : Merkle.Proof Bytes32) :
    Except Report ExtendedCommitInfoWithProof := do
  let info ← withContext "called `Result::unwrap()` on an `Err` value" (parse encoded)
  .ok { extendedCommitInfo := info, encodedExtendedCommitInfo := encoded, proof := proof }

/-- What is held of an extended commit info: its parsed form, and its inclusion. -/
structure Verified (info : ExtendedCommitInfoWithProof) (dataHash : Bytes32) : Prop where
  parsed : parse info.encodedExtendedCommitInfo = .ok info.extendedCommitInfo
  included :
    info.proof.verify (ext.sha256 info.encodedExtendedCommitInfo).toList dataHash = some true

theorem uncheckedFromParts_of_verified {info : ExtendedCommitInfoWithProof} {dataHash : Bytes32}
    (h : info.Verified dataHash) :
    uncheckedFromParts info.encodedExtendedCommitInfo info.proof = .ok info :=
  Codec.bind_eq_ok.mpr ⟨_, withContext_eq_ok.mpr h.parsed, rfl⟩

theorem tryFromRaw_verified {raw : RawExtendedCommitInfoWithProof} {dataHash : Bytes32}
    {info : ExtendedCommitInfoWithProof} (h : tryFromRaw raw dataHash = .ok info) :
    info.Verified dataHash := by
  unfold tryFromRaw at h
  obtain ⟨rawProof, -, h⟩ := Codec.bind_eq_ok.mp h
  obtain ⟨proof, -, h⟩ := Codec.bind_eq_ok.mp h
  obtain ⟨⟨⟩, hincluded, h⟩ := Codec.bind_eq_ok.mp h
  obtain ⟨parsed, hparsed, h⟩ := Codec.bind_eq_ok.mp h
  cases h
  exact ⟨hparsed, ensureIncluded_eq_ok.mp hincluded⟩

theorem tryFromRaw_inTree {raw : RawExtendedCommitInfoWithProof} {dataHash : Bytes32}
    {info : ExtendedCommitInfoWithProof}
    (htyped : ∀ proof, raw.proof = some proof → proof.Typed)
    (h : tryFromRaw raw dataHash = .ok info) : ProofInTree info.proof := by
  unfold tryFromRaw at h
  obtain ⟨rawProof, hraw, h⟩ := Codec.bind_eq_ok.mp h
  obtain ⟨proof, hproof, h⟩ := Codec.bind_eq_ok.mp h
  obtain ⟨⟨⟩, -, h⟩ := Codec.bind_eq_ok.mp h
  obtain ⟨parsed, -, h⟩ := Codec.bind_eq_ok.mp h
  cases h
  exact RawProof.tryIntoProof_inTree (htyped rawProof (okOr_eq_ok.mp hraw))
    (withContext_eq_ok.mp hproof)

theorem tryFromRaw_intoRaw {info : ExtendedCommitInfoWithProof} {dataHash : Bytes32}
    (hproof : ProofInTree info.proof) (h : info.Verified dataHash) :
    tryFromRaw info.intoRaw dataHash = .ok info := by
  unfold tryFromRaw
  refine Codec.bind_eq_ok.mpr ⟨_, rfl, ?_⟩
  refine Codec.bind_eq_ok.mpr ⟨_, withContext_eq_ok.mpr (RawProof.tryIntoProof_intoRaw hproof), ?_⟩
  refine Codec.bind_eq_ok.mpr ⟨_, ensureIncluded_eq_ok.mpr h.included, ?_⟩
  exact Codec.bind_eq_ok.mpr ⟨_, h.parsed, rfl⟩

end ExtendedCommitInfoWithProof

end

/-! ## Blocks -/

/-- `SequencerBlock`. -/
structure SequencerBlock where
  blockHash : BlockHash
  header : SequencerBlockHeader
  rollupTransactions : IndexMap RollupId RollupTransactions
  rollupTransactionsProof : Merkle.Proof Bytes32
  rollupIdsProof : Merkle.Proof Bytes32
  upgradeChangeHashes : List Bytes32
  extendedCommitInfoWithProof : Option ExtendedCommitInfoWithProof

/-- The raw form of `SequencerBlock`. -/
structure RawSequencerBlock where
  blockHash : Bytes
  header : Option RawSequencerBlockHeader
  rollupTransactions : List RawRollupTransactions
  rollupTransactionsProof : Option RawProof
  rollupIdsProof : Option RawProof
  upgradeChangeHashes : List Bytes
  extendedCommitInfoWithProof : Option RawExtendedCommitInfoWithProof
  deriving DecidableEq

/-- The numbers of a raw block's proofs are of their type. -/
structure RawSequencerBlock.Typed (raw : RawSequencerBlock) : Prop where
  transactionsProof : ∀ proof, raw.rollupTransactionsProof = some proof → proof.Typed
  idsProof : ∀ proof, raw.rollupIdsProof = some proof → proof.Typed
  entries : ∀ txs ∈ raw.rollupTransactions, ∀ proof, txs.proof = some proof → proof.Typed
  infoProof : ∀ info, raw.extendedCommitInfoWithProof = some info →
    ∀ proof, info.proof = some proof → proof.Typed

/-- `ChangeHash::try_from`, for each of a list. -/
def readChangeHashes : List Bytes → Except Report (List Bytes32)
  | [] => .ok []
  | bytes :: rest => do
    let hash ← okOr (toBytes32 bytes)
      ["upgrade change hash must be 32 bytes, but " ++ toString bytes.length ++ " bytes provided"]
    let hashes ← readChangeHashes rest
    .ok (hash :: hashes)

theorem readChangeHashes_toList (hashes : List Bytes32) :
    readChangeHashes (hashes.map List.Vector.toList) = .ok hashes := by
  induction hashes with
  | nil => rfl
  | cons hash hashes ih =>
    rw [List.map_cons, readChangeHashes]
    refine Codec.bind_eq_ok.mpr ⟨_, okOr_eq_ok.mpr (Sequencer.toBytes32_toList hash), ?_⟩
    exact Codec.bind_eq_ok.mpr ⟨_, ih, rfl⟩

theorem readChangeHashes_eq_ok {raws : List Bytes} {hashes : List Bytes32} :
    readChangeHashes raws = .ok hashes ↔ raws = hashes.map List.Vector.toList := by
  constructor
  · intro h
    induction raws generalizing hashes with
    | nil =>
      cases h
      rfl
    | cons raw raws ih =>
      obtain ⟨hash, hhash, h⟩ := Codec.bind_eq_ok.mp h
      obtain ⟨rest, hrest, h⟩ := Codec.bind_eq_ok.mp h
      cases h
      rw [List.map_cons, Sequencer.toBytes32_eq_some.mp (okOr_eq_ok.mp hhash), ih hrest]
  · rintro rfl
    exact readChangeHashes_toList hashes

/-- The conversion of the rollup transactions, each with its id. -/
def readRollupTransactions :
    List RawRollupTransactions → Except Report (List (RollupId × RollupTransactions))
  | [] => .ok []
  | raw :: rest => do
    let txs ← RollupTransactions.tryFromRaw raw
    let entries ← readRollupTransactions rest
    .ok ((txs.rollupId, txs) :: entries)

theorem readRollupTransactions_intoRaw {entries : List (RollupId × RollupTransactions)}
    (hid : ∀ e ∈ entries, e.1 = e.2.rollupId) (hproof : ∀ e ∈ entries, ProofInTree e.2.proof) :
    readRollupTransactions (entries.map fun e => e.2.intoRaw) = .ok entries := by
  induction entries with
  | nil => rfl
  | cons e entries ih =>
    rw [List.map_cons, readRollupTransactions]
    refine Codec.bind_eq_ok.mpr ⟨_, RollupTransactions.tryFromRaw_intoRaw
      (hproof e (List.mem_cons_self ..)), ?_⟩
    refine Codec.bind_eq_ok.mpr ⟨_, ih (fun d hd => hid d (List.mem_cons_of_mem _ hd))
      (fun d hd => hproof d (List.mem_cons_of_mem _ hd)), ?_⟩
    rw [← hid e (List.mem_cons_self ..)]

theorem readRollupTransactions_inTree {raws : List RawRollupTransactions}
    {entries : List (RollupId × RollupTransactions)}
    (htyped : ∀ raw ∈ raws, ∀ proof, raw.proof = some proof → proof.Typed)
    (h : readRollupTransactions raws = .ok entries) :
    ∀ e ∈ entries, e.1 = e.2.rollupId ∧ ProofInTree e.2.proof := by
  induction raws generalizing entries with
  | nil =>
    cases h
    intro e he
    cases he
  | cons raw raws ih =>
    rw [readRollupTransactions] at h
    obtain ⟨txs, htxs, h⟩ := Codec.bind_eq_ok.mp h
    obtain ⟨rest, hrest, h⟩ := Codec.bind_eq_ok.mp h
    cases h
    intro e he
    rcases List.mem_cons.mp he with rfl | he
    · exact ⟨rfl, RollupTransactions.tryFromRaw_inTree (htyped raw (List.mem_cons_self ..)) htxs⟩
    · exact ih (fun r hr => htyped r (List.mem_cons_of_mem _ hr)) hrest e he

namespace SequencerBlock

variable [ext : External] [times : TimeCodec] [codec : BlockCodec]

/-- `SequencerBlock::into_raw`. -/
def intoRaw (block : SequencerBlock) : RawSequencerBlock :=
  { blockHash := block.blockHash.toList
    header := some block.header.intoRaw
    rollupTransactions := block.rollupTransactions.entries.map fun e => e.2.intoRaw
    rollupTransactionsProof := some (intoRawProof block.rollupTransactionsProof)
    rollupIdsProof := some (intoRawProof block.rollupIdsProof)
    upgradeChangeHashes := block.upgradeChangeHashes.map List.Vector.toList
    extendedCommitInfoWithProof :=
      block.extendedCommitInfoWithProof.map ExtendedCommitInfoWithProof.intoRaw }

/-- The extended commit info of a raw block, if it has one. -/
def readExtendedCommitInfo (raw : Option RawExtendedCommitInfoWithProof) (dataHash : Bytes32) :
    Except Report (Option ExtendedCommitInfoWithProof) :=
  match raw with
  | none => .ok none
  | some raw =>
    match ExtendedCommitInfoWithProof.tryFromRaw raw dataHash with
    | .ok info => .ok (some info)
    | .error e => .error ("extended commit info or proof error" :: e)

/-- `SequencerBlock::try_from_raw`. -/
def tryFromRaw (raw : RawSequencerBlock) : Except Report SequencerBlock := do
  let blockHash ← okOr (toBytes32 raw.blockHash)
    ["the block hash was expected to be 32 bytes long, but was actually `" ++
      toString raw.blockHash.length ++ "`"]
  let rawTransactionsProof ← okOr raw.rollupTransactionsProof
    ["the expected field in the raw source type was not set: `rollup_transactions_proof`"]
  let rollupTransactionsProof ← withContext
    "failed constructing a transaction proof from the raw protobuf transaction proof"
    rawTransactionsProof.tryIntoProof
  let rawIdsProof ← okOr raw.rollupIdsProof
    ["the expected field in the raw source type was not set: `rollup_ids_proof`"]
  let rollupIdsProof ← withContext
    "failed constructing a rollup ID proof from the raw protobuf rollup ID proof"
    rawIdsProof.tryIntoProof
  let rawHeader ← okOr raw.header
    ["the expected field in the raw source type was not set: `header`"]
  let header ← withContext
    "failed constructing a sequencer block header from the raw protobuf header"
    (SequencerBlockHeader.tryFromRaw rawHeader)
  let entries ← withContext
    "failed parsing a raw protobuf rollup transaction because it contained an invalid rollup ID"
    (readRollupTransactions raw.rollupTransactions)
  let rollupTransactions := IndexMap.collect entries
  ensureIncluded rollupTransactionsProof (ext.sha256 header.rollupTransactionsRoot.toList)
    header.dataHash
    ["the rollup transactions root in the header did not verify against `data_hash` given the " ++
      "rollup transactions proof"]
  -- `are_rollup_txs_included`
  ensureIncluded rollupTransactionsProof
    (ext.sha256 (Sequencer.rollupTransactionsRoot (rollupDatasOf rollupTransactions)).toList)
    header.dataHash
    ["the Merkle Tree Hash derived from the rollup transactions recorded in the raw protobuf " ++
      "sequencer block could not be verified against their proof and the block's data hash"]
  -- `are_rollup_ids_included`
  ensureIncluded rollupIdsProof
    (ext.sha256 (Sequencer.rollupIdsRoot (rollupDatasOf rollupTransactions)).toList)
    header.dataHash
    ["the rollup IDs root constructed from the block's rollup IDs did not verify against " ++
      "`data_hash` given the rollup IDs proof"]
  let upgradeChangeHashes ← readChangeHashes raw.upgradeChangeHashes
  let extendedCommitInfoWithProof ←
    readExtendedCommitInfo raw.extendedCommitInfoWithProof header.dataHash
  .ok
    { blockHash := blockHash
      header := header
      rollupTransactions := rollupTransactions
      rollupTransactionsProof := rollupTransactionsProof
      rollupIdsProof := rollupIdsProof
      upgradeChangeHashes := upgradeChangeHashes
      extendedCommitInfoWithProof := extendedCommitInfoWithProof }

/-- A block that was read, by its parts. -/
structure ReadFrom (raw : RawSequencerBlock) (block : SequencerBlock) : Prop where
  blockHash : toBytes32 raw.blockHash = some block.blockHash
  transactionsProof : ∃ rawProof, raw.rollupTransactionsProof = some rawProof ∧
    rawProof.tryIntoProof = .ok block.rollupTransactionsProof
  idsProof : ∃ rawProof, raw.rollupIdsProof = some rawProof ∧
    rawProof.tryIntoProof = .ok block.rollupIdsProof
  header : ∃ rawHeader, raw.header = some rawHeader ∧
    SequencerBlockHeader.tryFromRaw rawHeader = .ok block.header
  entries : ∃ entries, readRollupTransactions raw.rollupTransactions = .ok entries ∧
    IndexMap.collect entries = block.rollupTransactions
  root : block.rollupTransactionsProof.verify
    (ext.sha256 block.header.rollupTransactionsRoot.toList).toList block.header.dataHash = some true
  transactions : block.rollupTransactionsProof.verify
    (ext.sha256 (Sequencer.rollupTransactionsRoot
      (rollupDatasOf block.rollupTransactions)).toList).toList block.header.dataHash = some true
  ids : block.rollupIdsProof.verify
    (ext.sha256 (Sequencer.rollupIdsRoot
      (rollupDatasOf block.rollupTransactions)).toList).toList block.header.dataHash = some true
  hashes : readChangeHashes raw.upgradeChangeHashes = .ok block.upgradeChangeHashes
  info : readExtendedCommitInfo raw.extendedCommitInfoWithProof block.header.dataHash =
    .ok block.extendedCommitInfoWithProof

theorem tryFromRaw_eq_ok {raw : RawSequencerBlock} {block : SequencerBlock} :
    tryFromRaw raw = .ok block ↔ block.ReadFrom raw := by
  constructor
  · intro h
    unfold tryFromRaw at h
    obtain ⟨blockHash, hblockHash, h⟩ := Codec.bind_eq_ok.mp h
    obtain ⟨rawTransactionsProof, hrawTransactionsProof, h⟩ := Codec.bind_eq_ok.mp h
    obtain ⟨transactionsProof, htransactionsProof, h⟩ := Codec.bind_eq_ok.mp h
    obtain ⟨rawIdsProof, hrawIdsProof, h⟩ := Codec.bind_eq_ok.mp h
    obtain ⟨idsProof, hidsProof, h⟩ := Codec.bind_eq_ok.mp h
    obtain ⟨rawHeader, hrawHeader, h⟩ := Codec.bind_eq_ok.mp h
    obtain ⟨header, hheader, h⟩ := Codec.bind_eq_ok.mp h
    obtain ⟨entries, hentries, h⟩ := Codec.bind_eq_ok.mp h
    obtain ⟨⟨⟩, hroot, h⟩ := Codec.bind_eq_ok.mp h
    obtain ⟨⟨⟩, htransactions, h⟩ := Codec.bind_eq_ok.mp h
    obtain ⟨⟨⟩, hids, h⟩ := Codec.bind_eq_ok.mp h
    obtain ⟨hashes, hhashes, h⟩ := Codec.bind_eq_ok.mp h
    obtain ⟨info, hinfo, h⟩ := Codec.bind_eq_ok.mp h
    cases h
    exact
      { blockHash := okOr_eq_ok.mp hblockHash
        transactionsProof :=
          ⟨_, okOr_eq_ok.mp hrawTransactionsProof, withContext_eq_ok.mp htransactionsProof⟩
        idsProof := ⟨_, okOr_eq_ok.mp hrawIdsProof, withContext_eq_ok.mp hidsProof⟩
        header := ⟨_, okOr_eq_ok.mp hrawHeader, withContext_eq_ok.mp hheader⟩
        entries := ⟨_, withContext_eq_ok.mp hentries, rfl⟩
        root := ensureIncluded_eq_ok.mp hroot
        transactions := ensureIncluded_eq_ok.mp htransactions
        ids := ensureIncluded_eq_ok.mp hids
        hashes := hhashes
        info := hinfo }
  · rintro ⟨hblockHash, ⟨rawTransactionsProof, hrawTransactionsProof, htransactionsProof⟩,
      ⟨rawIdsProof, hrawIdsProof, hidsProof⟩, ⟨rawHeader, hrawHeader, hheader⟩,
      ⟨entries, hentries, hcollect⟩, hroot, htransactions, hids, hhashes, hinfo⟩
    unfold tryFromRaw
    refine Codec.bind_eq_ok.mpr ⟨_, okOr_eq_ok.mpr hblockHash, ?_⟩
    refine Codec.bind_eq_ok.mpr ⟨_, okOr_eq_ok.mpr hrawTransactionsProof, ?_⟩
    refine Codec.bind_eq_ok.mpr ⟨_, withContext_eq_ok.mpr htransactionsProof, ?_⟩
    refine Codec.bind_eq_ok.mpr ⟨_, okOr_eq_ok.mpr hrawIdsProof, ?_⟩
    refine Codec.bind_eq_ok.mpr ⟨_, withContext_eq_ok.mpr hidsProof, ?_⟩
    refine Codec.bind_eq_ok.mpr ⟨_, okOr_eq_ok.mpr hrawHeader, ?_⟩
    refine Codec.bind_eq_ok.mpr ⟨_, withContext_eq_ok.mpr hheader, ?_⟩
    refine Codec.bind_eq_ok.mpr ⟨_, withContext_eq_ok.mpr hentries, ?_⟩
    rw [hcollect]
    refine Codec.bind_eq_ok.mpr ⟨_, ensureIncluded_eq_ok.mpr hroot, ?_⟩
    refine Codec.bind_eq_ok.mpr ⟨_, ensureIncluded_eq_ok.mpr htransactions, ?_⟩
    refine Codec.bind_eq_ok.mpr ⟨_, ensureIncluded_eq_ok.mpr hids, ?_⟩
    refine Codec.bind_eq_ok.mpr ⟨_, hhashes, ?_⟩
    exact Codec.bind_eq_ok.mpr ⟨_, hinfo, rfl⟩

omit times in
theorem readExtendedCommitInfo_cases {raw : Option RawExtendedCommitInfoWithProof}
    {dataHash : Bytes32} {info : Option ExtendedCommitInfoWithProof}
    (h : readExtendedCommitInfo raw dataHash = .ok info) :
    (raw = none ∧ info = none) ∨ ∃ rawInfo i, raw = some rawInfo ∧ info = some i ∧
      ExtendedCommitInfoWithProof.tryFromRaw rawInfo dataHash = .ok i := by
  cases raw with
  | none =>
    cases h
    exact Or.inl ⟨rfl, rfl⟩
  | some rawInfo =>
    unfold readExtendedCommitInfo at h
    dsimp only at h
    cases htry : ExtendedCommitInfoWithProof.tryFromRaw rawInfo dataHash with
    | error e =>
      rw [htry] at h
      cases h
    | ok i =>
      rw [htry] at h
      cases h
      exact Or.inr ⟨rawInfo, i, rfl, rfl, htry⟩

omit times in
theorem readExtendedCommitInfo_eq_some {raw : Option RawExtendedCommitInfoWithProof}
    {dataHash : Bytes32} {info : ExtendedCommitInfoWithProof}
    (h : readExtendedCommitInfo raw dataHash = .ok (some info)) :
    ∃ rawInfo, raw = some rawInfo ∧
      ExtendedCommitInfoWithProof.tryFromRaw rawInfo dataHash = .ok info := by
  rcases readExtendedCommitInfo_cases h with ⟨-, hnone⟩ | ⟨rawInfo, i, hraw, hi, htry⟩
  · cases hnone
  · cases hi
    exact ⟨rawInfo, hraw, htry⟩

omit times in
theorem isSome_of_readExtendedCommitInfo {raw : Option RawExtendedCommitInfoWithProof}
    {dataHash : Bytes32} {info : Option ExtendedCommitInfoWithProof}
    (h : readExtendedCommitInfo raw dataHash = .ok info) : raw.isSome = info.isSome := by
  rcases readExtendedCommitInfo_cases h with ⟨rfl, rfl⟩ | ⟨rawInfo, i, rfl, rfl, -⟩
  · rfl
  · rfl

omit times in
theorem readExtendedCommitInfo_intoRaw {info : Option ExtendedCommitInfoWithProof}
    {dataHash : Bytes32}
    (h : ∀ i, info = some i → ProofInTree i.proof ∧ i.Verified dataHash) :
    readExtendedCommitInfo (info.map ExtendedCommitInfoWithProof.intoRaw) dataHash = .ok info := by
  cases info with
  | none => rfl
  | some i =>
    obtain ⟨hproof, hverified⟩ := h i rfl
    rw [Option.map_some, readExtendedCommitInfo,
      ExtendedCommitInfoWithProof.tryFromRaw_intoRaw hproof hverified]

/-- What a block that was accepted is known to satisfy against its own data hash. -/
structure Verified (block : SequencerBlock) : Prop where
  root : block.rollupTransactionsProof.verify
    (ext.sha256 block.header.rollupTransactionsRoot.toList).toList block.header.dataHash = some true
  transactions : block.rollupTransactionsProof.verify
    (ext.sha256 (Sequencer.rollupTransactionsRoot
      (rollupDatasOf block.rollupTransactions)).toList).toList block.header.dataHash = some true
  ids : block.rollupIdsProof.verify
    (ext.sha256 (Sequencer.rollupIdsRoot
      (rollupDatasOf block.rollupTransactions)).toList).toList block.header.dataHash = some true
  extendedCommitInfo : ∀ info, block.extendedCommitInfoWithProof = some info →
    info.Verified block.header.dataHash

theorem tryFromRaw_verified {raw : RawSequencerBlock} {block : SequencerBlock}
    (h : tryFromRaw raw = .ok block) : block.Verified := by
  have hread := tryFromRaw_eq_ok.mp h
  refine ⟨hread.root, hread.transactions, hread.ids, ?_⟩
  intro info hinfo
  obtain ⟨rawInfo, -, htry⟩ := readExtendedCommitInfo_eq_some (hread.info.trans (by rw [hinfo]))
  exact ExtendedCommitInfoWithProof.tryFromRaw_verified htry

/-- What a block satisfies that its own raw form can be read back from. -/
structure WellFormed (block : SequencerBlock) : Prop extends block.Verified where
  header : block.header.Valid
  transactionsProof : ProofInTree block.rollupTransactionsProof
  idsProof : ProofInTree block.rollupIdsProof
  entries : ∀ e ∈ block.rollupTransactions.entries, e.1 = e.2.rollupId ∧ ProofInTree e.2.proof
  infoProof : ∀ info, block.extendedCommitInfoWithProof = some info → ProofInTree info.proof

theorem tryFromRaw_wellFormed (htimes : SequencerBlockHeader.LawfulTimes)
    {raw : RawSequencerBlock} {block : SequencerBlock} (htyped : raw.Typed)
    (h : tryFromRaw raw = .ok block) : block.WellFormed := by
  have hread := tryFromRaw_eq_ok.mp h
  constructor
  · exact tryFromRaw_verified h
  · obtain ⟨rawHeader, -, hheader⟩ := hread.header
    exact SequencerBlockHeader.tryFromRaw_valid htimes hheader
  · obtain ⟨rawProof, hraw, hproof⟩ := hread.transactionsProof
    exact RawProof.tryIntoProof_inTree (htyped.transactionsProof rawProof hraw) hproof
  · obtain ⟨rawProof, hraw, hproof⟩ := hread.idsProof
    exact RawProof.tryIntoProof_inTree (htyped.idsProof rawProof hraw) hproof
  · obtain ⟨entries, hentries, heq⟩ := hread.entries
    intro e he
    rw [← heq] at he
    exact readRollupTransactions_inTree htyped.entries hentries e (IndexMap.mem_of_mem_collect he)
  · intro info hinfo
    obtain ⟨rawInfo, hraw, htry⟩ := readExtendedCommitInfo_eq_some (hread.info.trans (by rw [hinfo]))
    exact ExtendedCommitInfoWithProof.tryFromRaw_inTree (htyped.infoProof rawInfo hraw) htry

/-- The message of a block has numbers of their type. -/
theorem typed_intoRaw {block : SequencerBlock} (h : block.WellFormed) : block.intoRaw.Typed := by
  constructor
  · rintro _ ⟨⟩
    exact h.transactionsProof.typed_intoRaw
  · rintro _ ⟨⟩
    exact h.idsProof.typed_intoRaw
  · intro txs htxs
    obtain ⟨e, he, rfl⟩ := List.mem_map.mp htxs
    rintro _ ⟨⟩
    exact (h.entries e he).2.typed_intoRaw
  · intro raw hraw
    obtain ⟨info, hinfo, rfl⟩ := Option.map_eq_some_iff.mp hraw
    rintro _ ⟨⟩
    exact (h.infoProof info hinfo).typed_intoRaw

theorem tryFromRaw_intoRaw {block : SequencerBlock} (h : block.WellFormed) :
    tryFromRaw block.intoRaw = .ok block :=
  tryFromRaw_eq_ok.mpr
    { blockHash := Sequencer.toBytes32_toList _
      transactionsProof := ⟨_, rfl, RawProof.tryIntoProof_intoRaw h.transactionsProof⟩
      idsProof := ⟨_, rfl, RawProof.tryIntoProof_intoRaw h.idsProof⟩
      header := ⟨_, rfl, SequencerBlockHeader.tryFromRaw_intoRaw h.header⟩
      entries := ⟨_, readRollupTransactions_intoRaw (fun e he => (h.entries e he).1)
        (fun e he => (h.entries e he).2), IndexMap.collect_entries _⟩
      root := h.root
      transactions := h.transactions
      ids := h.ids
      hashes := readChangeHashes_toList _
      info := readExtendedCommitInfo_intoRaw fun info hinfo =>
        ⟨h.infoProof info hinfo, h.extendedCommitInfo info hinfo⟩ }

end SequencerBlock

end Astria.Core
