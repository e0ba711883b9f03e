import Astria.Sequencer.Grpc
import Astria.Sequencer.Grpc.Storage
import Astria.Lib.Exec

/-!
# The block store

How a sequencer block is scattered over the keys of the nonverifiable state and put together again
(`astria-sequencer/src/grpc/state_ext.rs`).

A put stops at the first value that cannot be serialized, and what it wrote before stays.  An empty list
of upgrade change hashes and an absent commit info are not written, and their keys are not cleared: a
block is read back with what an earlier block of its hash left there.

Results:
* `putSequencerBlock_eq`: a put writes a list of entries, one after the other;
* `entries_nodup`: no two of them have the same key.
-/

namespace Astria.Grpc

open Astria.Core Astria.Lib
open Astria.Sequencer (BlockCodec BlockHash External wrapErr)

/-! ## The raw store -/

/-- The nonverifiable part of the state. -/
structure RawStore where
  get : String → Option Bytes

namespace RawStore

def empty : RawStore := { get := fun _ => none }

/-- `nonverifiable_put_raw`. -/
def nonverifiablePutRaw (store : RawStore) (key : String) (bytes : Bytes) : RawStore :=
  { get := Function.update store.get key (some bytes) }

end RawStore

/-! ## The entries of a block -/

/-- A value, its key, and the context of a failure to serialize it. -/
structure Entry where
  key : Key
  value : Value
  context : String

/-- The entries that every block has, in the order in which they are written. -/
def requiredEntries (block : SequencerBlock) : List Entry :=
  [⟨.blockHash block.header.height, .blockHash block.blockHash, "failed to serialize block hash"⟩,
    ⟨.rollupIds block.blockHash, .rollupIds block.rollupTransactions.keys,
      "failed to serialize rollup ids"⟩,
    ⟨.header block.blockHash, .sequencerBlockHeader block.header,
      "failed to serialize sequencer block header"⟩] ++
  block.rollupTransactions.entries.map
    (fun e => ⟨.rollupData block.blockHash e.1, .rollupTransactions e.2,
      "failed to serialize rollup transactions"⟩) ++
  [⟨.rollupTransactionsProof block.blockHash, .proof block.rollupTransactionsProof,
      "failed to serialize rollups transactions proof"⟩,
    ⟨.rollupIdsProof block.blockHash, .proof block.rollupIdsProof,
      "failed to serialize rollup ids proof"⟩]

/-- The entry of the upgrade change hashes, if there are any. -/
def upgradeEntries (block : SequencerBlock) : List Entry :=
  if block.upgradeChangeHashes ≠ [] then
    [⟨.upgradeChangeHashes block.blockHash, .upgradeChangeHashes block.upgradeChangeHashes,
      "failed to serialize upgrade change hashes"⟩]
  else []

/-- The two entries of the extended commit info, if there is one. -/
def infoEntries (block : SequencerBlock) : List Entry :=
  match block.extendedCommitInfoWithProof with
  | some info =>
    [⟨.extendedCommitInfo block.blockHash, .extendedCommitInfo info.encodedExtendedCommitInfo,
        "failed to serialize extended commit info"⟩,
      ⟨.extendedCommitInfoProof block.blockHash, .proof info.proof,
        "failed to serialize extended commit info proof"⟩]
  | none => []

def entries (block : SequencerBlock) : List Entry :=
  requiredEntries block ++ (upgradeEntries block ++ infoEntries block)

/-- No two entries of a block have the same key. -/
theorem entries_nodup (block : SequencerBlock) : ((entries block).map Entry.key).Nodup := by
  have hdata : (block.rollupTransactions.entries.map fun e =>
      Key.rollupData block.blockHash e.1).Nodup := by
    have hkeys := block.rollupTransactions.nodup.map
      (f := Key.rollupData block.blockHash) fun a b h => (Key.rollupData.inj h).2
    rwa [List.map_map] at hkeys
  unfold entries requiredEntries upgradeEntries infoEntries
  split_ifs with hhashes
  · cases block.extendedCommitInfoWithProof <;>
      simp [List.nodup_append, Function.comp_def, hdata] <;>
      rintro _ id txs - rfl <;>
      simp
  · cases block.extendedCommitInfoWithProof <;>
      simp [List.nodup_append, Function.comp_def, hdata] <;>
      rintro _ id txs - rfl <;>
      simp

section

variable [ext : External] [times : StoredTimes]

/-! ## Writing a block -/

/-- Serializes a value and writes it. -/
def putValue (context key : String) (value : Value) : Exec Report RawStore Unit := do
  let bytes ← wrapErr context
    (Exec.require (Format.storedValue.toVec value) ["failed to serialize stored value"])
  Exec.writes fun store => store.nonverifiablePutRaw key bytes

def putBlockHash (height : ℕ) (hash : BlockHash) : Exec Report RawStore Unit :=
  putValue "failed to serialize block hash" (blockHashByHeight height) (.blockHash hash)

def putRollupIds (hash : BlockHash) (ids : List RollupId) : Exec Report RawStore Unit :=
  putValue "failed to serialize rollup ids" (rollupIdsByHash hash) (.rollupIds ids)

def putBlockHeader (hash : BlockHash) (header : SequencerBlockHeader) : Exec Report RawStore Unit :=
  putValue "failed to serialize sequencer block header" (sequencerBlockHeaderByHash hash)
    (.sequencerBlockHeader header)

def putRollupsTransactions (hash : BlockHash) (entries : List (RollupId × RollupTransactions)) :
    Exec Report RawStore Unit :=
  Exec.forEach entries fun e =>
    putValue "failed to serialize rollup transactions" (rollupDataByHashAndRollupId hash e.1)
      (.rollupTransactions e.2)

def putRollupsTransactionsProof (hash : BlockHash) (proof : Merkle.Proof Bytes32) :
    Exec Report RawStore Unit :=
  putValue "failed to serialize rollups transactions proof" (rollupTransactionsProofByHash hash)
    (.proof proof)

def putRollupIdsProof (hash : BlockHash) (proof : Merkle.Proof Bytes32) : Exec Report RawStore Unit :=
  putValue "failed to serialize rollup ids proof" (rollupIdsProofByHash hash) (.proof proof)

def putUpgradeChangeHashes (hash : BlockHash) (hashes : List Bytes32) : Exec Report RawStore Unit :=
  putValue "failed to serialize upgrade change hashes" (upgradeChangeHashesByHash hash)
    (.upgradeChangeHashes hashes)

def putExtendedCommitInfo (hash : BlockHash) (info : Bytes) : Exec Report RawStore Unit :=
  putValue "failed to serialize extended commit info" (extendedCommitInfoByHash hash)
    (.extendedCommitInfo info)

def putExtendedCommitInfoProof (hash : BlockHash) (proof : Merkle.Proof Bytes32) :
    Exec Report RawStore Unit :=
  putValue "failed to serialize extended commit info proof" (extendedCommitInfoProofByHash hash)
    (.proof proof)

def putSequencerBlock (block : SequencerBlock) : Exec Report RawStore Unit := do
  let hash := block.blockHash
  putBlockHash block.header.height hash
  putRollupIds hash block.rollupTransactions.keys
  putBlockHeader hash block.header
  putRollupsTransactions hash block.rollupTransactions.entries
  putRollupsTransactionsProof hash block.rollupTransactionsProof
  putRollupIdsProof hash block.rollupIdsProof
  if block.upgradeChangeHashes ≠ [] then putUpgradeChangeHashes hash block.upgradeChangeHashes
  else pure ()
  match block.extendedCommitInfoWithProof with
  | some info => do
    putExtendedCommitInfo hash info.encodedExtendedCommitInfo
    putExtendedCommitInfoProof hash info.proof
  | none => pure ()

def putEntry (entry : Entry) : Exec Report RawStore Unit :=
  putValue entry.context entry.key.text entry.value

theorem putSequencerBlock_eq (block : SequencerBlock) :
    putSequencerBlock block = Exec.forEach (entries block) putEntry := by
  unfold putSequencerBlock entries requiredEntries upgradeEntries infoEntries
  split_ifs with hhashes
  · cases block.extendedCommitInfoWithProof <;>
      simp only [Exec.forEach_append, Exec.forEach_map, Exec.forEach, bind_assoc, bind_pure_unit] <;>
      rfl
  · cases block.extendedCommitInfoWithProof <;>
      simp only [Exec.forEach_append, Exec.forEach_map, Exec.forEach, bind_assoc, pure_bind,
        bind_pure_unit] <;>
      rfl

/-- A sequence of puts, each of which may fail. -/
def putAll (blocks : List SequencerBlock) (store : RawStore) : RawStore :=
  blocks.foldl (fun store block => Exec.final (putSequencerBlock block store)) store

/-! ## Reading a block -/

/-- What is stored under a key, if anything is. -/
def getValue {α : Type} (store : RawStore) (key : String) (tryInto : Value → Except Report α)
    (invalid : String) : Except Report (Option α) :=
  match store.get key with
  | none => .ok none
  | some bytes =>
    withContext invalid do
      let value ← okOr (Format.storedValue.fromSlice bytes) ["failed to deserialize stored value"]
      let a ← tryInto value
      .ok (some a)

/-- What is stored under a key, which has to be set. -/
def getRequired {α : Type} (store : RawStore) (key : String) (tryInto : Value → Except Report α)
    (invalid notFound : String) : Except Report α := do
  let found ← getValue store key tryInto invalid
  okOr found [notFound]

def getBlockHashByHeight (store : RawStore) (height : ℕ) : Except Report BlockHash :=
  getRequired store (blockHashByHeight height) Value.tryIntoBlockHash "invalid block hash bytes"
    "block hash not found for given height"

def getSequencerBlockHeaderByHash (store : RawStore) (hash : BlockHash) :
    Except Report SequencerBlockHeader :=
  getRequired store (sequencerBlockHeaderByHash hash) Value.tryIntoSequencerBlockHeader
    "invalid sequencer block header bytes" "header not found for given block hash"

def getRollupIdsByBlockHash (store : RawStore) (hash : BlockHash) : Except Report (List RollupId) :=
  getRequired store (rollupIdsByHash hash) Value.tryIntoRollupIds "invalid rollup ids bytes"
    "rollup IDs not found for given block hash"

def getRollupData (store : RawStore) (hash : BlockHash) (id : RollupId) :
    Except Report RollupTransactions :=
  getRequired store (rollupDataByHashAndRollupId hash id) Value.tryIntoRollupTransactions
    "invalid rollup transactions bytes"
    "rollup transactions not found for given block hash and rollup ID"

def getRollupTransactionsProofByBlockHash (store : RawStore) (hash : BlockHash) :
    Except Report (Merkle.Proof Bytes32) :=
  getRequired store (rollupTransactionsProofByHash hash) Value.tryIntoProof
    "invalid rollup transactions proof bytes"
    "rollup transactions proof not found for given block hash"

def getRollupIdsProofByBlockHash (store : RawStore) (hash : BlockHash) :
    Except Report (Merkle.Proof Bytes32) :=
  getRequired store (rollupIdsProofByHash hash) Value.tryIntoProof "invalid rollup IDs proof bytes"
    "rollup IDs proof not found for given block hash"

def getUpgradeChangeHashes (store : RawStore) (hash : BlockHash) : Except Report (List Bytes32) := do
  let found ← getValue store (upgradeChangeHashesByHash hash) Value.tryIntoUpgradeChangeHashes
    "invalid upgrade change hashes bytes"
  .ok (found.getD [])

def getExtendedCommitInfo (store : RawStore) (hash : BlockHash) : Except Report (Option Bytes) :=
  getValue store (extendedCommitInfoByHash hash) Value.tryIntoExtendedCommitInfo
    "invalid extended commit info bytes"

def getExtendedCommitInfoProof (store : RawStore) (hash : BlockHash) :
    Except Report (Option (Merkle.Proof Bytes32)) :=
  getValue store (extendedCommitInfoProofByHash hash) Value.tryIntoProof
    "invalid extended commit info proof bytes"

section

variable [codec : BlockCodec]

def getExtendedCommitInfoWithProof (store : RawStore) (hash : BlockHash) :
    Except Report (Option ExtendedCommitInfoWithProof) := do
  let info ← withContext "failed to get extended commit info by block hash"
    (getExtendedCommitInfo store hash)
  let proof ← withContext "failed to get extended commit info proof by block hash"
    (getExtendedCommitInfoProof store hash)
  match info, proof with
  | some info, some proof => do
    let infoWithProof ← ExtendedCommitInfoWithProof.uncheckedFromParts info proof
    .ok (some infoWithProof)
  | none, none => .ok none
  | some _, none => .error ["extended commit info stored without proof"]
  | none, some _ => .error ["extended commit info not stored, but proof is"]

/-- The rollup transactions that are inserted in the parts, in the order of the stored ids. -/
def insertRollupTransactions (store : RawStore) (hash : BlockHash) :
    List RollupId → IndexMap RollupId RollupTransactions →
      Except Report (IndexMap RollupId RollupTransactions)
  | [], rollupTransactions => .ok rollupTransactions
  | id :: ids, rollupTransactions => do
    let txs ← withContext "failed to get rollup data" (getRollupData store hash id)
    insertRollupTransactions store hash ids (rollupTransactions.insert id txs)

def getSequencerBlockByHash (store : RawStore) (hash : BlockHash) : Except Report SequencerBlock := do
  let header ← withContext "failed to get sequencer block header by hash"
    (getSequencerBlockHeaderByHash store hash)
  let rollupIds ← withContext "failed to get rollup ids by block hash"
    (getRollupIdsByBlockHash store hash)
  let rollupTransactionsProof ← withContext "failed to get rollup transactions proof by block hash"
    (getRollupTransactionsProofByBlockHash store hash)
  let rollupIdsProof ← withContext "failed to get rollup ids proof by block hash"
    (getRollupIdsProofByBlockHash store hash)
  let upgradeChangeHashes ← withContext "failed to get upgrade change hashes"
    (getUpgradeChangeHashes store hash)
  let extendedCommitInfoWithProof ← withContext "failed to get extended commit info with proof"
    (getExtendedCommitInfoWithProof store hash)
  let rollupTransactions ← insertRollupTransactions store hash rollupIds IndexMap.empty
  .ok
    { blockHash := hash
      header := header
      rollupTransactions := rollupTransactions
      rollupTransactionsProof := rollupTransactionsProof
      rollupIdsProof := rollupIdsProof
      upgradeChangeHashes := upgradeChangeHashes
      extendedCommitInfoWithProof := extendedCommitInfoWithProof }

def getSequencerBlockByHeight (store : RawStore) (height : ℕ) : Except Report SequencerBlock := do
  let hash ← withContext "failed to get block hash by height" (getBlockHashByHeight store height)
  withContext "failed to get sequencer block by hash" (getSequencerBlockByHash store hash)

end

end

end Astria.Grpc
