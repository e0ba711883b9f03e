import Astria.Core.FilteredBlock
import Astria.Lib.Borsh
import Astria.Lib.Separator

/-!
# What is stored of a block

The keys under which the parts of a sequencer block are stored, and the format of the values
(`astria-sequencer/src/grpc/storage/keys.rs`, `storage/values/` and `src/storage/stored_value.rs`).

The storage types borrow the fields of the types of the blocks, so the formats are those of the latter:
the fields in the order of the storage type, with the conversions on the way in and out.

Results:
* `Key.text_injective`: two parts of blocks never share a key;
* `storedValue`: the format of the values, with its law.
-/

namespace Astria.Grpc

open Astria.Core Astria.Lib
open Astria.Sequencer (BlockHash External Time)

/-! ## Keys -/

/-- A hash in a key: `Base64Display` with the URL-safe alphabet. -/
def displayBase64 (hash : BlockHash) : String := String.ofList (Base64.encode hash.toList)

/-- The form of all keys. -/
def storageKey (kind rest : String) : String := "grpc/" ++ kind ++ "/" ++ rest

def blockHashByHeight (height : ℕ) : String := storageKey "block_hash" (toString height)

def sequencerBlockHeaderByHash (hash : BlockHash) : String :=
  storageKey "block_header" (displayBase64 hash)

def rollupDataByHashAndRollupId (hash : BlockHash) (rollupId : RollupId) : String :=
  storageKey "rollup_data" (displayBase64 hash ++ "/" ++ rollupId.display)

def rollupIdsByHash (hash : BlockHash) : String := storageKey "rollup_ids" (displayBase64 hash)

def rollupTransactionsProofByHash (hash : BlockHash) : String :=
  storageKey "rollup_txs_proof" (displayBase64 hash)

def rollupIdsProofByHash (hash : BlockHash) : String :=
  storageKey "rollup_ids_proof" (displayBase64 hash)

def upgradeChangeHashesByHash (hash : BlockHash) : String :=
  storageKey "upgrade_change_hashes" (displayBase64 hash)

def extendedCommitInfoByHash (hash : BlockHash) : String :=
  storageKey "extended_commit_info" (displayBase64 hash)

def extendedCommitInfoProofByHash (hash : BlockHash) : String :=
  storageKey "extended_commit_info_proof" (displayBase64 hash)

theorem storageKey_inj {kind kind' rest rest' : String} (hkind : '/' ∉ kind.toList)
    (hkind' : '/' ∉ kind'.toList) (h : storageKey kind rest = storageKey kind' rest') :
    kind = kind' ∧ rest = rest' := by
  unfold storageKey at h
  have hlist := congrArg String.toList h
  simp only [String.toList_append, List.append_assoc] at hlist
  obtain ⟨hk, hr⟩ := (append_sep_inj hkind hkind').mp (List.append_cancel_left hlist)
  exact ⟨String.toList_inj.mp hk, String.toList_inj.mp hr⟩

theorem displayBase64_injective {a b : BlockHash} (h : displayBase64 a = displayBase64 b) : a = b :=
  List.Vector.toList_injective
    (Base64.encode_injective (by simp) (String.ofList_injective h))

/-- The parts of blocks that have a key. -/
inductive Key where
  | blockHash (height : ℕ)
  | header (hash : BlockHash)
  | rollupData (hash : BlockHash) (rollupId : RollupId)
  | rollupIds (hash : BlockHash)
  | rollupTransactionsProof (hash : BlockHash)
  | rollupIdsProof (hash : BlockHash)
  | upgradeChangeHashes (hash : BlockHash)
  | extendedCommitInfo (hash : BlockHash)
  | extendedCommitInfoProof (hash : BlockHash)
  deriving DecidableEq

namespace Key

def text : Key → String
  | blockHash height => blockHashByHeight height
  | header hash => sequencerBlockHeaderByHash hash
  | rollupData hash rollupId => rollupDataByHashAndRollupId hash rollupId
  | rollupIds hash => rollupIdsByHash hash
  | rollupTransactionsProof hash => rollupTransactionsProofByHash hash
  | rollupIdsProof hash => rollupIdsProofByHash hash
  | upgradeChangeHashes hash => upgradeChangeHashesByHash hash
  | extendedCommitInfo hash => extendedCommitInfoByHash hash
  | extendedCommitInfoProof hash => extendedCommitInfoProofByHash hash

def kind : Key → String
  | blockHash _ => "block_hash"
  | header _ => "block_header"
  | rollupData _ _ => "rollup_data"
  | rollupIds _ => "rollup_ids"
  | rollupTransactionsProof _ => "rollup_txs_proof"
  | rollupIdsProof _ => "rollup_ids_proof"
  | upgradeChangeHashes _ => "upgrade_change_hashes"
  | extendedCommitInfo _ => "extended_commit_info"
  | extendedCommitInfoProof _ => "extended_commit_info_proof"

/-- What follows the kind. -/
def rest : Key → String
  | blockHash height => toString height
  | header hash | rollupIds hash | rollupTransactionsProof hash | rollupIdsProof hash
  | upgradeChangeHashes hash | extendedCommitInfo hash | extendedCommitInfoProof hash =>
    displayBase64 hash
  | rollupData hash rollupId => displayBase64 hash ++ "/" ++ rollupId.display

theorem text_eq (key : Key) : key.text = storageKey key.kind key.rest := by
  cases key <;> rfl

theorem slash_not_mem_kind (key : Key) : '/' ∉ key.kind.toList := by
  cases key <;> simp [kind]

theorem rollupData_rest_inj {hash hash' : BlockHash} {id id' : RollupId}
    (h : displayBase64 hash ++ "/" ++ id.display = displayBase64 hash' ++ "/" ++ id'.display) :
    hash = hash' ∧ id = id' := by
  have hlist := congrArg String.toList h
  simp only [String.toList_append, displayBase64, RollupId.display, String.toList_ofList,
    List.append_assoc] at hlist
  have hlen : (Base64.encode hash.toList).length = (Base64.encode hash'.toList).length := by
    simp [Base64.length_encode]
  obtain ⟨hhash, hrest⟩ := List.append_inj hlist hlen
  have hid := Base64.encode_injective (by simp) (List.append_cancel_left hrest)
  refine ⟨List.Vector.toList_injective (Base64.encode_injective (by simp) hhash), ?_⟩
  exact congrArg RollupId.mk (List.Vector.toList_injective hid)

/-- Two parts of blocks never share a key. -/
theorem text_injective {key key' : Key} (h : key.text = key'.text) : key = key' := by
  rw [text_eq, text_eq] at h
  obtain ⟨hkind, hrest⟩ := storageKey_inj key.slash_not_mem_kind key'.slash_not_mem_kind h
  cases key <;> cases key' <;> simp only [kind, String.reduceEq] at hkind
  case blockHash.blockHash height height' => rw [natToString_injective hrest]
  case rollupData.rollupData hash id hash' id' =>
    obtain ⟨rfl, rfl⟩ := rollupData_rest_inj hrest
    rfl
  all_goals rw [displayBase64_injective hrest]

end Key

/-! ## Values -/

/-- The times of CometBFT, as they are stored. -/
class StoredTimes where
  /-- `Time::unix_timestamp_nanos`. -/
  unixTimestampNanos : Time → ℤ
  /-- `Time::from_unix_timestamp`, of seconds and nanoseconds. -/
  fromUnixTimestamp : ℕ → ℕ → Option Time

/-- `grpc::storage::Value`. -/
inductive Value where
  | rollupIds (ids : List RollupId)
  | blockHash (hash : BlockHash)
  | sequencerBlockHeader (header : SequencerBlockHeader)
  | rollupTransactions (txs : RollupTransactions)
  | proof (proof : Merkle.Proof Bytes32)
  | upgradeChangeHashes (hashes : List Bytes32)
  | extendedCommitInfo (info : Bytes)

namespace Format

def rollupId : Borsh RollupId :=
  (Borsh.array 32).via (fun id => some id.inner) (fun inner => some { inner := inner })
    (fun _ => True) (by
      intro id inner _ h
      obtain rfl := Option.some.inj h
      exact ⟨trivial, rfl⟩)

/-- The numbers of a proof are of their types, `usize` and `NonZeroUsize`. -/
def ProofAdmitted (proof : Merkle.Proof Bytes32) : Prop :=
  proof.leafIndex ≤ u64Max ∧ 0 < proof.treeSize ∧ proof.treeSize ≤ u64Max

/-- The digests of an audit path, which are stored as one string of bytes. -/
def proofFromParts (parts : Bytes × ℕ × ℕ) : Option (Merkle.Proof Bytes32) :=
  let (auditPath, leafIndex, treeSize) := parts
  if treeSize = 0 ∨ auditPath.length % 32 ≠ 0 then none
  else
    (readDigests (auditPath.length / 32) auditPath).map fun digests =>
      { auditPath := digests, leafIndex := leafIndex, treeSize := treeSize }

theorem proofFromParts_of_admitted {proof : Merkle.Proof Bytes32} (h : ProofAdmitted proof) :
    proofFromParts (proof.auditPath.flatMap List.Vector.toList, proof.leafIndex, proof.treeSize) =
      some proof := by
  have hlen : (proof.auditPath.flatMap List.Vector.toList).length = 32 * proof.auditPath.length := by
    rw [List.length_flatMap]
    simp [Nat.mul_comm]
  have hread := readDigests_flatMap proof.auditPath
  unfold proofFromParts
  dsimp only
  rw [hlen, Nat.mul_mod_right, Nat.mul_div_cancel_left _ (by omega), hread]
  have hsize := h.2.1
  exact if_neg (by omega)

/-- A `u64` is written in eight bytes. -/
theorem uint_admits_of_le {n : ℕ} (h : n ≤ u64Max) : (Borsh.uint 8).Admits n := by
  show n < 256 ^ 8
  norm_num [u64Max] at h ⊢
  omega

/-- `storage::Proof`. -/
def proof : Borsh (Merkle.Proof Bytes32) :=
  (Borsh.bytes.seq ((Borsh.uint 8).seq (Borsh.uint 8))).via
    (fun proof =>
      some (proof.auditPath.flatMap List.Vector.toList, proof.leafIndex, proof.treeSize))
    proofFromParts ProofAdmitted (by
      intro proof parts hproof h
      obtain rfl := Option.some.inj h
      exact ⟨⟨fun _ _ => trivial, uint_admits_of_le hproof.1, uint_admits_of_le hproof.2.2⟩,
        proofFromParts_of_admitted hproof⟩)

/-- `storage::RollupTransactions`. -/
def rollupTransactions : Borsh RollupTransactions :=
  (rollupId.seq ((Borsh.vec Borsh.bytes).seq proof)).via
    (fun txs => some (txs.rollupId, txs.transactions, txs.proof))
    (fun parts =>
      some { rollupId := parts.1, transactions := parts.2.1, proof := parts.2.2 })
    (fun txs => ProofAdmitted txs.proof) (by
      intro txs parts htxs h
      obtain rfl := Option.some.inj h
      exact ⟨⟨trivial, fun _ _ _ _ => trivial, htxs⟩, rfl⟩)

section

variable [ext : External] [times : StoredTimes]

/-- `ChainId`, which is parsed when it is read. -/
def chainId : Borsh String :=
  Borsh.string.via some (fun s => if ext.validChainId s = true then some s else none)
    (fun s => ext.validChainId s = true) (by
      intro s t hs h
      obtain rfl := Option.some.inj h
      exact ⟨trivial, if_pos hs⟩)

/-- A time whose seconds fit in an `i64`, and which is the time of its timestamp. -/
def TimeAdmitted (time : Time) : Prop :=
  times.unixTimestampNanos time < 10 ^ 9 * 2 ^ 63 ∧
    ∀ nanos : ℕ, times.unixTimestampNanos time = nanos →
      times.fromUnixTimestamp (nanos / 10 ^ 9) (nanos % 10 ^ 9) = some time

/-- `BlockTimestamp`: the nanoseconds in a `u128`; a time before 1970 is not written. -/
def blockTimestamp : Borsh Time :=
  (Borsh.uint 16).via
    (fun time =>
      if 0 ≤ times.unixTimestampNanos time then some (times.unixTimestampNanos time).toNat else none)
    (fun nanos =>
      -- `i64::try_from` is unwrapped
      if nanos / 10 ^ 9 ≤ 2 ^ 63 - 1 then times.fromUnixTimestamp (nanos / 10 ^ 9) (nanos % 10 ^ 9)
      else none)
    TimeAdmitted (by
      intro time nanos htime h
      split_ifs at h with hneg
      obtain rfl := Option.some.inj h
      obtain ⟨hmax, hread⟩ := htime
      have hnanos : times.unixTimestampNanos time = (times.unixTimestampNanos time).toNat :=
        (Int.toNat_of_nonneg hneg).symm
      have hlt : (times.unixTimestampNanos time).toNat < 10 ^ 9 * 2 ^ 63 := by omega
      refine ⟨show _ < 256 ^ 16 by omega, ?_⟩
      rw [if_pos (by omega), hread _ hnanos])

/-- The fields of a header are of their types. -/
structure HeaderAdmitted (header : SequencerBlockHeader) : Prop where
  chainId : ext.validChainId header.chainId = true
  height : header.height ≤ maxHeight
  time : TimeAdmitted header.time

/-- `storage::SequencerBlockHeader`. -/
def sequencerBlockHeader : Borsh SequencerBlockHeader :=
  (chainId.seq ((Borsh.uint 8).seq (blockTimestamp.seq
    ((Borsh.array 32).seq ((Borsh.array 32).seq (Borsh.array 20)))))).via
    (fun header =>
      some (header.chainId, header.height, header.time, header.rollupTransactionsRoot,
        header.dataHash, header.proposerAddress))
    (fun parts =>
      let (chainId, height, time, rollupTransactionsRoot, dataHash, proposerAddress) := parts
      -- the conversion of the height is expected to succeed
      if height ≤ maxHeight then
        some
          { chainId := chainId
            height := height
            time := time
            rollupTransactionsRoot := rollupTransactionsRoot
            dataHash := dataHash
            proposerAddress := proposerAddress }
      else none)
    HeaderAdmitted (by
      intro header parts hheader h
      obtain rfl := Option.some.inj h
      have hheight := hheader.height
      refine ⟨⟨hheader.chainId, ?_, hheader.time, trivial, trivial, trivial⟩, if_pos hheight⟩
      show header.height < 256 ^ 8
      norm_num [maxHeight] at hheight ⊢
      omega)

/-- The values of the types of the source. -/
def ValueAdmitted : Value → Prop
  | .rollupIds _ | .blockHash _ | .upgradeChangeHashes _ | .extendedCommitInfo _ => True
  | .sequencerBlockHeader header => HeaderAdmitted header
  | .rollupTransactions txs => ProofAdmitted txs.proof
  | .proof proof => ProofAdmitted proof

def serializeValue : Value → Option Bytes
  | .rollupIds ids => ((Borsh.vec rollupId).serialize ids).map (0 :: ·)
  | .blockHash hash => ((Borsh.array 32).serialize hash).map (1 :: ·)
  | .sequencerBlockHeader header => (sequencerBlockHeader.serialize header).map (2 :: ·)
  | .rollupTransactions txs => (rollupTransactions.serialize txs).map (3 :: ·)
  | .proof p => (proof.serialize p).map (4 :: ·)
  | .upgradeChangeHashes hashes => ((Borsh.vec (Borsh.array 32)).serialize hashes).map (5 :: ·)
  | .extendedCommitInfo info => (Borsh.bytes.serialize info).map (6 :: ·)

def deserializeValue : Bytes → Option (Value × Bytes)
  | [] => none
  | tag :: bytes =>
    match tag.toNat with
    | 0 => ((Borsh.vec rollupId).deserialize bytes).map (Prod.map .rollupIds id)
    | 1 => ((Borsh.array 32).deserialize bytes).map (Prod.map .blockHash id)
    | 2 => (sequencerBlockHeader.deserialize bytes).map (Prod.map .sequencerBlockHeader id)
    | 3 => (rollupTransactions.deserialize bytes).map (Prod.map .rollupTransactions id)
    | 4 => (proof.deserialize bytes).map (Prod.map .proof id)
    | 5 => ((Borsh.vec (Borsh.array 32)).deserialize bytes).map (Prod.map .upgradeChangeHashes id)
    | 6 => (Borsh.bytes.deserialize bytes).map (Prod.map .extendedCommitInfo id)
    | _ => none

theorem deserialize_variant {α : Type} (c : Borsh α) (variant : α → Value) (tag : UInt8)
    (hvariant : ∀ content, deserializeValue (tag :: content) =
      (c.deserialize content).map (Prod.map variant id))
    {a : α} {bytes : Bytes} (ha : c.Admits a) (h : (c.serialize a).map (tag :: ·) = some bytes)
    (rest : Bytes) : deserializeValue (bytes ++ rest) = some (variant a, rest) := by
  obtain ⟨content, hcontent, rfl⟩ := Option.map_eq_some_iff.mp h
  rw [List.cons_append, hvariant, c.deserialize_serialize rest ha hcontent]
  rfl

/-- `grpc::storage::Value`: the number of the variant, and its content. -/
def value : Borsh Value where
  serialize := serializeValue
  deserialize := deserializeValue
  Admits := ValueAdmitted
  deserialize_serialize := by
    intro value bytes rest hvalue h
    cases value with
    | rollupIds ids =>
      exact deserialize_variant (Borsh.vec rollupId) .rollupIds 0 (fun _ => rfl) (fun _ _ => trivial) h rest
    | blockHash hash =>
      exact deserialize_variant (Borsh.array 32) .blockHash 1 (fun _ => rfl) trivial h rest
    | sequencerBlockHeader header =>
      exact deserialize_variant sequencerBlockHeader .sequencerBlockHeader 2 (fun _ => rfl) hvalue h rest
    | rollupTransactions txs =>
      exact deserialize_variant rollupTransactions .rollupTransactions 3 (fun _ => rfl) hvalue h rest
    | proof p => exact deserialize_variant proof .proof 4 (fun _ => rfl) hvalue h rest
    | upgradeChangeHashes hashes =>
      exact deserialize_variant (Borsh.vec (Borsh.array 32)) .upgradeChangeHashes 5 (fun _ => rfl)
        (fun _ _ => trivial) h rest
    | extendedCommitInfo info =>
      exact deserialize_variant Borsh.bytes .extendedCommitInfo 6 (fun _ => rfl) (fun _ _ => trivial) h
        rest

/-- `StoredValue::Grpc`; the variants of the other components are not read as one of these values. -/
def storedValue : Borsh Value := value.tagged 9

end

end Format

/-! ## The variants -/

namespace Value

/-- The error of the conversions below, without the value that was found. -/
def typeMismatch (expected : String) : Report := ["grpc stored value type mismatch: expected " ++ expected]

def tryIntoBlockHash : Value → Except Report BlockHash
  | .blockHash hash => .ok hash
  | _ => .error (typeMismatch "block hash")

def tryIntoSequencerBlockHeader : Value → Except Report SequencerBlockHeader
  | .sequencerBlockHeader header => .ok header
  | _ => .error (typeMismatch "sequencer block header")

def tryIntoRollupIds : Value → Except Report (List RollupId)
  | .rollupIds ids => .ok ids
  | _ => .error (typeMismatch "rollup ids")

def tryIntoRollupTransactions : Value → Except Report RollupTransactions
  | .rollupTransactions txs => .ok txs
  | _ => .error (typeMismatch "rollup transactions")

def tryIntoProof : Value → Except Report (Merkle.Proof Bytes32)
  | .proof p => .ok p
  | _ => .error (typeMismatch "proof")

def tryIntoUpgradeChangeHashes : Value → Except Report (List Bytes32)
  | .upgradeChangeHashes hashes => .ok hashes
  | _ => .error (typeMismatch "upgrade change hashes")

def tryIntoExtendedCommitInfo : Value → Except Report Bytes
  | .extendedCommitInfo info => .ok info
  | _ => .error (typeMismatch "extended commit info bytes")

end Value

end Astria.Grpc
