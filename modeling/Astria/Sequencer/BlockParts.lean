import Astria.Sequencer.Transaction
import Astria.Merkle.Tree

/-!
# The parts of a block

The data items in front of the transactions of a block, and the commitments to the rollup
data (`astria-core/src/sequencerblock/v1/block/mod.rs`, `astria-core/src/protocol/price_feed.rs`,
`astria-sequencer/src/proposal/commitment.rs`).

The protobuf codecs are parameters; the checks that the code makes on a decoded message are
part of the model.
-/

namespace Astria.Sequencer

open Astria.Core Astria.Lib

/-! ## Commits -/

inductive BlockIdFlag where
  | absent
  | commit
  | nil
  deriving DecidableEq

/-- `BlockSignatureInfo`. -/
inductive BlockSignatureInfo where
  | flag (flag : BlockIdFlag)
  | legacySigned
  deriving DecidableEq

/-- The validator of a vote. -/
structure VoteValidator where
  address : AddressBytes
  power : ℕ
  deriving DecidableEq

structure VoteInfo where
  validator : VoteValidator
  sigInfo : BlockSignatureInfo
  deriving DecidableEq

structure CommitInfo where
  round : ℕ
  votes : List VoteInfo
  deriving DecidableEq

structure ExtendedVoteInfo where
  validator : VoteValidator
  sigInfo : BlockSignatureInfo
  voteExtension : Bytes
  extensionSignature : Option Bytes
  deriving DecidableEq

structure ExtendedCommitInfo where
  round : ℕ
  votes : List ExtendedVoteInfo
  deriving DecidableEq

/-- `CurrencyPairInfo`. -/
structure CurrencyPairInfo where
  currencyPair : CurrencyPair
  decimals : UInt8
  deriving DecidableEq

/-- A map from currency pair ids, in order of insertion. -/
abbrev CurrencyPairMapping := List (ℕ × CurrencyPairInfo)

/-- The value of an id. -/
def CurrencyPairMapping.get (mapping : CurrencyPairMapping) (id : ℕ) : Option CurrencyPairInfo :=
  (mapping.find? fun entry => entry.1 = id).map (·.2)

/-- `IndexMap::insert`: the value of a key that is there is replaced. -/
def CurrencyPairMapping.insert (id : ℕ) (info : CurrencyPairInfo) :
    CurrencyPairMapping → CurrencyPairMapping
  | [] => [(id, info)]
  | entry :: rest =>
    if entry.1 = id then (id, info) :: rest else entry :: CurrencyPairMapping.insert id info rest

/-- Equality of maps, whatever the order. -/
def CurrencyPairMapping.same (a b : CurrencyPairMapping) : Bool :=
  a.length = b.length && a.all fun entry => CurrencyPairMapping.get b entry.1 = some entry.2

/-- `ExtendedCommitInfoWithCurrencyPairMapping`. -/
structure ExtendedCommitInfoWithMapping where
  extendedCommitInfo : ExtendedCommitInfo
  idToCurrencyPair : CurrencyPairMapping
  deriving DecidableEq

/-- `ExtendedCommitInfoWithCurrencyPairMapping::empty`. -/
def ExtendedCommitInfoWithMapping.empty (round : ℕ) : ExtendedCommitInfoWithMapping :=
  { extendedCommitInfo := { round := round, votes := [] }, idToCurrencyPair := [] }

/-! ## Raw messages -/

/-- An entry of the raw currency pair mapping; the pair is its two strings. -/
structure RawIdWithCurrencyPair where
  id : ℕ
  currencyPair : Option (String × String)
  decimals : ℕ
  deriving DecidableEq

/-- The raw form of an extended commit info with its mapping; the commit info itself is the
encoding of its message. -/
structure RawExtendedCommitInfoWithMapping where
  extendedCommitInfo : Option Bytes
  idToCurrencyPair : List RawIdWithCurrencyPair
  deriving DecidableEq

/-- The value of a raw data item. -/
inductive RawDataItem where
  | rollupTransactionsRoot (root : Bytes)
  | rollupIdsRoot (root : Bytes)
  | upgradeChangeHashes (hashes : List Bytes)
  | extendedCommitInfo (info : Bytes)
  deriving DecidableEq

/-- The raw message of an oracle's vote extension: the prices by ascending id. -/
abbrev RawOracleVoteExtension := List (ℕ × Bytes)

/-- The protobuf codecs of the messages of a block.  A decoder is `none` where the bytes are not
an encoding of the message. -/
class BlockCodec where
  encodeDataItem : RawDataItem → Bytes
  /-- A data item without a value is `some none`. -/
  decodeDataItem : Bytes → Option (Option RawDataItem)
  /-- `RawTransaction::decode` and `Transaction::try_from_raw`. -/
  decodeTransaction : Bytes → Option Transaction
  encodeInfo : RawExtendedCommitInfoWithMapping → Bytes
  decodeInfo : Bytes → Option RawExtendedCommitInfoWithMapping
  /-- The conversion of a commit info to its raw message. -/
  extendedCommitInfoToRaw : ExtendedCommitInfo → Bytes
  /-- The conversion of a raw message to a commit info. -/
  extendedCommitInfoFromRaw : Bytes → Option ExtendedCommitInfo
  decodeOracleVoteExtension : Bytes → Option RawOracleVoteExtension
  /-- `RollupData::SequencedData(..).into_raw().encode_to_vec()`. -/
  encodeSequencedData : Bytes → Bytes
  /-- `RollupData::Deposit(..).into_raw().encode_to_vec()`. -/
  encodeDeposit : Deposit → Bytes

/-! ## Conversions -/

/-- An array of 32 bytes, if there are that many. -/
def toBytes32 (bytes : Bytes) : Option Bytes32 :=
  if h : bytes.length = 32 then some ⟨bytes, h⟩ else none

@[simp] theorem toBytes32_toList (b : Bytes32) : toBytes32 b.toList = some b := by
  obtain ⟨bytes, h⟩ := b
  exact dif_pos h

theorem toBytes32_eq_some {bytes : Bytes} {b : Bytes32} :
    toBytes32 bytes = some b ↔ b.toList = bytes := by
  constructor
  · intro h
    unfold toBytes32 at h
    split_ifs at h with hlen
    rw [← Option.some.inj h]
    rfl
  · rintro rfl
    exact toBytes32_toList b

section

variable [codec : BlockCodec]

/-- The conversion of one entry of the raw mapping. -/
def RawIdWithCurrencyPair.convert (raw : RawIdWithCurrencyPair) :
    Except Report (ℕ × CurrencyPairInfo) :=
  match raw.currencyPair with
  | none => .error ["field not set: currency_pair"]
  | some (base, quote) =>
    match CurrencyPair.tryFromRaw base quote with
    | none => .error ["invalid currency pair"]
    | some pair =>
      if raw.decimals ≤ 255 then
        .ok (raw.id, { currencyPair := pair, decimals := UInt8.ofNat raw.decimals })
      else
        .error ["decimals too large: " ++ toString raw.decimals ++ "; must fit in a u8"]

/-- The conversion of the raw mapping, collected into a map. -/
def convertMapping : List RawIdWithCurrencyPair → CurrencyPairMapping →
    Except Report CurrencyPairMapping
  | [], mapping => .ok mapping
  | raw :: rest, mapping =>
    match raw.convert with
    | .error e => .error e
    | .ok entry => convertMapping rest (CurrencyPairMapping.insert entry.1 entry.2 mapping)

namespace ExtendedCommitInfoWithMapping

/-- `ExtendedCommitInfoWithCurrencyPairMapping::try_from_raw`. -/
def tryFromRaw (raw : RawExtendedCommitInfoWithMapping) :
    Except Report ExtendedCommitInfoWithMapping :=
  match raw.extendedCommitInfo with
  | none => .error ["field not set: extended_commit_info"]
  | some bytes =>
    match codec.extendedCommitInfoFromRaw bytes with
    | none => .error ["invalid extended commit info"]
    | some info =>
      match convertMapping raw.idToCurrencyPair [] with
      | .error e => .error e
      | .ok mapping => .ok { extendedCommitInfo := info, idToCurrencyPair := mapping }

/-- `ExtendedCommitInfoWithCurrencyPairMapping::into_raw`. -/
def intoRaw (info : ExtendedCommitInfoWithMapping) : RawExtendedCommitInfoWithMapping :=
  { extendedCommitInfo := some (codec.extendedCommitInfoToRaw info.extendedCommitInfo)
    idToCurrencyPair := info.idToCurrencyPair.map fun entry =>
      { id := entry.1
        currencyPair := some (entry.2.currencyPair.base, entry.2.currencyPair.quote)
        decimals := entry.2.decimals.toNat } }

/-- The encoded form that a block carries. -/
def encode (info : ExtendedCommitInfoWithMapping) : Bytes := codec.encodeInfo info.intoRaw

end ExtendedCommitInfoWithMapping

/-! ## Data items -/

/-- `DataItem`. -/
inductive DataItem where
  | rollupTransactionsRoot (root : Bytes32)
  | rollupIdsRoot (root : Bytes32)
  | upgradeChangeHashes (hashes : List Bytes32)
  | extendedCommitInfo (info : Bytes)
  deriving DecidableEq

namespace DataItem

/-- The raw form of a data item. -/
def toRaw : DataItem → RawDataItem
  | rollupTransactionsRoot root => .rollupTransactionsRoot root.toList
  | rollupIdsRoot root => .rollupIdsRoot root.toList
  | upgradeChangeHashes hashes => .upgradeChangeHashes (hashes.map (·.toList))
  | extendedCommitInfo info => .extendedCommitInfo info

/-- The checks of `DataItem::decode` on a raw value. -/
def ofRaw : RawDataItem → Option DataItem
  | .rollupTransactionsRoot root => (toBytes32 root).map rollupTransactionsRoot
  | .rollupIdsRoot root => (toBytes32 root).map rollupIdsRoot
  | .upgradeChangeHashes hashes => (hashes.mapM toBytes32).map upgradeChangeHashes
  | .extendedCommitInfo info => some (extendedCommitInfo info)

/-- `DataItem::encode`. -/
def encode (item : DataItem) : Bytes := codec.encodeDataItem item.toRaw

/-- `DataItem::decode`. -/
def decode (index : ℕ) (bytes : Bytes) : Except Report DataItem :=
  match codec.decodeDataItem bytes with
  | none =>
    .error ["item " ++ toString index ++ " of cometbft `block.data` could not be protobuf-decoded"]
  | some none => .error ["the expected field in the raw source type was not set: `value`"]
  | some (some raw) =>
    match ofRaw raw with
    | some item => .ok item
    | none => .error ["hash must have exactly 32 bytes"]

/-- `variant_name`. -/
def variantName : DataItem → String
  | rollupTransactionsRoot _ => "rollup transactions root"
  | rollupIdsRoot _ => "rollup ids root"
  | upgradeChangeHashes _ => "upgrade change hashes"
  | extendedCommitInfo _ => "extended commit info"

/-- `DataItemError::mismatch`. -/
def mismatch (item : DataItem) (index : ℕ) (expected : String) : Report :=
  ["unexpected data element `" ++ item.variantName ++ "` at index " ++ toString index ++
    ", expected `" ++ expected ++ "`"]

/-- `into_rollup_transactions_root`. -/
def intoRollupTransactionsRoot (index : ℕ) : DataItem → Except Report Bytes32
  | rollupTransactionsRoot root => .ok root
  | item => .error (item.mismatch index "rollup transactions root")

/-- `into_rollup_ids_root`. -/
def intoRollupIdsRoot (index : ℕ) : DataItem → Except Report Bytes32
  | rollupIdsRoot root => .ok root
  | item => .error (item.mismatch index "rollup ids root")

/-- `into_extended_commit_info`. -/
def intoExtendedCommitInfo (index : ℕ) : DataItem → Except Report Bytes
  | extendedCommitInfo info => .ok info
  | item => .error (item.mismatch index "extended commit info")

end DataItem

/-! ## Expanded block data -/

section

variable [ext : External]

instance : Merkle.Hasher Bytes32 where
  sha256 := ext.sha256
  toBytes := List.Vector.toList
  zeros := List.Vector.replicate 32 0

/-- `merkle_tree_from_data`, on items that are hashed already. -/
def dataRoot (leaves : List Bytes32) : Bytes32 :=
  (Merkle.Tree.fromLeaves (leaves.map List.Vector.toList) : Merkle.Tree Bytes32).root

/-- `ExpandedBlockData`, without the proofs of its items. -/
structure ExpandedBlockData where
  dataRootHash : Bytes32
  rollupTransactionsRoot : Bytes32
  rollupIdsRoot : Bytes32
  upgradeChangeHashes : List Bytes32
  /-- The parsed extended commit info with its encoding. -/
  extendedCommitInfo : Option (ExtendedCommitInfoWithMapping × Bytes)
  userSubmittedTransactions : List Transaction

namespace ExpandedBlockData

/-- The transactions behind the injected items. -/
def parseTransactions : List Bytes → Except Report (List Transaction)
  | [] => .ok []
  | bytes :: rest =>
    match codec.decodeTransaction bytes with
    | none =>
      .error ["failed decoding an entry in the cometbft `block.data` field as a protobuf astria " ++
        "transaction"]
    | some tx =>
      match parseTransactions rest with
      | .error e => .error e
      | .ok txs => .ok (tx :: txs)

/-- `new_from_untyped_data`. -/
def newFromUntypedData (data : List Bytes) : Except Report ExpandedBlockData := do
  match data with
  | [] =>
    .error ["the cometbft `block.data` field did not contain the rollup transactions root"]
  | first :: rest =>
    match toBytes32 first with
    | none =>
      .error ["the rollup transactions root in the cometbft `block.data` field was not 32 bytes long"]
    | some txsRoot =>
      match rest with
      | [] => .error ["the cometbft `block.data` field did not contain the rollup IDs root"]
      | second :: txBytes =>
        match toBytes32 second with
        | none =>
          .error ["the rollup IDs root in the cometbft `block.data` field was not 32 bytes long"]
        | some idsRoot =>
          let txs ← parseTransactions txBytes
          .ok
            { dataRootHash := dataRoot (data.map ext.sha256)
              rollupTransactionsRoot := txsRoot
              rollupIdsRoot := idsRoot
              upgradeChangeHashes := []
              extendedCommitInfo := none
              userSubmittedTransactions := txs }

/-- The optional third item: anything that does not decode to upgrade change hashes is left for
what comes next. -/
def takeUpgradeChangeHashes : List Bytes → List Bytes32 × ℕ × List Bytes
  | [] => ([], 2, [])
  | bytes :: rest =>
    match DataItem.decode 2 bytes with
    | .ok (.upgradeChangeHashes hashes) => (hashes, 3, rest)
    | _ => ([], 2, bytes :: rest)

/-- The extended commit info, which is next when it is expected. -/
def takeExtendedCommitInfo (index : ℕ) :
    List Bytes → Except Report ((ExtendedCommitInfoWithMapping × Bytes) × List Bytes)
  | [] => .error ["the cometbft `block.data` field did not contain the extended commit info"]
  | bytes :: rest => do
    let item ← DataItem.decode index bytes
    let encoded ← item.intoExtendedCommitInfo index
    match codec.decodeInfo encoded with
    | none => .error ["failed to decode extended commit info"]
    | some raw =>
      match ExtendedCommitInfoWithMapping.tryFromRaw raw with
      | .error e => .error ("failed to convert raw extended commit info to native" :: e)
      | .ok info => .ok ((info, encoded), rest)

/-- The items behind the two roots. -/
def takeInjected (withExtendedCommitInfo : Bool) (data : List Bytes) :
    Except Report (List Bytes32 × Option (ExtendedCommitInfoWithMapping × Bytes) × List Bytes) :=
  let (hashes, index, rest) := takeUpgradeChangeHashes data
  if withExtendedCommitInfo then
    match takeExtendedCommitInfo index rest with
    | .error e => .error e
    | .ok (info, txBytes) => .ok (hashes, some info, txBytes)
  else .ok (hashes, none, rest)

/-- `new_from_typed_data`. -/
def newFromTypedData (data : List Bytes) (withExtendedCommitInfo : Bool) :
    Except Report ExpandedBlockData :=
  match data with
  | [] =>
    .error ["the cometbft `block.data` field did not contain the rollup transactions root"]
  | [first] => do
    let item ← DataItem.decode 0 first
    let _ ← item.intoRollupTransactionsRoot 0
    .error ["the cometbft `block.data` field did not contain the rollup IDs root"]
  | first :: second :: rest => do
    let firstItem ← DataItem.decode 0 first
    let txsRoot ← firstItem.intoRollupTransactionsRoot 0
    let secondItem ← DataItem.decode 1 second
    let idsRoot ← secondItem.intoRollupIdsRoot 1
    let (hashes, info, txBytes) ← takeInjected withExtendedCommitInfo rest
    let txs ← parseTransactions txBytes
    .ok
      { dataRootHash := dataRoot
          ([ext.sha256 txsRoot.toList, ext.sha256 idsRoot.toList] ++
            (info.map fun i => ext.sha256 i.2).toList ++ txBytes.map ext.sha256)
        rollupTransactionsRoot := txsRoot
        rollupIdsRoot := idsRoot
        upgradeChangeHashes := hashes
        extendedCommitInfo := info
        userSubmittedTransactions := txs }

/-- `injected_transaction_count`. -/
def injectedTransactionCount (data : ExpandedBlockData) : ℕ :=
  2 + (if data.upgradeChangeHashes = [] then 0 else 1) +
    if data.extendedCommitInfo.isSome then 1 else 0

end ExpandedBlockData

/-! ## Rollup data -/

/-- The data of every rollup, by ascending rollup id. -/
abbrev RollupDatas := List (RollupId × List Bytes)

/-- Appends an item to the data of a rollup. -/
def RollupDatas.append (id : RollupId) (data : Bytes) : RollupDatas → RollupDatas
  | [] => [(id, [data])]
  | (i, items) :: rest =>
    if id.inner.toList < i.inner.toList then (id, [data]) :: (i, items) :: rest
    else if id = i then (i, items ++ [data]) :: rest
    else (i, items) :: RollupDatas.append id data rest

/-- The submissions of a list of transactions, in order. -/
def rollupDataSubmissions (txs : List Transaction) : List RollupDataSubmission :=
  txs.flatMap fun tx => tx.actions.inner.filterMap fun
    | .rollupDataSubmission act => some act
    | _ => none

/-- The data of a block by rollup: what it submits, then its deposits. -/
def rollupDatas (txs : List Transaction) (deposits : List Deposit) : RollupDatas :=
  deposits.foldl (fun acc d => RollupDatas.append d.rollupId (codec.encodeDeposit d) acc)
    ((rollupDataSubmissions txs).foldl
      (fun acc act => RollupDatas.append act.rollupId (codec.encodeSequencedData act.data) acc) [])

/-- The root of the tree of the rollup ids. -/
def rollupIdsRoot (datas : RollupDatas) : Bytes32 :=
  (Merkle.Tree.fromLeaves (datas.map fun e => e.1.inner.toList) : Merkle.Tree Bytes32).root

/-- `derive_merkle_tree_from_rollup_txs`: the root of the tree with a leaf for every rollup, its
id followed by the root of its data. -/
def rollupTransactionsRoot (datas : RollupDatas) : Bytes32 :=
  (Merkle.Tree.fromLeaves (datas.map fun e =>
    e.1.inner.toList ++ (Merkle.Tree.fromLeaves e.2 : Merkle.Tree Bytes32).root.toList) :
      Merkle.Tree Bytes32).root

/-- `GeneratedCommitments`. -/
structure GeneratedCommitments where
  rollupDatasRoot : Bytes32
  rollupIdsRoot : Bytes32
  deriving DecidableEq

/-- `generate_rollup_datas_commitment`. -/
def generateRollupDatasCommitment (txs : List Transaction) (deposits : List Deposit) :
    GeneratedCommitments :=
  { rollupDatasRoot := rollupTransactionsRoot (rollupDatas txs deposits)
    rollupIdsRoot := rollupIdsRoot (rollupDatas txs deposits) }

/-- The items of the commitments, as typed data items or as raw hashes. -/
def GeneratedCommitments.items (commitments : GeneratedCommitments) (usesDataItemEnum : Bool) :
    List Bytes :=
  if usesDataItemEnum then
    [(DataItem.rollupTransactionsRoot commitments.rollupDatasRoot).encode,
      (DataItem.rollupIdsRoot commitments.rollupIdsRoot).encode]
  else [commitments.rollupDatasRoot.toList, commitments.rollupIdsRoot.toList]

/-- `SequencerBlockBuilder`. -/
structure SequencerBlockBuilder where
  blockHash : BlockHash
  chainId : String
  height : ℕ
  time : Time
  proposerAddress : AddressBytes
  expandedBlockData : ExpandedBlockData
  deposits : List Deposit

/-- `SequencerBlockBuilder::try_build`. -/
def SequencerBlockBuilder.tryBuild (builder : SequencerBlockBuilder) : Except Report StoredBlock :=
  let data := builder.expandedBlockData
  let datas := rollupDatas data.userSubmittedTransactions builder.deposits
  if data.rollupIdsRoot ≠ rollupIdsRoot datas then
    .error ["the root derived from the rollup IDs in the cometbft `block.data` field did not match " ++
      "the root stored in the same block.data field"]
  else if data.rollupTransactionsRoot ≠ rollupTransactionsRoot datas then
    .error ["the root derived from the rollup transactions in the cometbft `block.data` field did " ++
      "not match the root stored in the same block.data field"]
  else
    .ok
      { height := builder.height
        time := builder.time
        proposer := builder.proposerAddress
        rollupTransactionsRoot := data.rollupTransactionsRoot
        dataHash := data.dataRootHash
        rollupTransactions := datas
        upgradeChangeHashes := data.upgradeChangeHashes
        extendedCommitInfo := data.extendedCommitInfo.map (·.2) }

end

end

end Astria.Sequencer
