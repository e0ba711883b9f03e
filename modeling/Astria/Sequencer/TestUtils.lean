import Astria.Sequencer.Block
import Astria.Core.BlockConversions
import Astria.Sequencer.Genesis
import Astria.Lib.Sha256

/-!
# Instances and the test genesis

Instances of the classes that stand for code of other crates, with SHA-256, the bech32 formats and the
protobuf messages as they are on the values that the runs of this development reach, and the genesis
state of the sequencer's own tests (`app/benchmark_and_test_utils.rs`, `app/test_utils.rs`).

The instances are scoped: a result about the sequencer holds for every instance, and only a run on a
fixed state picks these.

Results:
* `initChain_genesis`: the test genesis is one.
-/

namespace Astria.Sequencer.TestUtils

open Astria.Core Astria.Lib

/-! ## Bech32 -/

/-- The alphabet of bech32. -/
def charset : List Char := "qpzry9x8gf2tvdw0s3jn54khce6mua7l".toList

def generators : List ℕ := [0x3b6a57b2, 0x26508e6d, 0x1ea119fa, 0x3d4233dd, 0x2a1462b3]

/-- One step of the checksum. -/
def polymodStep (checksum value : ℕ) : ℕ :=
  let top := checksum >>> 25
  let shifted := ((checksum &&& 0x1ffffff) <<< 5) ^^^ value
  (generators.zipIdx.foldl fun acc g => if (top >>> g.2) % 2 = 1 then acc ^^^ g.1 else acc) shifted

def polymod (values : List ℕ) : ℕ := values.foldl polymodStep 1

/-- The values of the human readable part that the checksum covers. -/
def expandHrp (hrp : String) : List ℕ :=
  hrp.toList.map (fun c => c.toNat / 32) ++ [0] ++ hrp.toList.map fun c => c.toNat % 32

/-- The bits of a number, the highest of `n` first. -/
def bits (n x : ℕ) : List Bool := (List.range n).reverse.map fun i => x.testBit i

def ofBits (bs : List Bool) : ℕ := bs.foldl (fun acc b => 2 * acc + b.toNat) 0

/-- Bytes in groups of five bits; 20 bytes leave no bit over. -/
def toGroups (bytes : Bytes) : List ℕ :=
  ((bytes.flatMap fun b => bits 8 b.toNat).toChunks 5).map ofBits

/-- The bytes of a list of groups of five bits. -/
def ofGroups (groups : List ℕ) : Bytes :=
  ((groups.flatMap (bits 5)).toChunks 8).map fun bs => UInt8.ofNat (ofBits bs)

/-- The text of an address; `const` tells bech32m from bech32. -/
def encodeBech32 (const : ℕ) (hrp : String) (bytes : Bytes) : String :=
  let data := toGroups bytes
  let checksum := polymod (expandHrp hrp ++ data ++ List.replicate 6 0) ^^^ const
  let groups := data ++ (List.range 6).map fun i => (checksum >>> (5 * (5 - i))) % 32
  hrp ++ "1" ++ String.ofList (groups.map fun g => charset.getD g 'q')

/-- The address that a text encodes, in lower case. -/
def parseBech32 (const : ℕ) (s : String) : Option Address :=
  let pieces := s.toList.splitOn '1'
  let hrp := String.ofList (['1'].intercalate pieces.dropLast)
  let data := (pieces.getLastD []).map fun c => charset.idxOf c
  let bytes := ofGroups (data.take (data.length - 6))
  if h : bytes.length = 20 then
    if encodeBech32 const hrp bytes = s then some { bytes := ⟨bytes, h⟩, hrp := hrp } else none
  else none

def bech32m : ℕ := 0x2bc830a3

def bech32 : ℕ := 1

/-! ## Protobuf -/

/-- The variable-length encoding of a number of at most 64 bits. -/
def varint : ℕ → ℕ → Bytes
  | 0, _ => []
  | fuel + 1, x =>
    if x < 128 then [UInt8.ofNat x] else UInt8.ofNat (x % 128 + 128) :: varint fuel (x / 128)

/-- A field of type `uint64`, absent when it is zero. -/
def uint64Field (number x : ℕ) : Bytes :=
  if x = 0 then [] else varint 10 (8 * number) ++ varint 10 x

/-- An embedded message. -/
def messageField (number : ℕ) (message : Bytes) : Bytes :=
  varint 10 (8 * number + 2) ++ varint 10 message.length ++ message

/-- A field of type `bytes` or `string`, absent when it is empty. -/
def bytesField (number : ℕ) (bytes : Bytes) : Bytes :=
  if bytes = [] then [] else messageField number bytes

/-- The number that a text of bytes starts with, and the bytes after it. -/
def readVarint : ℕ → Bytes → Option (ℕ × Bytes)
  | 0, _ => none
  | _ + 1, [] => none
  | fuel + 1, b :: bytes =>
    if b.toNat < 128 then some (b.toNat, bytes)
    else do
      let (x, rest) ← readVarint fuel bytes
      some (x * 128 + (b.toNat - 128), rest)

/-- The value of a field: a number, or the bytes of a text or of a message. -/
inductive FieldValue where
  | number (x : ℕ)
  | bytes (bs : Bytes)
  deriving DecidableEq

/-- The fields of a message, in the order of its bytes.  Fields of a fixed width and groups, which the
messages of the runs do not have, are not read. -/
def readFields : ℕ → Bytes → Option (List (ℕ × FieldValue))
  | _, [] => some []
  | 0, _ => none
  | fuel + 1, bytes => do
    let (tag, bytes) ← readVarint 10 bytes
    let (x, bytes) ← readVarint 10 bytes
    if tag % 8 = 0 then do
      let fields ← readFields fuel bytes
      some ((tag / 8, .number x) :: fields)
    else if tag % 8 = 2 ∧ x ≤ bytes.length then do
      let fields ← readFields fuel (bytes.drop x)
      some ((tag / 8, .bytes (bytes.take x)) :: fields)
    else none

/-- `Transaction` of `protocol/transaction/v1`, the body in an `Any`. -/
def encodeTransaction (tx : Transaction) : Bytes :=
  bytesField 1 tx.signature ++ bytesField 2 tx.verificationKey.toList ++
    messageField 3
      (bytesField 1 (asBytes "/astria.protocol.transaction.v1.TransactionBody") ++
        bytesField 2 tx.bodyBytes)

/-- `Deposit` of `sequencerblock/v1`. -/
def encodeDeposit (d : Deposit) : Bytes :=
  messageField 1
      (bytesField 2 (asBytes (encodeBech32 bech32m d.bridgeAddress.hrp d.bridgeAddress.bytes.toList))) ++
    messageField 2 (bytesField 1 d.rollupId.inner.toList) ++
    messageField 3 (uint64Field 1 (d.amount % 2 ^ 64) ++ uint64Field 2 (d.amount / 2 ^ 64)) ++
    bytesField 4 (asBytes d.asset.toString) ++ bytesField 5 (asBytes d.destinationChainAddress) ++
    messageField 6
      (bytesField 1 (asBytes (String.ofList (d.sourceTransactionId.toList.flatMap Denom.hexByte)))) ++
    uint64Field 7 d.sourceActionIndex

/-- `DataItem` of `sequencerblock/v1`; a set `oneof` is written even when it is empty. -/
def encodeDataItem : RawDataItem → Bytes
  | .rollupTransactionsRoot root => messageField 1 root
  | .rollupIdsRoot root => messageField 2 root
  | .upgradeChangeHashes hashes => messageField 3 (hashes.flatMap (messageField 1))
  | .extendedCommitInfo info => messageField 4 info

/-! ## Packets -/

/-- The JSON form of the data of a packet, on texts with nothing to escape. -/
def serializePacketData (data : FungibleTokenPacketData) : Bytes :=
  let field (name value : String) : String := "\"" ++ name ++ "\":\"" ++ value ++ "\""
  asBytes ("\x7b" ++ ",".intercalate
    ([field "denom" data.denom, field "amount" data.amount, field "sender" data.sender,
      field "receiver" data.receiver] ++ if data.memo = "" then [] else [field "memo" data.memo]) ++
        "\x7d")

/-- The data of a packet in the form that `serializePacketData` writes. -/
def parsePacketData (bytes : Bytes) : Option FungibleTokenPacketData :=
  let pieces := (bytes.map fun b => Char.ofNat b.toNat).splitOn '"'
  let value (i : ℕ) : String := String.ofList (pieces.getD i [])
  let data : FungibleTokenPacketData :=
    { denom := value 3, amount := value 7, sender := value 11, receiver := value 15, memo := value 19 }
  if serializePacketData data = bytes then some data else none

/-- An acknowledgement of the transfer application. -/
def serializeAcknowledgement : TokenTransferAcknowledgement → Bytes
  | .success => asBytes "\x7b\"result\":\"AQ==\"\x7d"
  | .error message => asBytes ("\x7b\"error\":\"" ++ message ++ "\"\x7d")

/-- An acknowledgement in the form that `serializeAcknowledgement` writes. -/
def parseAcknowledgement (bytes : Bytes) : Option TokenTransferAcknowledgement :=
  if bytes = serializeAcknowledgement .success then some .success
  else
    let pieces := (bytes.map fun b => Char.ofNat b.toNat).splitOn '"'
    let ack := TokenTransferAcknowledgement.error (String.ofList (pieces.getD 3 []))
    if serializeAcknowledgement ack = bytes then some ack else none

/-! ## Instances -/

/-- The external functions.  The IBC component accepts every message and keeps no record of it, as the
real one accepts the messages of the runs, whose proofs are valid. -/
scoped instance : External where
  sha256 bytes := ⟨Sha256.digest bytes, Sha256.length_digest bytes⟩
  displayAddress address := encodeBech32 bech32m address.hrp address.bytes.toList
  displayCompatAddress address := encodeBech32 bech32 address.hrp address.bytes.toList
  parseBech32m := parseBech32 bech32m
  parseBech32 := parseBech32 bech32
  validPrefix hrp := hrp ≠ "" && hrp.toList.all fun c => 33 ≤ c.toNat && c.toNat ≤ 126
  validChainId chainId := chainId ≠ "" && chainId.length ≤ 50
  parsePacketData := parsePacketData
  serializePacketData := serializePacketData
  parseWithdrawalMemo _ := none
  parseDepositMemo _ := none
  parseAcknowledgement := parseAcknowledgement
  serializeAcknowledgement := serializeAcknowledgement
  ibcCheckStateless _ := .ok ()
  ibcHandle _ _ := pure ()
  ibcWriteAcknowledgement _ _ := pure ()
  ibcSendPacketCheck _ _ _ _ := .ok ()
  ibcSendPacketExecute _ component := component
  ibcInitChain _ component := component
  ibcBeginBlock _ _ component := component
  ibcClientActive _ _ _ := true
  ibcClientState _ _ := none
  ibcConsensusState _ _ _ := none
  ibcPutConsensusState _ _ _ _ := pure ()
  ibcPutClient _ _ component := component

scoped instance : TransactionCodec where
  encodeTransaction := encodeTransaction

/-- The decoders of a block, which no run here calls, accept nothing. -/
scoped instance : BlockCodec where
  encodeDataItem := encodeDataItem
  decodeDataItem _ := none
  decodeTransaction _ := none
  encodeInfo _ := []
  decodeInfo _ := none
  extendedCommitInfoToRaw _ := []
  extendedCommitInfoFromRaw _ := none
  decodeOracleVoteExtension _ := none
  encodeSequencedData data := bytesField 1 data
  encodeDeposit d := messageField 2 (encodeDeposit d)

/-- The times are those from 1970 to 9999, in nanoseconds. -/
scoped instance : TimeCodec where
  timeToRaw time := { seconds := time / 10 ^ 9, nanos := time % 10 ^ 9 }
  timeFromRaw raw :=
    if 0 ≤ raw.seconds ∧ raw.seconds ≤ 253402300799 ∧ 0 ≤ raw.nanos ∧ raw.nanos < 10 ^ 9 then
      some (raw.seconds * 10 ^ 9 + raw.nanos).toNat
    else none

/-- The encoding of a change goes into its hash alone, which no run here looks at. -/
scoped instance : UpgradeCodec where
  encodeChange _ _ := []

/-! ## The test genesis -/

/-- The verification key of the source's test signer `alice`. -/
def aliceKey : Bytes32 :=
  ⟨[0xd5, 0xbf, 0x4a, 0x3f, 0xcc, 0xe7, 0x17, 0xb0, 0x38, 0x8b, 0xcc, 0x27, 0x49, 0xeb, 0xc1, 0x48,
    0xad, 0x99, 0x69, 0xb2, 0x3f, 0x45, 0xee, 0x1b, 0x60, 0x5f, 0xd5, 0x87, 0x78, 0x57, 0x6a, 0xc4],
    rfl⟩

def bobKey : Bytes32 :=
  ⟨[0xa1, 0x17, 0xbd, 0x90, 0xf6, 0x10, 0x2d, 0x64, 0xa9, 0x50, 0x11, 0x6a, 0x82, 0xc4, 0x60, 0xa6,
    0x7c, 0x8d, 0xd6, 0xc0, 0x83, 0x17, 0x25, 0x90, 0x30, 0xb1, 0x52, 0xf7, 0x29, 0x80, 0x7c, 0xa2],
    rfl⟩

def carolKey : Bytes32 :=
  ⟨[0x49, 0x48, 0x71, 0x96, 0xb0, 0xa7, 0x46, 0x37, 0x8a, 0xa0, 0xa1, 0x97, 0x65, 0x63, 0x6f, 0x9c,
    0xe9, 0x8b, 0xf5, 0xe8, 0xb9, 0xea, 0xd1, 0x2c, 0xb7, 0x83, 0x31, 0x00, 0x57, 0x17, 0xa5, 0x3f],
    rfl⟩

def judyKey : Bytes32 :=
  ⟨[0xfd, 0x57, 0x11, 0x03, 0x2c, 0x44, 0x81, 0x42, 0x5b, 0xb1, 0xfe, 0xb0, 0x15, 0xbd, 0x84, 0x27,
    0xda, 0xe9, 0x6c, 0xcf, 0x4c, 0xb3, 0xb7, 0x76, 0x9f, 0xa6, 0x5f, 0x8e, 0x70, 0x1b, 0x63, 0xd7],
    rfl⟩

/-- `astria_address`. -/
def astriaAddress (bytes : AddressBytes) : Address := { bytes := bytes, hrp := "astria" }

/-- `ALICE_ADDRESS`. -/
def aliceAddress : Address :=
  astriaAddress ⟨[0x1c, 0x0c, 0x49, 0x0f, 0x1b, 0x55, 0x28, 0xd8, 0x17, 0x3c, 0x5d, 0xe4, 0x6d, 0x13,
    0x11, 0x60, 0xe4, 0xb2, 0xc0, 0xc3], rfl⟩

/-- `BOB_ADDRESS`. -/
def bobAddress : Address :=
  astriaAddress ⟨[0x22, 0x69, 0xac, 0xa7, 0xb7, 0xc0, 0x3c, 0x7d, 0x07, 0x34, 0x5f, 0x83, 0xdb, 0x4f,
    0xab, 0xab, 0xd1, 0xa0, 0x55, 0x70], rfl⟩

/-- `CAROL_ADDRESS`. -/
def carolAddress : Address :=
  astriaAddress ⟨[0x4e, 0x88, 0x46, 0xb8, 0x2a, 0x8f, 0x31, 0xfd, 0x59, 0x26, 0x5a, 0x90, 0x05, 0x95,
    0x9c, 0x4a, 0x03, 0x0f, 0xc4, 0x4c], rfl⟩

/-- `JUDY_ADDRESS`. -/
def judyAddress : Address :=
  astriaAddress ⟨[0x98, 0x9a, 0x77, 0x16, 0x0c, 0xb0, 0xe9, 0x6e, 0x2d, 0x16, 0x80, 0x83, 0xab, 0x72,
    0xff, 0xe8, 0x9b, 0x41, 0xc1, 0x99], rfl⟩

/-- `TED_ADDRESS`. -/
def tedAddress : Address :=
  astriaAddress ⟨[0x4c, 0x4f, 0x91, 0xd8, 0xa9, 0x18, 0x35, 0x7a, 0xb5, 0xf6, 0xf1, 0x9c, 0x1e, 0x17,
    0x99, 0x68, 0xfc, 0x39, 0xbb, 0x44], rfl⟩

set_option maxRecDepth 10000 in
example : addressBytes aliceKey = aliceAddress.bytes := by decide +kernel

example : encodeBech32 bech32m "astria" aliceAddress.bytes.toList =
    "astria1rsxyjrcm255ds9euthjx6yc3vrjt9sxrm9cfgm" := by decide +kernel

/-- `nria`. -/
def nria : TracePrefixed := { trace := [], baseDenom := "nria" }

/-- `default_fees`. -/
def defaultFees : ActionKind → Option FeeComponents
  | .transfer => some { base := 12, multiplier := 0 }
  | .rollupDataSubmission => some { base := 32, multiplier := 1 }
  | .initBridgeAccount => some { base := 48, multiplier := 0 }
  | .bridgeLock => some { base := 12, multiplier := 1 }
  | .bridgeSudoChange => some { base := 24, multiplier := 0 }
  | .ics20Withdrawal => some { base := 24, multiplier := 0 }
  | .bridgeTransfer => some { base := 24, multiplier := 0 }
  | .bridgeUnlock => some { base := 12, multiplier := 0 }
  | _ => some { base := 0, multiplier := 0 }

/-- An account of `default_genesis_accounts`. -/
def genesisAccount (address : Address) : GenesisAccount :=
  { address := address, balance := 10 ^ 19, balance_le := by decide }

/-- `get_test_genesis_state`, with a relayer. -/
def testGenesisState : GenesisAppState where
  addressPrefixes := ("astria", "astriacompat")
  accounts := [genesisAccount aliceAddress, genesisAccount bobAddress, genesisAccount carolAddress]
  authoritySudoAddress := judyAddress
  ibcSudoAddress := tedAddress
  ibcRelayerAddresses := [carolAddress]
  nativeAssetBaseDenomination := some nria
  ibcParameters :=
    { ibcEnabled := true
      inboundIcs20TransfersEnabled := true
      outboundIcs20TransfersEnabled := true }
  allowedFeeAssets := [.tracePrefixed nria]
  fees := { components := defaultFees, feeChange := rfl }

/-- The state after `init_chain` on the test genesis. -/
def genesis : State :=
  { base := Exec.final (initChain testGenesisState [] "test" Base.empty), oracle := Oracle.empty }

set_option maxRecDepth 10000 in
/-- The test genesis is one. -/
theorem initChain_genesis :
    initChain testGenesisState [] "test" Base.empty = .ok () genesis.base := by
  have hok : Exec.isOk (initChain testGenesisState [] "test" Base.empty) = true := by decide +kernel
  exact Exec.eq_ok_of_isOk hok

/-- A transaction of a test signer with one action; the runs check no signature. -/
def signedTransaction (key : Bytes32) (nonce : ℕ) (act : Action) : Transaction :=
  { signature := List.replicate 64 0
    verificationKey := key
    actions :=
      { group := act.group
        inner := [act]
        nonempty := by simp
        sameGroup := by simp
        single := by simp }
    params := { nonce := nonce, chainId := "test" }
    bodyBytes := [] }

/-- The first transaction of a signer: its account becomes a bridge account for the native asset,
with itself as sudo and withdrawer. -/
def initBridge (key : Bytes32) : Transaction :=
  signedTransaction key 0 (.initBridgeAccount
    { rollupId := { inner := List.Vector.replicate 32 7 }
      asset := .tracePrefixed nria
      feeAsset := .tracePrefixed nria
      sudoAddress := none
      withdrawerAddress := none })

/-- The sudo account sets the fees of bridge transfers, which the genesis does not store. -/
def setBridgeTransferFees : Transaction :=
  signedTransaction judyKey 0 (.feeChange
    { kind := .bridgeTransfer, fees := { base := 24, multiplier := 0 } })

/-- The state after a transaction. -/
def after (tx : Transaction) (s : State) : State := (executeTransaction tx s).2

/-- Alice and bob have bridge accounts, and bridge transfers are enabled. -/
def bridges : State :=
  after setBridgeTransferFees (after (initBridge bobKey) (after (initBridge aliceKey) genesis))

/-- A bridge transfer from bob's bridge account to alice's. -/
def bridgeTransferTransaction (key : Bytes32) (nonce : ℕ) : Transaction :=
  signedTransaction key nonce (.bridgeTransfer
    { toAddress := aliceAddress
      amount := 5
      feeAsset := .tracePrefixed nria
      destinationChainAddress := "rollup"
      bridgeAddress := bobAddress
      rollupBlockNumber := 1
      rollupWithdrawalEventId := "e" })

theorem isCurrency_btc : isCurrency "BTC" = true := by decide

theorem isCurrency_eth : isCurrency "ETH" = true := by decide

theorem isCurrency_usd : isCurrency "USD" = true := by decide

/-- A node without upgrades. -/
def withoutUpgrades : UpgradesHandler :=
  { upgrades := { aspen := none }, consensusParamsFromCometbft := fun _ => none }

/-- A block with the commitments to its transactions and to the deposits they make. -/
def block (height : ℕ) (txs : List Transaction) (deposits : List Deposit) : Block :=
  let commitments := generateRollupDatasCommitment txs deposits
  { hash := List.Vector.replicate 32 1
    data :=
      { misbehavior := []
        height := height
        time := 0
        nextValidatorsHash := none
        proposerAddress := judyAddress.bytes }
    expanded :=
      { dataRootHash := dataRoot
          ([External.sha256 commitments.rollupDatasRoot.toList,
            External.sha256 commitments.rollupIdsRoot.toList] ++ txs.map transactionId)
        rollupTransactionsRoot := commitments.rollupDatasRoot
        rollupIdsRoot := commitments.rollupIdsRoot
        upgradeChangeHashes := []
        extendedCommitInfo := none
        userSubmittedTransactions := txs } }

end Astria.Sequencer.TestUtils
