import Astria.Sequencer.State

/-!
# Code outside the repository

The functions that the sequencer's handlers take from other crates: SHA-256, the bech32
address formats, the JSON formats of the packet data and of the memos, and the penumbra IBC
component.  They are parameters of the model, gathered in the class `External`; the IBC
component works on its own store and cannot reach the sequencer's components.
-/

namespace Astria.Sequencer

open Astria.Core Astria.Lib

/-! ## Formats -/

/-- `FungibleTokenPacketData` of an ICS20 packet. -/
structure FungibleTokenPacketData where
  denom : String
  amount : String
  sender : String
  receiver : String
  memo : String
  deriving DecidableEq

/-- The memo of a withdrawal from a rollup (`protocol/memos/v1.rs`). -/
structure Ics20WithdrawalFromRollup where
  memo : String
  rollupBlockNumber : ℕ
  rollupReturnAddress : String
  rollupWithdrawalEventId : String
  deriving DecidableEq

/-- The memo of a transfer to a rollup (`protocol/memos/v1.rs`). -/
structure Ics20TransferDeposit where
  rollupDepositAddress : String
  deriving DecidableEq

/-- `TokenTransferAcknowledgement`. -/
inductive TokenTransferAcknowledgement where
  | success
  | error (message : String)
  deriving DecidableEq

/-! ## The IBC component -/

/-- What the IBC component reads and writes: its own keys and the events it records. -/
structure IbcComponent where
  store : IbcStore
  nonverifiable : IbcStore
  events : List Event

/-- What the host interface tells the IBC component (`ibc/host_interface.rs`). -/
structure HostInfo where
  chainId : Option String
  revisionNumber : Option ℕ
  blockHeight : Option ℕ
  blockTimestamp : Option Time

/-- `IBCParameters`. -/
structure IbcParameters where
  ibcEnabled : Bool
  inboundIcs20TransfersEnabled : Bool
  outboundIcs20TransfersEnabled : Bool
  deriving DecidableEq

/-- The fields of the header that `begin_block` of the IBC component is given. -/
structure BeginBlock where
  block : BlockData
  appHash : Bytes32
  chainId : String
  deriving DecidableEq

/-- A packet that a withdrawal sends. -/
structure IbcPacket where
  sourcePort : PortId
  sourceChannel : ChannelId
  timeoutHeight : IbcHeight
  timeoutTime : ℕ
  data : Bytes
  deriving DecidableEq

/-- A light client: the fields that recovering a client compares or replaces, and the rest. -/
structure ClientState where
  chainId : String
  trustLevel : Bytes
  trustingPeriod : ℕ
  unbondingPeriod : ℕ
  maxClockDrift : ℕ
  latestHeight : IbcHeight
  proofSpecs : Bytes
  upgradePath : List String
  rest : Bytes
  deriving DecidableEq

abbrev IbcM := Exec Report IbcComponent

/-- The functions of other crates that the handlers call. -/
class External where
  /-- SHA-256. -/
  sha256 : Bytes → Bytes32
  /-- The bech32m form of an address. -/
  displayAddress : Address → String
  /-- The bech32 form of an address. -/
  displayCompatAddress : Address → String
  /-- Parses an address in its bech32m form. -/
  parseBech32m : String → Option Address
  /-- Parses an address in its bech32 form. -/
  parseBech32 : String → Option Address
  /-- Whether a string can be the human readable prefix of an address. -/
  validPrefix : String → Bool
  /-- Whether a string is a chain id of CometBFT. -/
  validChainId : String → Bool
  parsePacketData : Bytes → Option FungibleTokenPacketData
  serializePacketData : FungibleTokenPacketData → Bytes
  parseWithdrawalMemo : String → Option Ics20WithdrawalFromRollup
  parseDepositMemo : String → Option Ics20TransferDeposit
  parseAcknowledgement : Bytes → Option TokenTransferAcknowledgement
  serializeAcknowledgement : TokenTransferAcknowledgement → Bytes
  /-- The checks of a relayed message that read no state. -/
  ibcCheckStateless : IbcRelay → Except Report Unit
  /-- What the component does with a relayed message before it hands over to the transfer
  application: the proofs are verified and the receipt or the commitment is updated. -/
  ibcHandle : IbcRelay → HostInfo → IbcM Unit
  ibcWriteAcknowledgement : Packet → Bytes → IbcM Unit
  ibcSendPacketCheck : IbcPacket → HostInfo → Time → IbcStore → Except Report Unit
  /-- `send_packet_execute`, which cannot fail. -/
  ibcSendPacketExecute : IbcPacket → IbcComponent → IbcComponent
  /-- `Ibc::init_chain`, which cannot fail. -/
  ibcInitChain : IbcParameters → IbcComponent → IbcComponent
  /-- `Ibc::begin_block`, which cannot fail. -/
  ibcBeginBlock : BeginBlock → HostInfo → IbcComponent → IbcComponent
  /-- Whether a client is active, at a block time. -/
  ibcClientActive : String → Time → IbcStore → Bool
  ibcClientState : String → IbcStore → Option ClientState
  ibcConsensusState : IbcHeight → String → IbcStore → Option Bytes
  ibcPutConsensusState : IbcHeight → String → Bytes → HostInfo → IbcM Unit
  /-- `put_client`, which cannot fail. -/
  ibcPutClient : String → ClientState → IbcComponent → IbcComponent

end Astria.Sequencer

namespace Astria.Core

open Astria.Sequencer

variable [ext : External]

/-- `TracePrefixed::to_ibc_prefixed`: the hash of the display form. -/
def TracePrefixed.toIbcPrefixed (d : TracePrefixed) : IbcPrefixed :=
  { id := ext.sha256 (asBytes d.display) }

/-- `Denom::to_ibc_prefixed`. -/
def Denom.toIbcPrefixed : Denom → IbcPrefixed
  | .tracePrefixed trace => trace.toIbcPrefixed
  | .ibcPrefixed ibc => ibc

/-- The address of a verification key: the first 20 bytes of its hash. -/
def addressBytes (verificationKey : Bytes32) : AddressBytes :=
  ⟨(ext.sha256 verificationKey.toList).toList.take 20, by simp⟩

end Astria.Core

namespace Astria.Sequencer

open Astria.Core Astria.Lib

/-! ## The component inside the state -/

/-- The part of the state that the IBC component works on. -/
def Base.ibcComponent (s : Base) : IbcComponent :=
  { store := s.ibcStore
    nonverifiable := s.nonverifiable.ibcStore
    events := s.ephemeral.events }

def Base.setIbcComponent (c : IbcComponent) (s : Base) : Base :=
  { s with
    ibcStore := c.store
    nonverifiable.ibcStore := c.nonverifiable
    ephemeral.events := c.events }

def Base.hostInfo (s : Base) : HostInfo :=
  { chainId := s.chain.chainId
    revisionNumber := s.chain.revisionNumber
    blockHeight := s.chain.blockHeight
    blockTimestamp := s.chain.blockTimestamp }

/-- Runs a function of the IBC component that cannot fail. -/
def writeIbc (f : IbcComponent → IbcComponent) : BaseM Unit :=
  Exec.writes fun s => s.setIbcComponent (f s.ibcComponent)

/-- Runs a computation of the IBC component. -/
def onIbc {α : Type} (x : IbcM α) : BaseM α :=
  Exec.zoom Base.ibcComponent Base.setIbcComponent x

end Astria.Sequencer
