import Astria.Sequencer.Funds

/-!
# ICS20 transfers

The withdrawals over IBC (`action_handler/impls/ics20_withdrawal.rs`) and the transfer
application that the IBC component calls for relayed packets (`ibc/ics20_transfer.rs`).

A received packet whose transfer fails is acknowledged with the error, and the writes made
before the failure stay: `recvPacketExecute` runs `receiveTokens` under `attempt`.
-/

namespace Astria.Sequencer

open Astria.Core Astria.Lib Exec

section

variable [ext : External]

/-- `MAX_PACKET_DATA_BYTE_LENGTH`. -/
def maxPacketDataByteLength : ℕ := 2048

/-- `MAX_ROLLUP_ADDRESS_BYTE_LENGTH`. -/
def maxRollupAddressByteLength : ℕ := 256

/-- `PortId::transfer()`. -/
def transferPort : PortId := "transfer"

/-! ## Withdrawals -/

/-- `Ics20Withdrawal::check_stateless`. -/
def Ics20Withdrawal.checkStateless (act : Ics20Withdrawal) : Except Report Unit :=
  if act.timeoutTime = 0 then .error ["timeout time must be non-zero"]
  else if ¬0 < act.amount then .error ["amount must be greater than zero"]
  else if act.bridgeAddress.isSome then
    match ext.parseWithdrawalMemo act.memo with
    | none => .error ["failed to parse memo for ICS bound bridge withdrawal"]
    | some memo =>
      if memo.rollupReturnAddress = "" then .error ["rollup return address must be non-empty"]
      else if ¬memo.rollupReturnAddress.utf8ByteSize ≤ 256 then
        .error ["rollup return address must be no more than 256 bytes"]
      else if memo.rollupWithdrawalEventId = "" then
        .error ["rollup withdrawal event id must be non-empty"]
      else if ¬memo.rollupWithdrawalEventId.utf8ByteSize ≤ 256 then
        .error ["rollup withdrawal event id must be no more than 256 bytes"]
      else if memo.rollupBlockNumber = 0 then .error ["rollup block number must be non-zero"]
      else .ok ()
  else .ok ()

/-- `is_source`: whether the withdrawn asset goes to escrow rather than being burned. -/
def isSource (port : PortId) (channel : ChannelId) (asset : Denom) : Bool :=
  match asset with
  | .tracePrefixed trace => !trace.hasLeadingPort port || !trace.hasLeadingChannel channel
  | .ibcPrefixed _ => false

/-- The withdrawal event of a withdrawal from a bridge account. -/
def checkWithdrawalMemo (act : Ics20Withdrawal) : BaseM Unit :=
  match act.bridgeAddress with
  | none => pure ()
  | some bridgeAddress => do
    wrapErr "failed to verify that bridge address address has permitted base prefix"
      (ensureBasePrefix bridgeAddress)
    let memo ← require (ext.parseWithdrawalMemo act.memo)
      ["failed to parse memo for ICS bound bridge withdrawal"]
    wrapErr "withdrawal event already processed"
      (checkAndSetWithdrawalEvent bridgeAddress.bytes memo.rollupWithdrawalEventId
        memo.rollupBlockNumber)

/-- `establish_withdrawal_target`. -/
def establishWithdrawalTarget (act : Ics20Withdrawal) (source : AddressBytes) :
    BaseM AddressBytes :=
  match act.bridgeAddress with
  | some bridgeAddress => do
    let stored ← reads fun s => s.bridge.withdrawerAddress bridgeAddress.bytes
    let withdrawer ← require stored ["bridge address must have a withdrawer address set"]
    ensure (withdrawer = source)
      ["sender does not match bridge withdrawer address; unauthorized"]
    pure bridgeAddress.bytes
  | none => do
    let isBridge ← reads fun s => s.isABridgeAccount source
    ensure (isBridge = false)
      ["sender cannot be a bridge address if bridge address is not set"]
    pure source

/-- An address under another prefix, `to_prefix`. -/
def toPrefix (address : Address) (hrp : String) : Except Report Address :=
  if ext.validPrefix hrp then .ok { address with hrp := hrp }
  else .error ["failed to construct address"]

/-- The sender field of the packet of a withdrawal. -/
def packetSender (act : Ics20Withdrawal) : BaseM String :=
  if act.useCompatAddress then do
    let compat ← wrapErr
      ("need to construct bech32 compatible address for IBC communication but failed reading " ++
        "required prefix from state")
      (tryReads Base.getIbcCompatPrefix)
    let address ← wrapErr "failed to convert the address to the bech32 compatible prefix"
      (lift (toPrefix act.returnAddress compat))
    pure (ext.displayCompatAddress address)
  else
    pure (ext.displayAddress act.returnAddress)

/-- `create_ibc_packet_from_withdrawal`. -/
def createIbcPacket (act : Ics20Withdrawal) : BaseM IbcPacket := do
  let sender ← packetSender act
  pure
    { sourcePort := transferPort
      sourceChannel := act.sourceChannel
      timeoutHeight := act.timeoutHeight
      timeoutTime := act.timeoutTime
      data := ext.serializePacketData
        { denom := act.denom.toString
          amount := toString act.amount
          sender := sender
          receiver := act.destinationChainAddress
          memo := act.memo } }

/-- The escrow of a withdrawn asset. -/
def escrow (act : Ics20Withdrawal) : BaseM Unit :=
  if isSource transferPort act.sourceChannel act.denom then do
    let balance ← reads fun s =>
      s.ibcChannelBalance act.sourceChannel act.denom.toIbcPrefixed
    let new ← require (checkedAdd u128Max balance act.amount)
      ["overflow when adding to channel balance"]
    writes (Base.putIbcChannelBalance act.sourceChannel act.denom.toIbcPrefixed new)
  else
    pure ()

/-- `Ics20Withdrawal::check_and_execute` (`impls/ics20_withdrawal.rs`, lines 104–179). -/
def Ics20Withdrawal.checkAndExecute (act : Ics20Withdrawal) : BaseM Unit := do
  let context ← getTransactionContext
  wrapErr "failed to verify that return address has permitted base prefix"
    (ensureBasePrefix act.returnAddress)
  checkWithdrawalMemo act
  let target ← wrapErr "failed establishing which account to withdraw funds from"
    (establishWithdrawalTarget act context.addressBytes)
  let timestamp ← wrapErr "failed to get block timestamp" (tryReads Base.getBlockTimestamp)
  let packet ← wrapErr "failed converting the withdrawal action into IBC packet"
    (createIbcPacket act)
  let host ← reads Base.hostInfo
  wrapErr "packet failed send check"
    (tryReads fun s => ext.ibcSendPacketCheck packet host timestamp s.ibcStore)
  wrapErr "failed to decrease sender or bridge balance"
    (decreaseBalance target act.denom.toIbcPrefixed act.amount)
  escrow act
  writeIbc (ext.ibcSendPacketExecute packet)

/-! ## Checks of relayed messages -/

/-- The `chan_*_check` functions of the transfer application. -/
def channelCheck : ChannelHandshake → Except Report Unit
  | .openInit unordered version =>
    if unordered = false then .error ["channel order must be unordered for Ics20 transfer"]
    else if version ≠ "ics20-1" then
      .error ["channel version must be ics20-1 for Ics20 transfer"]
    else .ok ()
  | .openTry unordered version =>
    if unordered = false then .error ["channel order must be unordered for Ics20 transfer"]
    else if version ≠ "ics20-1" then
      .error ["counterparty version must be ics20-1 for Ics20 transfer"]
    else .ok ()
  | .openAck version =>
    if version ≠ "ics20-1" then
      .error ["counterparty version must be ics20-1 for Ics20 transfer"]
    else .ok ()
  | .openConfirm => .ok ()
  | .closeInit => .error ["ics20 always aborts on chan_close_init"]
  | .closeConfirm => .ok ()

/-- `recv_packet_check`. -/
def recvPacketCheck (packet : Packet) : Except Report Unit :=
  if packet.data = [] then .error ["packet data is empty"]
  else if maxPacketDataByteLength < packet.data.length then
    .error ["packet data is too long: exceeds MAX_PACKET_DATA_BYTE_LENGTH"]
  else .ok ()

/-- `is_transfer_source_zone`. -/
def isTransferSourceZone (asset : TracePrefixed) (port : PortId) (channel : ChannelId) : Bool :=
  asset.hasLeadingPort port && asset.hasLeadingChannel channel

/-- `is_refund_source_zone`. -/
def isRefundSourceZone (asset : TracePrefixed) (port : PortId) (channel : ChannelId) : Bool :=
  !isTransferSourceZone asset port channel

/-- `parse_asset`. -/
def parseAsset (input : String) : BaseM TracePrefixed := do
  let denom ← require (Denom.parse input) ["failed parsing input as IBC denomination"]
  match denom with
  | .tracePrefixed trace => pure trace
  | .ibcPrefixed ibc => do
    let mapped ← reads fun s => s.mapIbcToTracePrefixedAsset ibc
    require mapped ["could not find trace prefixed counterpart to ibc prefixed asset in state"]

/-- `refund_tokens_check`. -/
def refundTokensCheck (packet : Packet) : BaseM Unit := do
  let data ← require (ext.parsePacketData packet.data)
    ["failed to decode fungible token packet data json"]
  let asset ← wrapErr
    ("failed to read packet.denom `" ++ data.denom ++ "` as trace prefixed asset")
    (parseAsset data.denom)
  if isRefundSourceZone asset packet.portOnA packet.chanOnA then do
    let balance ← reads fun s => s.ibcChannelBalance packet.chanOnA asset.toIbcPrefixed
    let amount ← require (parseU128 data.amount) ["failed to parse packet amount as u128"]
    ensure (amount ≤ balance) ["insufficient balance to refund tokens to sender"]
  else
    pure ()

/-! ## Deposits -/

/-- The deposit of a packet. -/
def ics20Deposit (bridgeAddress : Address) (destinationChainAddress : String)
    (asset : TracePrefixed) (amount : ℕ) (rollupId : RollupId) (context : TransactionContext) :
    Deposit :=
  { bridgeAddress := bridgeAddress
    rollupId := rollupId
    amount := amount
    asset := .tracePrefixed asset
    destinationChainAddress := destinationChainAddress
    sourceTransactionId := context.transactionId
    sourceActionIndex := context.positionInTransaction }

/-- `emit_deposit` (`ibc/ics20_transfer.rs`, lines 724–771). -/
def emitDeposit (bridgeAddress : Address) (destinationChainAddress : String)
    (asset : TracePrefixed) (amount : ℕ) : BaseM Unit := do
  let storedId ← reads fun s => s.bridge.rollupId bridgeAddress.bytes
  let rollupId ← require storedId
    ["bridge account rollup ID not found in state; invalid bridge address?"]
  let allowedAsset ← wrapErr "failed to get bridge account asset ID"
    (tryReads fun s => s.getBridgeAccountIbcAsset bridgeAddress.bytes)
  ensure (allowedAsset = asset.toIbcPrefixed)
    ["asset `" ++ asset.display ++ "` with ID `" ++
      (Denom.ibcPrefixed asset.toIbcPrefixed).toString ++
      "` is not authorized for transfer to bridge account"]
  let context ← getTransactionContext
  let deposit := ics20Deposit bridgeAddress destinationChainAddress asset amount rollupId context
  writes (Base.record (.txDeposit deposit))
  writes (Base.cacheDepositEvent deposit)

/-- `emit_bridge_lock_deposit`. -/
def emitBridgeLockDeposit (bridgeAddress : Address) (asset : TracePrefixed) (amount : ℕ)
    (memo : String) : BaseM Unit := do
  let depositMemo ← require (ext.parseDepositMemo memo)
    ["failed to parse memo as Ics20TransferDepositMemo"]
  ensure (depositMemo.rollupDepositAddress ≠ "")
    ["rollup deposit address must be set to bridge funds from sequencer to rollup"]
  ensure (depositMemo.rollupDepositAddress.utf8ByteSize ≤ maxRollupAddressByteLength)
    ["rollup address is too long: exceeds MAX_ROLLUP_ADDRESS_BYTE_LENGTH"]
  emitDeposit bridgeAddress depositMemo.rollupDepositAddress asset amount

/-! ## Received packets -/

/-- The compatible form of `parse_address_on_sequencer`. -/
def parseCompatAddress (input basePrefix compatPrefix : String) : Except Report Address :=
  match ext.parseBech32 input with
  | none => .error ["failed to parse address in bech32/compat format"]
  | some address =>
    if address.hrp = compatPrefix then
      match toPrefix address basePrefix with
      | .ok converted => .ok converted
      | .error e =>
        .error (("failed to convert ibc compat prefixed address to standard base prefixed " ++
          "address") :: e)
    else .error ["address prefix is not base prefix stored in state"]

/-- A bech32m address with the base prefix, or a bech32 address with the compatible
prefix. -/
def parseSequencerAddress (input basePrefix compatPrefix : String) : Except Report Address :=
  match ext.parseBech32m input with
  | some address =>
    if address.hrp = basePrefix then .ok address
    else parseCompatAddress input basePrefix compatPrefix
  | none => parseCompatAddress input basePrefix compatPrefix

/-- `parse_address_on_sequencer`. -/
def parseAddressOnSequencer (input : String) : BaseM Address := do
  let basePrefix ← wrapErr "failed to read base prefix from state" (tryReads Base.getBasePrefix)
  let compatPrefix ← wrapErr "failed to read ibc compat prefix from state"
    (tryReads Base.getIbcCompatPrefix)
  lift (parseSequencerAddress input basePrefix compatPrefix)

/-- The asset under which a received amount is credited: the leading segment is popped on
the way back to the source zone, and the destination's segment is prefixed otherwise. -/
def receivedAsset (asset : TracePrefixed) (packet : Packet) : TracePrefixed :=
  if isTransferSourceZone asset packet.portOnA packet.chanOnA then
    asset.popLeadingPortAndChannel
  else
    { asset with trace := ⟨packet.portOnB, packet.chanOnB⟩ :: asset.trace }

/-- The deposit of a transfer to a bridge account. -/
def depositIfBridge (recipient : Address) (asset : TracePrefixed) (amount : ℕ) (memo : String) :
    BaseM Unit := do
  let isBridge ← reads fun s => s.isABridgeAccount recipient.bytes
  if isBridge then
    wrapErr "failed to execute ics20 transfer to bridge account"
      (emitBridgeLockDeposit recipient asset amount memo)
  else
    pure ()

/-- The other side of a received amount: it leaves the escrow account, or its asset is
registered. -/
def releaseOrRegister (asset : TracePrefixed) (isSourceZone : Bool) (packet : Packet)
    (amount : ℕ) : BaseM Unit :=
  if isSourceZone then
    wrapErr "failed to deduct funds from IBC escrow account"
      (decreaseIbcChannelBalance packet.chanOnB asset.toIbcPrefixed amount)
  else do
    let known ← reads fun s => (s.mapIbcToTracePrefixedAsset asset.toIbcPrefixed).isSome
    if known then pure () else writes (Base.putIbcAsset asset)

/-- What a packet transfers: the account that is credited, the amount, the denomination as
the packet names it, and the memo. -/
structure PacketTransfer where
  account : Address
  amount : ℕ
  denom : TracePrefixed
  memo : String
  deriving DecidableEq

/-- What `receive_tokens` and `refund_tokens` read off a packet before they write anything:
they differ in the field that names the account on the sequencer and in their error
contexts. -/
def parsePacketTransfer (party : FungibleTokenPacketData → String)
    (partyContext denomContext : String → String) (packet : Packet) : BaseM PacketTransfer := do
  let data ← require (ext.parsePacketData packet.data)
    ["failed to deserialize fungible token packet data"]
  let amount ← require (parseU128 data.amount) ["failed to parse packet data amount to u128"]
  let account ← wrapErr (partyContext (party data)) (parseAddressOnSequencer (party data))
  let denom ← wrapErr (denomContext data.denom) (parseAsset data.denom)
  pure { account := account, amount := amount, denom := denom, memo := data.memo }

def parseReceived (packet : Packet) : BaseM PacketTransfer :=
  parsePacketTransfer FungibleTokenPacketData.receiver
    (fun receiver => "failed parsing packet.receiver `" ++ receiver ++ "` as the recipient address")
    (fun denom => "failed reading asset `" ++ denom ++ "` from packet data") packet

/-- What `receive_tokens` does with a transfer: the deposit is cached before the escrow is
debited and the recipient credited. -/
def receiveTransfer (packet : Packet) (transfer : PacketTransfer) : BaseM Unit := do
  let asset := receivedAsset transfer.denom packet
  depositIfBridge transfer.account asset transfer.amount transfer.memo
  releaseOrRegister asset (isTransferSourceZone transfer.denom packet.portOnA packet.chanOnA)
    packet transfer.amount
  wrapErr "failed to update user account balance"
    (increaseBalance transfer.account.bytes asset.toIbcPrefixed transfer.amount)

/-- `receive_tokens` (`ibc/ics20_transfer.rs`, lines 446–532). -/
def receiveTokens (packet : Packet) : BaseM Unit := do
  let transfer ← parseReceived packet
  receiveTransfer packet transfer

/-- `{e:#}`: the hook of `astria-eyre` writes the contexts of a report under their levels, in braces. -/
def displayReport (e : Report) : String :=
  "\x7b" ++ ", ".intercalate (e.zipIdx.map fun layer =>
    "\"" ++ toString layer.2 ++ "\": \"" ++ layer.1 ++ "\"") ++ "\x7d"

/-- Whether the Aspen upgrade has shortened the error acknowledgements. -/
def Base.useNewErrorFormat (s : Base) : Bool :=
  (s.chain.upgradeChangeInfos "aspen" "ibc_acknowledgement_failure_change").isSome

/-- `recv_packet_execute`: an error of the transfer becomes an acknowledgement. -/
def recvPacketExecute (packet : Packet) : BaseM Unit := do
  let newFormat ← reads Base.useNewErrorFormat
  let result ← attempt (receiveTokens packet)
  let ack := match result with
    | .ok _ => TokenTransferAcknowledgement.success
    | .error e => .error (if newFormat then "ics20 transfer failed" else displayReport e)
  wrapErr "failed to write acknowledgement"
    (onIbc (ext.ibcWriteAcknowledgement packet (ext.serializeAcknowledgement ack)))

/-! ## Refunds -/

/-- `refund_tokens_to_sequencer_address`. -/
def refundTokensToSequencerAddress (recipient : Address) (asset : TracePrefixed) (amount : ℕ)
    (packet : Packet) : BaseM Unit := do
  if isRefundSourceZone asset packet.portOnA packet.chanOnA then
    wrapErr "failed to withdraw refund amount from escrow account"
      (decreaseIbcChannelBalance packet.chanOnA asset.toIbcPrefixed amount)
  else
    pure ()
  wrapErr "failed to update user account balance when refunding"
    (increaseBalance recipient.bytes asset.toIbcPrefixed amount)

/-- The deposit of a refund to the rollup that the withdrawal came from. -/
def depositIfFromRollup (receiver : Address) (asset : TracePrefixed) (amount : ℕ)
    (memo : String) : BaseM Unit :=
  match ext.parseWithdrawalMemo memo with
  | some rollupMemo =>
    wrapErr "failed to emit deposit for refunding tokens to rollup"
      (emitDeposit receiver rollupMemo.rollupReturnAddress asset amount)
  | none => pure ()

def parseRefunded (packet : Packet) : BaseM PacketTransfer :=
  parsePacketTransfer FungibleTokenPacketData.sender
    (fun sender => "failed parsing packet.sender `" ++ sender ++ "` as the return address")
    (fun denom => "failed parsing packet.asset `" ++ denom ++ "`") packet

/-- `refund_tokens`. -/
def refundTokens (packet : Packet) : BaseM Unit := do
  let transfer ← parseRefunded packet
  depositIfFromRollup transfer.account transfer.denom transfer.amount transfer.memo
  wrapErr "failed to refund a sequencer address"
    (refundTokensToSequencerAddress transfer.account transfer.denom transfer.amount packet)

/-! ## Relayed messages -/

/-- The refund of an acknowledged packet, unless it was received. -/
def acknowledgePacketExecute (packet : Packet) (ack : TokenTransferAcknowledgement) :
    BaseM Unit :=
  match ack with
  | .success => pure ()
  | .error _ => wrapErr "failed to refund tokens" (refundTokens packet)

/-- The execution of a relayed message: the application's check, the component's own work,
and the application's execution (`IbcRelayWithHandlers::check_and_execute`). -/
def executeIbcRelay (msg : IbcRelay) : BaseM Unit := do
  let host ← reads Base.hostInfo
  match msg with
  | .recvPacket packet _ => do
    lift (recvPacketCheck packet)
    onIbc (ext.ibcHandle msg host)
    recvPacketExecute packet
  | .acknowledgement packet bytes _ => do
    let ack ← require (ext.parseAcknowledgement bytes)
      ["failed to deserialize token transfer acknowledgement"]
    match ack with
    | .success => pure ()
    | .error _ => refundTokensCheck packet
    onIbc (ext.ibcHandle msg host)
    acknowledgePacketExecute packet ack
  | .timeout packet _ => do
    refundTokensCheck packet
    onIbc (ext.ibcHandle msg host)
    wrapErr "failed to refund tokens during timeout_packet_execute" (refundTokens packet)
  | .channel handshake _ => do
    lift (channelCheck handshake)
    onIbc (ext.ibcHandle msg host)
  | .other _ => onIbc (ext.ibcHandle msg host)

end

end Astria.Sequencer
