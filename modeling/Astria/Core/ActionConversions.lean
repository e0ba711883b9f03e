import Astria.Core.RawAction

/-!
# Actions and their messages

The conversions between the actions and their protobuf messages
(`protocol/transaction/v1/action/mod.rs`).  Where the source writes a conversion by reference and one by
value, both are written out here.

Results:
* `Transfer.lawful` to `BridgeTransfer.lawful`: the conversions of an action agree with each other, and
  an action that was read from a message is read from its own message again.
-/

namespace Astria.Core

open Astria.Lib
open Astria.Sequencer (External toBytes32)

/-! ## Code of other crates -/

/-- The formats of other crates that the messages of the actions use. -/
class WireFormats where
  /-- Whether 32 bytes encode an ed25519 verification key. -/
  validVerificationKey : Bytes32 → Bool
  /-- `ChannelId::from_str`; an identifier is displayed as its text. -/
  parseChannelId : String → Option ChannelId
  /-- `ClientId::from_str`. -/
  parseClientId : String → Option String
  /-- `IbcRelay::try_from`. -/
  ibcRelayTryFrom : Bytes → Except Report IbcRelay
  /-- `IbcRelay::into`. -/
  ibcRelayInto : IbcRelay → Bytes

section

variable [ext : External] [wire : WireFormats]

/-- The formats of other crates read back what they read once. -/
structure FormatsRead : Prop where
  address : Bech32mReads
  channelId : ∀ s id, wire.parseChannelId s = some id → wire.parseChannelId id = some id
  clientId : ∀ s id, wire.parseClientId s = some id → wire.parseClientId id = some id
  ibcRelay : Codec.Stable wire.ibcRelayTryFrom wire.ibcRelayInto

/-- `VerificationKey::try_from`. -/
def verificationKeyTryFrom (bytes : Bytes) : Option Bytes32 :=
  (toBytes32 bytes).filter wire.validVerificationKey

omit ext in
theorem verificationKeyTryFrom_toList {bytes : Bytes} {key : Bytes32}
    (h : verificationKeyTryFrom bytes = some key) : verificationKeyTryFrom key.toList = some key := by
  unfold verificationKeyTryFrom at h ⊢
  rw [Option.filter_eq_some_iff] at h
  rw [Sequencer.toBytes32_toList, Option.filter_some, if_pos h.2]

/-! ## Rollup data -/

namespace RollupDataSubmission

def protobuf : Protobuf RawRollupDataSubmission RollupDataSubmission where
  tryFromRawRef raw := do
    -- the length that was received is not part of the error
    let rollupId ← Codec.required (fieldNotSet "rollup_id") (fun id =>
      okOr (RollupId.tryFromRaw id).toOption
        ["`rollup_id` field did not contain a valid rollup ID"]) raw.rollupId
    let feeAsset ← parseDenom "`fee_asset` field did not contain a valid asset ID" raw.feeAsset
    .ok { rollupId := rollupId, data := raw.data, feeAsset := feeAsset }
  toRaw act :=
    { rollupId := some act.rollupId.inner.toList
      data := act.data
      feeAsset := act.feeAsset.toString }

omit ext wire in
theorem lawful : protobuf.Lawful where
  ref_eq _ := rfl
  toRaw_eq _ := rfl
  stable := by
    intro raw act h
    obtain ⟨id, hid, h⟩ := Codec.bind_eq_ok.mp h
    obtain ⟨feeAsset, hfee, h⟩ := Codec.bind_eq_ok.mp h
    obtain rfl := Except.ok.inj h
    have hread : RollupId.tryFromRaw id.inner.toList = .ok id := by
      rw [RollupId.tryFromRaw, Sequencer.toBytes32_toList]
    refine Codec.bind_eq_ok.mpr ⟨id, ?_, ?_⟩
    · show okOr (RollupId.tryFromRaw id.inner.toList).toOption _ = _
      rw [hread]
      rfl
    · exact Codec.bind_eq_ok.mpr ⟨feeAsset, stable_parseDenom _ hfee, rfl⟩

end RollupDataSubmission

/-! ## Transfers -/

namespace Transfer

def protobuf : Protobuf RawTransfer Transfer where
  tryFromRawRef raw := do
    let toAddress ← requiredAddress (fieldNotSet "to") "`to` field did not contain a valid address"
      raw.toAddress
    let asset ← parseDenom "`asset` field did not contain a valid asset ID" raw.asset
    let feeAsset ← parseDenom "`fee_asset` field did not contain a valid asset ID" raw.feeAsset
    -- an amount that is not set is zero
    .ok
      { toAddress := toAddress
        amount := (raw.amount.map RawUint128.toU128).getD 0
        asset := asset
        feeAsset := feeAsset }
  toRaw act :=
    { toAddress := some (Address.protobuf.toRaw act.toAddress)
      amount := some (.ofU128 act.amount)
      asset := act.asset.toString
      feeAsset := act.feeAsset.toString }

omit wire in
theorem lawful (h : Bech32mReads) : protobuf.Lawful where
  ref_eq _ := rfl
  toRaw_eq _ := rfl
  stable := by
    intro raw act hread
    obtain ⟨toAddress, hto, hread⟩ := Codec.bind_eq_ok.mp hread
    obtain ⟨asset, hasset, hread⟩ := Codec.bind_eq_ok.mp hread
    obtain ⟨feeAsset, hfee, hread⟩ := Codec.bind_eq_ok.mp hread
    obtain rfl := Except.ok.inj hread
    have hamount : (RawUint128.ofU128 ((raw.amount.map RawUint128.toU128).getD 0)).toU128 =
        (raw.amount.map RawUint128.toU128).getD 0 := by
      cases raw.amount with
      | none => rfl
      | some amount => exact amount.toU128_ofU128
    refine Codec.bind_eq_ok.mpr ⟨toAddress, stable_requiredAddress h _ _ hto, ?_⟩
    refine Codec.bind_eq_ok.mpr ⟨asset, stable_parseDenom _ hasset, ?_⟩
    refine Codec.bind_eq_ok.mpr ⟨feeAsset, stable_parseDenom _ hfee, ?_⟩
    exact congrArg (fun amount => Except.ok (⟨toAddress, amount, asset, feeAsset⟩ : Transfer))
      hamount

end Transfer

/-! ## Validators -/

/-- `MAX_VALIDATOR_NAME_LENGTH`. -/
def maxValidatorNameLength : ℕ := 32

/-- `ValidatorName::from_str`. -/
def parseValidatorName (name : String) : Except Report String :=
  if maxValidatorNameLength < name.utf8ByteSize then
    .error ["input was `" ++ toString name.utf8ByteSize ++
      "` bytes but validator names can only be up to `" ++ toString maxValidatorNameLength ++
      "` bytes long"]
  else .ok name

namespace ValidatorUpdate

/-- The key of an update: set, and an ed25519 one. -/
def readPubKey : Option RawPublicKey → Except Report Bytes32
  | none | some .unset => .error [".pub_key field was not set"]
  | some (.secp256k1 _) =>
    .error [".pub_key field was set to secp256k1, but only ed25519 keys are supported"]
  | some (.ed25519 bytes) =>
    okOr (verificationKeyTryFrom bytes)
      ["bytes stored in the .pub_key field could not be read as an ed25519 verification key"]

/-- The power is converted to 32 bits; the error is the same above and below them. -/
def readPower (power : ℤ) : Except Report ℕ :=
  if 0 ≤ power ∧ power ≤ u32Max then .ok power.toNat
  else .error ["field .power had negative value `" ++ toString power ++ "`, which is not permitted"]

def tryFromRaw (raw : RawValidatorUpdate) : Except Report ValidatorUpdate := do
  let name ← withContext "field `.name` was invalid" (parseValidatorName raw.name)
  let power ← readPower raw.power
  let verificationKey ← readPubKey raw.pubKey
  .ok { power := power, verificationKey := verificationKey, name := name }

def protobuf : Protobuf RawValidatorUpdate ValidatorUpdate where
  tryFromRaw := tryFromRaw
  tryFromRawRef := tryFromRaw
  toRaw act :=
    { power := act.power
      pubKey := some (.ed25519 act.verificationKey.toList)
      name := act.name }

omit ext in
theorem lawful : protobuf.Lawful where
  ref_eq _ := rfl
  toRaw_eq _ := rfl
  stable := by
    intro raw act h
    obtain ⟨name, hname, h⟩ := Codec.bind_eq_ok.mp h
    obtain ⟨power, hpower, h⟩ := Codec.bind_eq_ok.mp h
    obtain ⟨key, hkey, h⟩ := Codec.bind_eq_ok.mp h
    obtain rfl := Except.ok.inj h
    have hname' : parseValidatorName name = .ok name := by
      have hparsed := withContext_eq_ok.mp hname
      unfold parseValidatorName at hparsed ⊢
      split_ifs at hparsed with hlong
      obtain rfl := Except.ok.inj hparsed
      rw [if_neg hlong]
    have hpower' : readPower power = .ok power := by
      unfold readPower at hpower ⊢
      split_ifs at hpower with hrange
      obtain rfl := Except.ok.inj hpower
      rw [if_pos (by omega), Int.toNat_natCast]
    have hkey' : readPubKey (some (.ed25519 key.toList)) = .ok key := by
      unfold readPubKey at hkey ⊢
      split at hkey
      · cases hkey
      · cases hkey
      · cases hkey
      · exact okOr_eq_ok.mpr (verificationKeyTryFrom_toList (okOr_eq_ok.mp hkey))
    refine Codec.bind_eq_ok.mpr ⟨name, withContext_eq_ok.mpr hname', ?_⟩
    exact Codec.bind_eq_ok.mpr ⟨power, hpower', Codec.bind_eq_ok.mpr ⟨key, hkey', rfl⟩⟩

end ValidatorUpdate

/-! ## Sudo addresses -/

namespace SudoAddressChange

def protobuf : Protobuf RawSudoAddressChange SudoAddressChange where
  tryFromRawRef raw := do
    let newAddress ← requiredAddress (fieldNotSet "new_address")
      "`new_address` field did not contain a valid address" raw.newAddress
    .ok { newAddress := newAddress }
  toRaw act := { newAddress := some (Address.protobuf.toRaw act.newAddress) }
  intoRaw act := { newAddress := some (Address.protobuf.intoRaw act.newAddress) }

omit wire in
theorem lawful (h : Bech32mReads) : protobuf.Lawful where
  ref_eq _ := rfl
  toRaw_eq _ := rfl
  stable := by
    intro raw act hread
    obtain ⟨newAddress, haddress, hread⟩ := Codec.bind_eq_ok.mp hread
    obtain rfl := Except.ok.inj hread
    exact Codec.bind_eq_ok.mpr ⟨newAddress, stable_requiredAddress h _ _ haddress, rfl⟩

end SudoAddressChange

namespace IbcSudoChange

def protobuf : Protobuf RawIbcSudoChange IbcSudoChange where
  tryFromRawRef raw := do
    let newAddress ← requiredAddress (fieldNotSet "new_address")
      "`new_sudo` field did not contain a valid address" raw.newAddress
    .ok { newAddress := newAddress }
  toRaw act := { newAddress := some (Address.protobuf.toRaw act.newAddress) }
  intoRaw act := { newAddress := some (Address.protobuf.intoRaw act.newAddress) }

omit wire in
theorem lawful (h : Bech32mReads) : protobuf.Lawful where
  ref_eq _ := rfl
  toRaw_eq _ := rfl
  stable := by
    intro raw act hread
    obtain ⟨newAddress, haddress, hread⟩ := Codec.bind_eq_ok.mp hread
    obtain rfl := Except.ok.inj hread
    exact Codec.bind_eq_ok.mpr ⟨newAddress, stable_requiredAddress h _ _ haddress, rfl⟩

end IbcSudoChange

/-! ## Withdrawals -/

namespace Ics20Withdrawal

/-- The text of the errors about a field that is not set. -/
def withdrawalFieldNotSet (field : String) : Report :=
  ["expected field `" ++ field ++ "` was not set`"]

/-- `From<raw::IbcHeight>`. -/
def heightOfRaw (raw : RawIbcHeight) : IbcHeight :=
  { revisionNumber := raw.revisionNumber, revisionHeight := raw.revisionHeight }

def heightToRaw (height : IbcHeight) : RawIbcHeight :=
  { revisionNumber := height.revisionNumber, revisionHeight := height.revisionHeight }

/-- The parser of the source channel. -/
def parseSourceChannel (s : String) : Except Report ChannelId :=
  okOr (wire.parseChannelId s) ["`source_channel` field was invalid"]

def protobuf : Protobuf RawIcs20Withdrawal Ics20Withdrawal where
  tryFromRaw raw := do
    let amount ← requiredU128 (withdrawalFieldNotSet "amount") raw.amount
    let returnAddress ← requiredAddress (withdrawalFieldNotSet "return_address")
      "`return_address` field was invalid" raw.returnAddress
    let timeoutHeight ← okOr raw.timeoutHeight (withdrawalFieldNotSet "timeout_height")
    let bridgeAddress ← optionalAddress "`bridge_address` field was invalid" raw.bridgeAddress
    let denom ← parseDenom "`denom` field was invalid" raw.denom
    let sourceChannel ← parseSourceChannel raw.sourceChannel
    let feeAsset ← parseDenom "field `fee_asset` could not be parsed" raw.feeAsset
    .ok
      { amount := amount
        denom := denom
        destinationChainAddress := raw.destinationChainAddress
        returnAddress := returnAddress
        timeoutHeight := heightOfRaw timeoutHeight
        timeoutTime := raw.timeoutTime
        sourceChannel := sourceChannel
        feeAsset := feeAsset
        memo := raw.memo
        bridgeAddress := bridgeAddress
        useCompatAddress := raw.useCompatAddress }
  tryFromRawRef raw := do
    let amount ← requiredU128 (withdrawalFieldNotSet "amount") raw.amount
    let returnAddress ← requiredAddress (withdrawalFieldNotSet "return_address")
      "`return_address` field was invalid" raw.returnAddress
    let timeoutHeight ← okOr raw.timeoutHeight (withdrawalFieldNotSet "timeout_height")
    let bridgeAddress ← optionalAddress "`bridge_address` field was invalid" raw.bridgeAddress
    let denom ← parseDenom "`denom` field was invalid" raw.denom
    let sourceChannel ← parseSourceChannel raw.sourceChannel
    let feeAsset ← parseDenom "field `fee_asset` could not be parsed" raw.feeAsset
    .ok
      { amount := amount
        denom := denom
        destinationChainAddress := raw.destinationChainAddress
        returnAddress := returnAddress
        timeoutHeight := heightOfRaw timeoutHeight
        timeoutTime := raw.timeoutTime
        sourceChannel := sourceChannel
        feeAsset := feeAsset
        memo := raw.memo
        bridgeAddress := bridgeAddress
        useCompatAddress := raw.useCompatAddress }
  toRaw act :=
    { amount := some (.ofU128 act.amount)
      denom := act.denom.toString
      destinationChainAddress := act.destinationChainAddress
      returnAddress := some (Address.protobuf.intoRaw act.returnAddress)
      timeoutHeight := some (heightToRaw act.timeoutHeight)
      timeoutTime := act.timeoutTime
      sourceChannel := act.sourceChannel
      feeAsset := act.feeAsset.toString
      memo := act.memo
      bridgeAddress := act.bridgeAddress.map Address.protobuf.toRaw
      useCompatAddress := act.useCompatAddress }
  intoRaw act :=
    { amount := some (.ofU128 act.amount)
      denom := act.denom.toString
      destinationChainAddress := act.destinationChainAddress
      returnAddress := some (Address.protobuf.intoRaw act.returnAddress)
      timeoutHeight := some (heightToRaw act.timeoutHeight)
      timeoutTime := act.timeoutTime
      sourceChannel := act.sourceChannel
      feeAsset := act.feeAsset.toString
      memo := act.memo
      bridgeAddress := act.bridgeAddress.map Address.protobuf.intoRaw
      useCompatAddress := act.useCompatAddress }

theorem lawful (reads : FormatsRead) : protobuf.Lawful where
  ref_eq _ := rfl
  toRaw_eq _ := rfl
  stable := by
    intro raw act h
    obtain ⟨amount, hamount, h⟩ := Codec.bind_eq_ok.mp h
    obtain ⟨returnAddress, hreturn, h⟩ := Codec.bind_eq_ok.mp h
    obtain ⟨height, hheight, h⟩ := Codec.bind_eq_ok.mp h
    obtain ⟨bridgeAddress, hbridge, h⟩ := Codec.bind_eq_ok.mp h
    obtain ⟨denom, hdenom, h⟩ := Codec.bind_eq_ok.mp h
    obtain ⟨channel, hchannel, h⟩ := Codec.bind_eq_ok.mp h
    obtain ⟨feeAsset, hfee, h⟩ := Codec.bind_eq_ok.mp h
    obtain rfl := Except.ok.inj h
    have hchannel' : parseSourceChannel channel = .ok channel :=
      okOr_eq_ok.mpr (reads.channelId _ _ (okOr_eq_ok.mp hchannel))
    refine Codec.bind_eq_ok.mpr ⟨amount, stable_requiredU128 _ hamount, ?_⟩
    refine Codec.bind_eq_ok.mpr ⟨returnAddress, stable_requiredAddress reads.address _ _ hreturn, ?_⟩
    refine Codec.bind_eq_ok.mpr ⟨height, rfl, ?_⟩
    refine Codec.bind_eq_ok.mpr ⟨bridgeAddress, stable_optionalAddress reads.address _ hbridge, ?_⟩
    refine Codec.bind_eq_ok.mpr ⟨denom, stable_parseDenom _ hdenom, ?_⟩
    refine Codec.bind_eq_ok.mpr ⟨channel, hchannel', ?_⟩
    exact Codec.bind_eq_ok.mpr ⟨feeAsset, stable_parseDenom _ hfee, rfl⟩

end Ics20Withdrawal

/-! ## Changes of relayers and fee assets -/

namespace IbcRelayerChange

/-- The parser of the address. -/
def readAddress (raw : RawAddress) : Except Report Address :=
  withContext "the `address` was invalid" (Address.protobuf.tryFromRawRef raw)

def protobuf : Protobuf (Option RawIbcRelayerChange) IbcRelayerChange where
  tryFromRawRef
    | some (.addition address) => do
      let address ← readAddress address
      .ok (.addition address)
    | some (.removal address) => do
      let address ← readAddress address
      .ok (.removal address)
    | none => .error ["the `address` was not set"]
  toRaw
    | .addition address => some (.addition (Address.protobuf.toRaw address))
    | .removal address => some (.removal (Address.protobuf.toRaw address))

omit wire in
theorem lawful (h : Bech32mReads) : protobuf.Lawful where
  ref_eq _ := rfl
  toRaw_eq _ := rfl
  stable := by
    have hread : Codec.Stable readAddress Address.protobuf.toRaw :=
      stable_withContext _ (Address.lawful h).stable
    rintro (_ | raw | raw) act hact
    · cases hact
    · obtain ⟨address, haddress, hact⟩ := Codec.bind_eq_ok.mp hact
      obtain rfl := Except.ok.inj hact
      exact Codec.bind_eq_ok.mpr ⟨address, hread haddress, rfl⟩
    · obtain ⟨address, haddress, hact⟩ := Codec.bind_eq_ok.mp hact
      obtain rfl := Except.ok.inj hact
      exact Codec.bind_eq_ok.mpr ⟨address, hread haddress, rfl⟩

end IbcRelayerChange

namespace FeeAssetChange

def protobuf : Protobuf (Option RawFeeAssetChange) FeeAssetChange where
  tryFromRawRef
    | some (.addition asset) => do
      let asset ← parseDenom "the `asset` field was invalid" asset
      .ok (.addition asset)
    | some (.removal asset) => do
      let asset ← parseDenom "the `asset` field was invalid" asset
      .ok (.removal asset)
    | none => .error ["the `asset` field was not set"]
  toRaw
    | .addition asset => some (.addition asset.toString)
    | .removal asset => some (.removal asset.toString)

omit ext wire in
theorem lawful : protobuf.Lawful where
  ref_eq _ := rfl
  toRaw_eq _ := rfl
  stable := by
    rintro (_ | raw | raw) act hact
    · cases hact
    · obtain ⟨asset, hasset, hact⟩ := Codec.bind_eq_ok.mp hact
      obtain rfl := Except.ok.inj hact
      exact Codec.bind_eq_ok.mpr ⟨asset, stable_parseDenom _ hasset, rfl⟩
    · obtain ⟨asset, hasset, hact⟩ := Codec.bind_eq_ok.mp hact
      obtain rfl := Except.ok.inj hact
      exact Codec.bind_eq_ok.mpr ⟨asset, stable_parseDenom _ hasset, rfl⟩

end FeeAssetChange

/-! ## Bridge accounts -/

namespace InitBridgeAccount

def tryFromRaw (raw : RawInitBridgeAccount) : Except Report InitBridgeAccount := do
  let rollupId ← Codec.required (fieldNotSet "rollup_id") (fun id =>
    withContext "the `rollup_id` field was invalid" (RollupId.tryFromRaw id)) raw.rollupId
  let asset ← parseDenom "an asset ID was invalid" raw.asset
  let feeAsset ← parseDenom "the `fee_asset` field was invalid" raw.feeAsset
  let sudoAddress ← optionalAddress "the `sudo_address` field was invalid" raw.sudoAddress
  let withdrawerAddress ← optionalAddress "the `withdrawer_address` field was invalid"
    raw.withdrawerAddress
  .ok
    { rollupId := rollupId
      asset := asset
      feeAsset := feeAsset
      sudoAddress := sudoAddress
      withdrawerAddress := withdrawerAddress }

def protobuf : Protobuf RawInitBridgeAccount InitBridgeAccount where
  tryFromRaw := tryFromRaw
  tryFromRawRef := tryFromRaw
  intoRaw act :=
    { rollupId := some act.rollupId.inner.toList
      asset := act.asset.toString
      feeAsset := act.feeAsset.toString
      sudoAddress := act.sudoAddress.map Address.protobuf.intoRaw
      withdrawerAddress := act.withdrawerAddress.map Address.protobuf.intoRaw }
  toRaw act :=
    { rollupId := some act.rollupId.inner.toList
      asset := act.asset.toString
      feeAsset := act.feeAsset.toString
      sudoAddress := act.sudoAddress.map Address.protobuf.toRaw
      withdrawerAddress := act.withdrawerAddress.map Address.protobuf.toRaw }

omit wire in
theorem lawful (h : Bech32mReads) : protobuf.Lawful where
  ref_eq _ := rfl
  toRaw_eq _ := rfl
  stable := by
    intro raw act hread
    obtain ⟨id, hid, hread⟩ := Codec.bind_eq_ok.mp hread
    obtain ⟨asset, hasset, hread⟩ := Codec.bind_eq_ok.mp hread
    obtain ⟨feeAsset, hfee, hread⟩ := Codec.bind_eq_ok.mp hread
    obtain ⟨sudoAddress, hsudo, hread⟩ := Codec.bind_eq_ok.mp hread
    obtain ⟨withdrawer, hwithdrawer, hread⟩ := Codec.bind_eq_ok.mp hread
    obtain rfl := Except.ok.inj hread
    refine Codec.bind_eq_ok.mpr ⟨id, (stable_withContext _ stable_rollupId).required hid, ?_⟩
    refine Codec.bind_eq_ok.mpr ⟨asset, stable_parseDenom _ hasset, ?_⟩
    refine Codec.bind_eq_ok.mpr ⟨feeAsset, stable_parseDenom _ hfee, ?_⟩
    refine Codec.bind_eq_ok.mpr ⟨sudoAddress, stable_optionalAddress h _ hsudo, ?_⟩
    exact Codec.bind_eq_ok.mpr ⟨withdrawer, stable_optionalAddress h _ hwithdrawer, rfl⟩

end InitBridgeAccount

namespace BridgeLock

def tryFromRaw (raw : RawBridgeLock) : Except Report BridgeLock := do
  let toAddress ← requiredAddress (fieldNotSet "to") "the `to` field was invalid" raw.toAddress
  let amount ← requiredU128 ["the `amount` field was not set"] raw.amount
  let asset ← parseDenom "the `asset` field was invalid" raw.asset
  let feeAsset ← parseDenom "the `fee_asset` field was invalid" raw.feeAsset
  .ok
    { toAddress := toAddress
      amount := amount
      asset := asset
      feeAsset := feeAsset
      destinationChainAddress := raw.destinationChainAddress }

def protobuf : Protobuf RawBridgeLock BridgeLock where
  tryFromRaw := tryFromRaw
  tryFromRawRef := tryFromRaw
  intoRaw act :=
    { toAddress := some (Address.protobuf.toRaw act.toAddress)
      amount := some (.ofU128 act.amount)
      asset := act.asset.toString
      feeAsset := act.feeAsset.toString
      destinationChainAddress := act.destinationChainAddress }
  toRaw act :=
    { toAddress := some (Address.protobuf.toRaw act.toAddress)
      amount := some (.ofU128 act.amount)
      asset := act.asset.toString
      feeAsset := act.feeAsset.toString
      destinationChainAddress := act.destinationChainAddress }

omit wire in
theorem lawful (h : Bech32mReads) : protobuf.Lawful where
  ref_eq _ := rfl
  toRaw_eq _ := rfl
  stable := by
    intro raw act hread
    obtain ⟨toAddress, hto, hread⟩ := Codec.bind_eq_ok.mp hread
    obtain ⟨amount, hamount, hread⟩ := Codec.bind_eq_ok.mp hread
    obtain ⟨asset, hasset, hread⟩ := Codec.bind_eq_ok.mp hread
    obtain ⟨feeAsset, hfee, hread⟩ := Codec.bind_eq_ok.mp hread
    obtain rfl := Except.ok.inj hread
    refine Codec.bind_eq_ok.mpr ⟨toAddress, stable_requiredAddress h _ _ hto, ?_⟩
    refine Codec.bind_eq_ok.mpr ⟨amount, stable_requiredU128 _ hamount, ?_⟩
    refine Codec.bind_eq_ok.mpr ⟨asset, stable_parseDenom _ hasset, ?_⟩
    exact Codec.bind_eq_ok.mpr ⟨feeAsset, stable_parseDenom _ hfee, rfl⟩

end BridgeLock

namespace BridgeUnlock

def tryFromRaw (raw : RawBridgeUnlock) : Except Report BridgeUnlock := do
  let toAddress ← requiredAddress (fieldNotSet "to") "the `to` field was invalid" raw.toAddress
  let amount ← requiredU128 (fieldNotSet "amount") raw.amount
  let feeAsset ← parseDenom "the `fee_asset` field was invalid" raw.feeAsset
  let bridgeAddress ← requiredAddress (fieldNotSet "bridge_address")
    "the `bridge_address` field was invalid" raw.bridgeAddress
  .ok
    { toAddress := toAddress
      amount := amount
      feeAsset := feeAsset
      memo := raw.memo
      bridgeAddress := bridgeAddress
      rollupBlockNumber := raw.rollupBlockNumber
      rollupWithdrawalEventId := raw.rollupWithdrawalEventId }

def protobuf : Protobuf RawBridgeUnlock BridgeUnlock where
  tryFromRaw := tryFromRaw
  tryFromRawRef := tryFromRaw
  intoRaw act :=
    { toAddress := some (Address.protobuf.intoRaw act.toAddress)
      amount := some (.ofU128 act.amount)
      feeAsset := act.feeAsset.toString
      memo := act.memo
      bridgeAddress := some (Address.protobuf.intoRaw act.bridgeAddress)
      rollupBlockNumber := act.rollupBlockNumber
      rollupWithdrawalEventId := act.rollupWithdrawalEventId }
  toRaw act :=
    { toAddress := some (Address.protobuf.toRaw act.toAddress)
      amount := some (.ofU128 act.amount)
      feeAsset := act.feeAsset.toString
      memo := act.memo
      bridgeAddress := some (Address.protobuf.toRaw act.bridgeAddress)
      rollupBlockNumber := act.rollupBlockNumber
      rollupWithdrawalEventId := act.rollupWithdrawalEventId }

omit wire in
theorem lawful (h : Bech32mReads) : protobuf.Lawful where
  ref_eq _ := rfl
  toRaw_eq _ := rfl
  stable := by
    intro raw act hread
    obtain ⟨toAddress, hto, hread⟩ := Codec.bind_eq_ok.mp hread
    obtain ⟨amount, hamount, hread⟩ := Codec.bind_eq_ok.mp hread
    obtain ⟨feeAsset, hfee, hread⟩ := Codec.bind_eq_ok.mp hread
    obtain ⟨bridgeAddress, hbridge, hread⟩ := Codec.bind_eq_ok.mp hread
    obtain rfl := Except.ok.inj hread
    refine Codec.bind_eq_ok.mpr ⟨toAddress, stable_requiredAddress h _ _ hto, ?_⟩
    refine Codec.bind_eq_ok.mpr ⟨amount, stable_requiredU128 _ hamount, ?_⟩
    refine Codec.bind_eq_ok.mpr ⟨feeAsset, stable_parseDenom _ hfee, ?_⟩
    exact Codec.bind_eq_ok.mpr ⟨bridgeAddress, stable_requiredAddress h _ _ hbridge, rfl⟩

end BridgeUnlock

namespace BridgeSudoChange

def tryFromRaw (raw : RawBridgeSudoChange) : Except Report BridgeSudoChange := do
  let bridgeAddress ← requiredAddress (fieldNotSet "bridge_address")
    "the `bridge_address` field was invalid" raw.bridgeAddress
  let newSudoAddress ← optionalAddress "the `new_sudo_address` field was invalid" raw.newSudoAddress
  let newWithdrawerAddress ← optionalAddress "the `new_withdrawer_address` field was invalid"
    raw.newWithdrawerAddress
  let feeAsset ← parseDenom "the `fee_asset` field was invalid" raw.feeAsset
  .ok
    { bridgeAddress := bridgeAddress
      newSudoAddress := newSudoAddress
      newWithdrawerAddress := newWithdrawerAddress
      feeAsset := feeAsset }

def protobuf : Protobuf RawBridgeSudoChange BridgeSudoChange where
  tryFromRaw := tryFromRaw
  tryFromRawRef := tryFromRaw
  intoRaw act :=
    { bridgeAddress := some (Address.protobuf.toRaw act.bridgeAddress)
      newSudoAddress := act.newSudoAddress.map Address.protobuf.intoRaw
      newWithdrawerAddress := act.newWithdrawerAddress.map Address.protobuf.intoRaw
      feeAsset := act.feeAsset.toString }
  toRaw act :=
    { bridgeAddress := some (Address.protobuf.toRaw act.bridgeAddress)
      newSudoAddress := act.newSudoAddress.map Address.protobuf.toRaw
      newWithdrawerAddress := act.newWithdrawerAddress.map Address.protobuf.toRaw
      feeAsset := act.feeAsset.toString }

omit wire in
theorem lawful (h : Bech32mReads) : protobuf.Lawful where
  ref_eq _ := rfl
  toRaw_eq _ := rfl
  stable := by
    intro raw act hread
    obtain ⟨bridgeAddress, hbridge, hread⟩ := Codec.bind_eq_ok.mp hread
    obtain ⟨sudoAddress, hsudo, hread⟩ := Codec.bind_eq_ok.mp hread
    obtain ⟨withdrawer, hwithdrawer, hread⟩ := Codec.bind_eq_ok.mp hread
    obtain ⟨feeAsset, hfee, hread⟩ := Codec.bind_eq_ok.mp hread
    obtain rfl := Except.ok.inj hread
    refine Codec.bind_eq_ok.mpr ⟨bridgeAddress, stable_requiredAddress h _ _ hbridge, ?_⟩
    refine Codec.bind_eq_ok.mpr ⟨sudoAddress, stable_optionalAddress h _ hsudo, ?_⟩
    refine Codec.bind_eq_ok.mpr ⟨withdrawer, stable_optionalAddress h _ hwithdrawer, ?_⟩
    exact Codec.bind_eq_ok.mpr ⟨feeAsset, stable_parseDenom _ hfee, rfl⟩

end BridgeSudoChange

namespace BridgeTransfer

/-- The destination has to be set, other than that of a lock. -/
def readDestination (address : String) : Except Report String :=
  if address = "" then .error (fieldNotSet "destination_chain_address") else .ok address

def tryFromRaw (raw : RawBridgeTransfer) : Except Report BridgeTransfer := do
  let toAddress ← requiredAddress (fieldNotSet "to") "the `to` field was invalid" raw.toAddress
  let amount ← requiredU128 (fieldNotSet "amount") raw.amount
  let feeAsset ← parseDenom "the `fee_asset` field was invalid" raw.feeAsset
  let destinationChainAddress ← readDestination raw.destinationChainAddress
  let bridgeAddress ← requiredAddress (fieldNotSet "bridge_address")
    "the `bridge_address` field was invalid" raw.bridgeAddress
  .ok
    { toAddress := toAddress
      amount := amount
      feeAsset := feeAsset
      bridgeAddress := bridgeAddress
      destinationChainAddress := destinationChainAddress
      rollupBlockNumber := raw.rollupBlockNumber
      rollupWithdrawalEventId := raw.rollupWithdrawalEventId }

def protobuf : Protobuf RawBridgeTransfer BridgeTransfer where
  tryFromRaw := tryFromRaw
  tryFromRawRef := tryFromRaw
  intoRaw act :=
    { toAddress := some (Address.protobuf.intoRaw act.toAddress)
      amount := some (.ofU128 act.amount)
      feeAsset := act.feeAsset.toString
      bridgeAddress := some (Address.protobuf.intoRaw act.bridgeAddress)
      destinationChainAddress := act.destinationChainAddress
      rollupBlockNumber := act.rollupBlockNumber
      rollupWithdrawalEventId := act.rollupWithdrawalEventId }
  toRaw act :=
    { toAddress := some (Address.protobuf.toRaw act.toAddress)
      amount := some (.ofU128 act.amount)
      feeAsset := act.feeAsset.toString
      bridgeAddress := some (Address.protobuf.toRaw act.bridgeAddress)
      destinationChainAddress := act.destinationChainAddress
      rollupBlockNumber := act.rollupBlockNumber
      rollupWithdrawalEventId := act.rollupWithdrawalEventId }

omit wire in
theorem lawful (h : Bech32mReads) : protobuf.Lawful where
  ref_eq _ := rfl
  toRaw_eq _ := rfl
  stable := by
    intro raw act hread
    obtain ⟨toAddress, hto, hread⟩ := Codec.bind_eq_ok.mp hread
    obtain ⟨amount, hamount, hread⟩ := Codec.bind_eq_ok.mp hread
    obtain ⟨feeAsset, hfee, hread⟩ := Codec.bind_eq_ok.mp hread
    obtain ⟨destination, hdestination, hread⟩ := Codec.bind_eq_ok.mp hread
    obtain ⟨bridgeAddress, hbridge, hread⟩ := Codec.bind_eq_ok.mp hread
    obtain rfl := Except.ok.inj hread
    have hdestination' : readDestination destination = .ok destination := by
      unfold readDestination at hdestination ⊢
      split_ifs at hdestination with hempty
      obtain rfl := Except.ok.inj hdestination
      rw [if_neg hempty]
    refine Codec.bind_eq_ok.mpr ⟨toAddress, stable_requiredAddress h _ _ hto, ?_⟩
    refine Codec.bind_eq_ok.mpr ⟨amount, stable_requiredU128 _ hamount, ?_⟩
    refine Codec.bind_eq_ok.mpr ⟨feeAsset, stable_parseDenom _ hfee, ?_⟩
    refine Codec.bind_eq_ok.mpr ⟨destination, hdestination', ?_⟩
    exact Codec.bind_eq_ok.mpr ⟨bridgeAddress, stable_requiredAddress h _ _ hbridge, rfl⟩

end BridgeTransfer

end

end Astria.Core
