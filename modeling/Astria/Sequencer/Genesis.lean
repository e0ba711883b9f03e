import Astria.Sequencer.Funds

/-!
# The genesis state

`App::init_chain` (`app/mod.rs`, lines 277–340) and the `init_chain` of every component, on the
state of an empty store.

Results:
* `initChain_fresh`: the genesis has no bridge account, no withdrawal event, no upgrade, no consensus
  parameters and no deposit.
-/

namespace Astria.Sequencer

open Astria.Core Astria.Lib Exec

/-! ## The genesis file -/

/-- An account of the genesis file. -/
structure GenesisAccount where
  address : Address
  balance : ℕ
  balance_le : balance ≤ u128Max
  deriving DecidableEq

/-- The fee components of the genesis file: those of fee changes are always there. -/
structure GenesisFees where
  components : ActionKind → Option FeeComponents
  feeChange : (components .feeChange).isSome

/-- The genesis file, less its chain id, which `init_chain` takes from the request
(`protocol/genesis/v1.rs`, `GenesisAppState`). -/
structure GenesisAppState where
  addressPrefixes : String × String
  accounts : List GenesisAccount
  authoritySudoAddress : Address
  ibcSudoAddress : Address
  ibcRelayerAddresses : List Address
  nativeAssetBaseDenomination : Option TracePrefixed
  ibcParameters : IbcParameters
  allowedFeeAssets : List Denom
  fees : GenesisFees

/-- `revision_number_from_chain_id`: the digits after the last hyphen.  The source panics on a
number that does not fit in 64 bits. -/
def revisionNumberFromChainId (chainId : String) : Option ℕ :=
  match chainId.toList.splitOn '-' |>.reverse with
  | digits :: _ :: _ =>
    if digits = [] ∨ digits.any (fun c => !('0' ≤ c && c ≤ '9')) then some 0
    else
      let value := digits.foldl (fun acc c => acc * 10 + (c.toNat - 48)) 0
      if value ≤ u64Max then some value else none
  | _ => some 0

example : revisionNumberFromChainId "test-chain-1024-99" = some 99 := by decide

/-! ## Components -/

def Base.putBasePrefix (p : String) (s : Base) : Base :=
  { s with prefixes.basePrefix := some p }

def Base.putIbcCompatPrefix (p : String) (s : Base) : Base :=
  { s with prefixes.ibcCompatPrefix := some p }

def Base.putNativeAsset (asset : TracePrefixed) (s : Base) : Base :=
  { s with assets.nativeAsset := some asset }

/-- `put_chain_id_and_revision_number`. -/
def Base.putChainId (chainId : String) (revisionNumber : ℕ) (s : Base) : Base :=
  { s with
    chain.chainId := some chainId
    chain.revisionNumber := some revisionNumber }

/-- The kinds whose fees `FeesComponent::init_chain` stores, in its order; bridge transfers are
not among them. -/
def genesisFeeKinds : List ActionKind :=
  [.transfer, .rollupDataSubmission, .ics20Withdrawal, .initBridgeAccount, .bridgeLock,
    .bridgeUnlock, .bridgeSudoChange, .ibcRelay, .validatorUpdate, .feeAssetChange, .feeChange,
    .ibcRelayerChange, .sudoAddressChange, .ibcSudoChange, .recoverIbcClient, .currencyPairsChange,
    .marketsChange]

section

variable [ext : External]

/-- `FeesComponent::init_chain`. -/
def feesInitChain (genesis : GenesisAppState) : BaseM Unit := do
  forEach genesis.allowedFeeAssets fun asset =>
    writes (Base.putAllowedFeeAsset asset.toIbcPrefixed)
  forEach genesisFeeKinds fun kind =>
    match genesis.fees.components kind with
    | some components => writes (Base.putFees kind components)
    | none => pure ()

/-- `AccountsComponent::init_chain`. -/
def accountsInitChain (genesis : GenesisAppState) : BaseM Unit :=
  if genesis.accounts = [] then pure ()
  else do
    let stored ← reads fun s => s.assets.nativeAsset
    let native ← require stored
      ["native asset does not exist in state but is required to set genesis account balances"]
    forEach genesis.accounts fun account =>
      writes (Base.putAccountBalance account.address.bytes native.toIbcPrefixed account.balance)

/-- `ValidatorSet::new_from_updates`. -/
def ValidatorSet.newFromUpdates (updates : List ValidatorUpdate) : ValidatorSet :=
  updates.foldl ValidatorSet.insert ⟨[]⟩

/-- `AuthorityComponent::init_chain`. -/
def authorityInitChain (genesis : GenesisAppState) (validators : List ValidatorUpdate) :
    BaseM Unit := do
  writes (Base.putSudoAddress genesis.authoritySudoAddress.bytes)
  writes (Base.preAspenPutValidatorSet (ValidatorSet.newFromUpdates validators))

/-- `IbcComponent::init_chain`. -/
def ibcInitChain (genesis : GenesisAppState) : BaseM Unit := do
  writeIbc (ext.ibcInitChain genesis.ibcParameters)
  writes (Base.putIbcSudoAddress genesis.ibcSudoAddress.bytes)
  forEach genesis.ibcRelayerAddresses fun address =>
    writes (Base.putIbcRelayerAddress address.bytes)

/-- The native asset of the genesis file is registered as well. -/
def nativeAssetInitChain (genesis : GenesisAppState) : BaseM Unit :=
  match genesis.nativeAssetBaseDenomination with
  | some native => do
    writes (Base.putNativeAsset native)
    writes (Base.putIbcAsset native)
  | none => pure ()

/-- What `App::init_chain` writes before it prepares the commit. -/
def initChain (genesis : GenesisAppState) (validators : List ValidatorUpdate) (chainId : String) :
    BaseM Unit := do
  writes (Base.putBasePrefix genesis.addressPrefixes.1)
  writes (Base.putIbcCompatPrefix genesis.addressPrefixes.2)
  nativeAssetInitChain genesis
  ensure (ext.validChainId chainId = true) ["invalid chain ID"]
  let revisionNumber ← require (revisionNumberFromChainId chainId)
    ["revision number must be parseable and fit in a u64"]
  writes (Base.putChainId chainId revisionNumber)
  writes (Base.putBlockHeight 0)
  wrapErr "init_chain failed on FeesComponent" (feesInitChain genesis)
  wrapErr "init_chain failed on AccountsComponent" (accountsInitChain genesis)
  wrapErr "init_chain failed on AuthorityComponent" (authorityInitChain genesis validators)
  wrapErr "init_chain failed on IbcComponent" (ibcInitChain genesis)

/-! ## What the genesis does not have -/

/-- `R` is kept by what `init_chain` writes. -/
structure GenesisWrites (R : Base → Base → Prop) : Prop where
  balance : ∀ a i (account : GenesisAccount) s, R s (s.putAccountBalance a i account.balance)
  basePrefix : ∀ p s, R s (s.putBasePrefix p)
  ibcCompatPrefix : ∀ p s, R s (s.putIbcCompatPrefix p)
  nativeAsset : ∀ asset s, R s (s.putNativeAsset asset)
  ibcAsset : ∀ asset s, R s (s.putIbcAsset asset)
  chainId : ∀ chainId n s, R s (s.putChainId chainId n)
  blockHeight : ∀ n s, R s (s.putBlockHeight n)
  feeAsset : ∀ i s, R s (s.putAllowedFeeAsset i)
  fees : ∀ kind fees s, R s (s.putFees kind fees)
  sudoAddress : ∀ a s, R s (s.putSudoAddress a)
  validatorSet : ∀ v s, R s (s.preAspenPutValidatorSet v)
  ibcSudoAddress : ∀ a s, R s (s.putIbcSudoAddress a)
  relayer : ∀ a s, R s (s.putIbcRelayerAddress a)
  ibcComponent : ∀ c s, R s (s.setIbcComponent c)

theorem ibcInitChain_keeps {R : Base → Base → Prop} [IsPreorder Base R]
    (hcomponent : ∀ c s, R s (s.setIbcComponent c)) (hsudo : ∀ a s, R s (s.putIbcSudoAddress a))
    (hrelayer : ∀ a s, R s (s.putIbcRelayerAddress a)) (genesis : GenesisAppState) :
    Keeps R (ibcInitChain genesis) := by
  refine Keeps.bind (keeps_writeIbc hcomponent _) fun _ => ?_
  refine Keeps.bind (keeps_writes fun _ => hsudo _ _) fun _ => ?_
  exact keeps_forEach_writes (fun _ s => hrelayer _ s) _

theorem feesInitChain_keeps {R : Base → Base → Prop} [IsPreorder Base R]
    (hfeeAsset : ∀ i s, R s (s.putAllowedFeeAsset i))
    (hfees : ∀ kind fees s, R s (s.putFees kind fees)) (genesis : GenesisAppState) :
    Keeps R (feesInitChain genesis) := by
  refine Keeps.bind (keeps_forEach_writes (fun _ s => hfeeAsset _ s) _) fun _ => ?_
  refine Keeps.forEach (fun kind => ?_) _
  cases genesis.fees.components kind with
  | none => exact keeps_pure _
  | some components => exact keeps_writes fun _ => hfees _ _ _

theorem accountsInitChain_keeps {R : Base → Base → Prop} [IsPreorder Base R]
    (hbalance : ∀ a i (account : GenesisAccount) s, R s (s.putAccountBalance a i account.balance))
    (genesis : GenesisAppState) : Keeps R (accountsInitChain genesis) := by
  refine Keeps.ite (by simp) ?_
  refine Keeps.bind (by simp) fun _ => Keeps.bind (by simp) fun _ => ?_
  exact keeps_forEach_writes (fun account s => hbalance _ _ account s) _

theorem authorityInitChain_keeps {R : Base → Base → Prop} [IsPreorder Base R]
    (hsudo : ∀ a s, R s (s.putSudoAddress a)) (hset : ∀ v s, R s (s.preAspenPutValidatorSet v))
    (genesis : GenesisAppState) (validators : List ValidatorUpdate) :
    Keeps R (authorityInitChain genesis validators) :=
  Keeps.bind (keeps_writes fun _ => hsudo _ _) fun _ => keeps_writes fun _ => hset _ _

theorem initChain_keeps {R : Base → Base → Prop} [IsPreorder Base R] (hR : GenesisWrites R)
    (genesis : GenesisAppState) (validators : List ValidatorUpdate) (chainId : String) :
    Keeps R (initChain genesis validators chainId) := by
  have hnative : Keeps R (nativeAssetInitChain genesis) := by
    unfold nativeAssetInitChain
    cases genesis.nativeAssetBaseDenomination with
    | none => exact keeps_pure _
    | some native =>
      exact Keeps.bind (keeps_writes fun _ => hR.nativeAsset _ _) fun _ =>
        keeps_writes fun _ => hR.ibcAsset _ _
  have hfees := feesInitChain_keeps hR.feeAsset hR.fees genesis
  have haccounts := accountsInitChain_keeps hR.balance genesis
  have hauthority := authorityInitChain_keeps hR.sudoAddress hR.validatorSet genesis validators
  have hibc := ibcInitChain_keeps hR.ibcComponent hR.ibcSudoAddress hR.relayer genesis
  unfold initChain
  refine Keeps.bind (keeps_writes fun _ => hR.basePrefix _ _) fun _ => ?_
  refine Keeps.bind (keeps_writes fun _ => hR.ibcCompatPrefix _ _) fun _ => ?_
  refine Keeps.bind hnative fun _ => Keeps.bind (by simp) fun _ => Keeps.bind (by simp) fun _ => ?_
  refine Keeps.bind (keeps_writes fun _ => hR.chainId _ _ _) fun _ => ?_
  refine Keeps.bind (keeps_writes fun _ => hR.blockHeight _ _) fun _ => ?_
  refine Keeps.bind (hfees.mapErr _) fun _ => Keeps.bind (haccounts.mapErr _) fun _ => ?_
  exact Keeps.bind (hauthority.mapErr _) fun _ => hibc.mapErr _

/-- The chain as it is stored stays the same. -/
def Base.SameChain (s s' : Base) : Prop := s'.chain = s.chain

instance : IsPreorder Base Base.SameChain where
  refl _ := rfl
  trans _ _ _ h h' := Eq.trans h' h

/-- The chain starts at the height 0. -/
theorem initChain_blockHeight {genesis : GenesisAppState} {validators : List ValidatorUpdate}
    {chainId : String} {s s' : Base} {u : Unit} (h : initChain genesis validators chainId s = .ok u s') :
    s'.chain.blockHeight = some 0 := by
  simp only [initChain, bind_eq_ok, writes_eq_ok, mapErr_eq_ok] at h
  obtain ⟨_, _, -, _, _, -, _, _, -, _, _, -, _, _, -, _, t, -, _, p, rfl, _, q, hfees, _, r, haccounts, _, v,
    hauthority, hibc⟩ := h
  have hp := (feesInitChain_keeps (R := Base.SameChain) (fun _ _ => rfl) (fun _ _ _ => rfl) genesis).of_ok hfees
  have hq := (accountsInitChain_keeps (R := Base.SameChain) (fun _ _ _ _ => rfl) genesis).of_ok haccounts
  have hr := (authorityInitChain_keeps (R := Base.SameChain) (fun _ _ => rfl) (fun _ _ => rfl) genesis
    validators).of_ok hauthority
  have hv := (ibcInitChain_keeps (R := Base.SameChain) (fun _ _ => rfl) (fun _ _ => rfl) (fun _ _ => rfl)
    genesis).of_ok hibc
  have hchain : Base.SameChain (t.putBlockHeight 0) s' :=
    trans_of _ (trans_of _ (trans_of _ hp hq) hr) hv
  rw [hchain]
  rfl

/-- The bridge component, the record of upgrades, the consensus parameters and the deposits are as
they were. -/
def Base.SameUnset (s s' : Base) : Prop :=
  s'.bridge = s.bridge ∧ s'.chain.upgradeChangeInfos = s.chain.upgradeChangeInfos ∧
    s'.nonverifiable.consensusParams = s.nonverifiable.consensusParams ∧
    s'.ephemeral.deposits = s.ephemeral.deposits

instance : IsPreorder Base Base.SameUnset where
  refl _ := ⟨rfl, rfl, rfl, rfl⟩
  trans _ _ _ h h' := ⟨h'.1.trans h.1, h'.2.1.trans h.2.1, h'.2.2.1.trans h.2.2.1,
    h'.2.2.2.trans h.2.2.2⟩

theorem genesisWrites_sameUnset : GenesisWrites Base.SameUnset := by
  constructor <;> intros <;> exact ⟨rfl, rfl, rfl, rfl⟩

/-- The genesis has no bridge account, no withdrawal event, no upgrade, no consensus parameters
and no deposit. -/
theorem initChain_fresh {genesis : GenesisAppState} {validators : List ValidatorUpdate}
    {chainId : String} {s : Base} {u : Unit}
    (h : initChain genesis validators chainId Base.empty = .ok u s) : Base.empty.SameUnset s :=
  (initChain_keeps genesisWrites_sameUnset genesis validators chainId).of_ok h

end

end Astria.Sequencer
