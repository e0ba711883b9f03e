import Astria.Sequencer.StateExt

/-!
# Fees

The fee of an action and its payment (`crates/astria-sequencer/src/fees/mod.rs`).  The
handlers of the source differ in the name, the fee asset and the variable component only.

Results:
* `checkAndPayFees_eq_ok`: what a successful payment does to the state.
-/

namespace Astria.Sequencer

open Astria.Core Astria.Lib Exec

/-- The base byte length of a deposit (`DEPOSIT_BASE_FEE`). -/
def depositBaseFee : ℕ := 16

/-- `base_deposit_fee`: the modified byte length of the deposit event. -/
def baseDepositFee (asset : Denom) (destinationChainAddress : String) : ℕ :=
  saturatingAdd u128Max
    (saturatingAdd u64Max asset.displayLen destinationChainAddress.utf8ByteSize) depositBaseFee

/-- `FeeHandler::variable_component`. -/
def variableComponent : Action → ℕ
  | .bridgeLock act => baseDepositFee act.asset act.destinationChainAddress
  | .rollupDataSubmission act => act.data.length
  | _ => 0

/-- `FeeHandler::fee_asset`: `none` for the actions without a fee. -/
def feeAsset : Action → Option Denom
  | .rollupDataSubmission act => some act.feeAsset
  | .transfer act => some act.feeAsset
  | .ics20Withdrawal act => some act.feeAsset
  | .initBridgeAccount act => some act.feeAsset
  | .bridgeLock act => some act.feeAsset
  | .bridgeUnlock act => some act.feeAsset
  | .bridgeSudoChange act => some act.feeAsset
  | .bridgeTransfer act => some act.feeAsset
  | .validatorUpdate _ | .sudoAddressChange _ | .ibc _ | .ibcSudoChange _ | .ibcRelayerChange _
  | .feeAssetChange _ | .feeChange _ | .recoverIbcClient _ | .currencyPairsChange _
  | .marketsChange _ => none

/-- The whole fee of an action under the components of its kind. -/
def totalFees (fees : FeeComponents) (act : Action) : ℕ :=
  saturatingAdd u128Max fees.base (saturatingMul u128Max (variableComponent act) fees.multiplier)

section

variable [External]

/-- `check_and_pay_fees` (`fees/mod.rs`, lines 111–153). -/
def checkAndPayFees (act : Action) : BaseM Unit := do
  let components ← reads fun s => s.fees.components act.kind
  let fees ← require components [act.kind.name ++ " fees not found, so this action is disabled"]
  match feeAsset act with
  | none => pure ()
  | some denom =>
    let asset := denom.toIbcPrefixed
    let allowed ← reads fun s => s.isAllowedFeeAsset asset
    ensure (allowed = true) ["invalid fee asset"]
    let context ← getTransactionContext
    writes (Base.addFeeToBlockFees
      { actionName := act.kind.fullName
        asset := .ibcPrefixed asset
        amount := totalFees fees act
        positionInTransaction := context.positionInTransaction })
    wrapErr "failed to decrease balance for fee payment"
      (decreaseBalance context.addressBytes asset (totalFees fees act))

/-- The fee that an action pays under a state, with the asset it is paid in. -/
def feeOf (s : Base) (act : Action) : Option (IbcPrefixed × ℕ) :=
  match s.fees.components act.kind, feeAsset act with
  | some fees, some denom => some (denom.toIbcPrefixed, totalFees fees act)
  | _, _ => none

/-- A successful payment changes nothing for an action without a fee; otherwise it records
the fee and takes it from the signer. -/
theorem checkAndPayFees_eq_ok {act : Action} {s s' : Base} {u : Unit}
    (h : checkAndPayFees act s = .ok u s') :
    (feeOf s act = none ∧ s' = s) ∨
      ∃ c asset amount, s.ephemeral.transactionContext = some c ∧
        feeOf s act = some (asset, amount) ∧ amount ≤ s.balance c.addressBytes asset ∧
        s' = (s.addFeeToBlockFees
            { actionName := act.kind.fullName
              asset := .ibcPrefixed asset
              amount := amount
              positionInTransaction := c.positionInTransaction }).putAccountBalance
          c.addressBytes asset (s.balance c.addressBytes asset - amount) := by
  simp only [checkAndPayFees, bind_eq_ok, reads_eq_ok, require_eq_ok, and_assoc,
    exists_and_left, exists_eq_left] at h
  obtain ⟨fees, hfees, h⟩ := h
  cases hasset : feeAsset act with
  | none =>
    left
    rw [hasset] at h
    simp only [pure_eq_ok] at h
    exact ⟨by simp [feeOf, hasset], h.2⟩
  | some denom =>
    right
    rw [hasset] at h
    simp only [bind_eq_ok, reads_eq_ok, ensure_eq_ok, getTransactionContext_eq_ok,
      writes_eq_ok, mapErr_eq_ok, decreaseBalance_eq_ok, and_assoc, exists_and_left,
      exists_eq_left, exists_const] at h
    obtain ⟨-, c, hc, hle, rfl⟩ := h
    exact ⟨c, _, _, hc, by simp [feeOf, hfees, hasset], hle, rfl⟩

end

end Astria.Sequencer
