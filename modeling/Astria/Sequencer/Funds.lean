import Astria.Sequencer.StateExt
import Astria.Lib.Ledger
import Mathlib.Data.FinEnum

/-!
# Funds

The balances as a ledger, and the part of the state that holds funds, guards them or waits
for the end of the block.  The administrative actions leave that part as it is.

An action that succeeds posts at most one debit and one credit to the accounts, at most one
entry to the escrow of the channels, records at most one withdrawal event and caches at most
one deposit.  `Effect` says which, and `Base.Does` that a state is the outcome.

Results:
* `Base.balance_putAccountBalance_eq`: writing a balance sets one entry of the ledger;
* `sameFunds_onIbc`: the IBC component cannot reach the funds;
* `AdminWrites`, `SettingsWrites`, `ValidatorWrites`, `FundsWrites`: the writes by which a handler
  keeps a relation.
-/

namespace Astria.Sequencer

open Astria.Core Astria.Lib Exec

/-! ## The ledger -/

/-- Writing a balance sets one entry of the ledger. -/
theorem Base.balance_putAccountBalance_eq (s : Base) (a : AddressBytes) (i : IbcPrefixed)
    (v : ℕ) : (s.putAccountBalance a i v).balance = Ledger.set a i v s.balance := by
  funext b j
  rw [balance_putAccountBalance, Ledger.set_apply]

/-- The escrow of the channels is a ledger as well. -/
theorem Base.ibcChannelBalance_putIbcChannelBalance_eq (s : Base) (c : ChannelId)
    (i : IbcPrefixed) (v : ℕ) :
    (s.putIbcChannelBalance c i v).ibcChannelBalance = Ledger.set c i v s.ibcChannelBalance := by
  funext b j
  rw [Ledger.set_apply]
  unfold ibcChannelBalance putIbcChannelBalance
  by_cases hb : b = c
  · subst hb
    by_cases hj : j = i
    · subst hj
      simp
    · simp [hj]
  · simp [hb]

/-- The total of an asset over all accounts. -/
def Base.totalBalance (s : Base) (asset : IbcPrefixed) : ℕ := Ledger.total s.balance asset

/-! ## The funds -/

/-- The part of the state that holds funds, guards them or waits for the end of the
block. -/
structure Funds where
  accounts : Accounts
  bridge : Bridge
  channelBalances : ChannelId → IbcPrefixed → Option ℕ
  assets : Assets
  prefixes : AddressPrefixes
  deposits : List Deposit
  blockFees : List Fee
  transactionContext : Option TransactionContext

def Base.funds (s : Base) : Funds :=
  { accounts := s.accounts
    bridge := s.bridge
    channelBalances := s.ibc.channelBalances
    assets := s.assets
    prefixes := s.prefixes
    deposits := s.ephemeral.deposits
    blockFees := s.ephemeral.blockFees
    transactionContext := s.ephemeral.transactionContext }

/-- The funds are as they were. -/
def Base.SameFunds (s s' : Base) : Prop := s'.funds = s.funds

instance : IsPreorder Base Base.SameFunds where
  refl _ := rfl
  trans _ _ _ h h' := h'.trans h

namespace Base.SameFunds

variable {s s' : Base}

theorem balance (h : s.SameFunds s') : s'.balance = s.balance :=
  congrArg (fun f : Funds => fun a i => (f.accounts.balances a i).getD 0) h

theorem bridge (h : s.SameFunds s') : s'.bridge = s.bridge := congrArg Funds.bridge h

theorem ibcChannelBalance (h : s.SameFunds s') : s'.ibcChannelBalance = s.ibcChannelBalance :=
  congrArg (fun f : Funds => fun c i => (f.channelBalances c i).getD 0) h

theorem prefixes (h : s.SameFunds s') : s'.prefixes = s.prefixes := congrArg Funds.prefixes h

theorem assets (h : s.SameFunds s') : s'.assets = s.assets := congrArg Funds.assets h

theorem deposits (h : s.SameFunds s') : s'.ephemeral.deposits = s.ephemeral.deposits :=
  congrArg Funds.deposits h

theorem blockFees (h : s.SameFunds s') : s'.ephemeral.blockFees = s.ephemeral.blockFees :=
  congrArg Funds.blockFees h

theorem transactionContext (h : s.SameFunds s') :
    s'.ephemeral.transactionContext = s.ephemeral.transactionContext :=
  congrArg Funds.transactionContext h

end Base.SameFunds

/-- What the accounts and the bridge accounts hold and how assets are named is as it was. -/
structure Base.SameHoldings (s s' : Base) : Prop where
  balance : s'.balance = s.balance
  bridge : s'.bridge = s.bridge
  assets : s'.assets = s.assets
  escrow : s'.ibcChannelBalance = s.ibcChannelBalance

theorem Base.SameFunds.holdings {s s' : Base} (h : s.SameFunds s') : s.SameHoldings s' :=
  ⟨h.balance, h.bridge, h.assets, h.ibcChannelBalance⟩

/-! ## Effects -/

/-- What an action does to the funds. -/
structure Effect where
  /-- The withdrawal event that is recorded: the bridge account and the event id. -/
  event : Option (AddressBytes × String) := none
  accounts : Posting AddressBytes IbcPrefixed := {}
  escrow : Posting ChannelId IbcPrefixed := {}
  deposit : Option Deposit := none

/-- `event` is the only withdrawal event that is new, and it was not recorded before. -/
def Base.RecordsEvent (event : Option (AddressBytes × String)) (s s' : Base) : Prop :=
  match event with
  | none => s'.withdrawalEvent = s.withdrawalEvent
  | some (a, i) =>
    s.withdrawalEvent a i = none ∧ ∃ n, ∀ b j,
      s'.withdrawalEvent b j = if b = a ∧ j = i then some n else s.withdrawalEvent b j

/-- `s'` is the outcome of the effect `e` on the funds of `s`. -/
structure Base.Does (s : Base) (e : Effect) (s' : Base) : Prop where
  event : s.RecordsEvent e.event s'
  fits : Ledger.Fits u128Max e.accounts s.balance
  balance : s'.balance = Ledger.post e.accounts s.balance
  escrowFits : Ledger.Fits u128Max e.escrow s.ibcChannelBalance
  escrow : s'.ibcChannelBalance = Ledger.post e.escrow s.ibcChannelBalance
  deposits : s'.ephemeral.deposits = s.ephemeral.deposits ++ e.deposit.toList
  blockFees : s'.ephemeral.blockFees = s.ephemeral.blockFees
  transactionContext : s'.ephemeral.transactionContext = s.ephemeral.transactionContext

theorem Base.SameFunds.withdrawalEvent {s s' : Base} (h : s.SameFunds s') :
    s'.withdrawalEvent = s.withdrawalEvent := by
  unfold Base.withdrawalEvent
  rw [h.bridge]

/-- Nothing happens to funds that stay the same. -/
theorem Base.SameFunds.does {s s' : Base} (h : s.SameFunds s') : s.Does {} s' :=
  { event := h.withdrawalEvent
    fits := Ledger.fits_empty _ _
    balance := h.balance
    escrowFits := Ledger.fits_empty _ _
    escrow := h.ibcChannelBalance
    deposits := by rw [h.deposits, Option.toList_none, List.append_nil]
    blockFees := h.blockFees
    transactionContext := h.transactionContext }

/-- Funds that stay the same before and after do not matter to an effect. -/
theorem Base.Does.of_sameFunds {s t r s' : Base} {e : Effect} (hst : s.SameFunds t)
    (h : t.Does e r) (hrs : r.SameFunds s') : s.Does e s' := by
  have hevent : s.RecordsEvent e.event s' := by
    have := h.event
    unfold Base.RecordsEvent at this ⊢
    rwa [hrs.withdrawalEvent, ← hst.withdrawalEvent]
  refine ⟨hevent, hst.balance ▸ h.fits, ?_, hst.ibcChannelBalance ▸ h.escrowFits, ?_, ?_, ?_, ?_⟩
  · rw [hrs.balance, h.balance, hst.balance]
  · rw [hrs.ibcChannelBalance, h.escrow, hst.ibcChannelBalance]
  · rw [hrs.deposits, h.deposits, hst.deposits]
  · rw [hrs.blockFees, h.blockFees, hst.blockFees]
  · rw [hrs.transactionContext, h.transactionContext, hst.transactionContext]

/-! ## Writes

A relation between states that is kept by every write of a group of handlers is kept by the
handlers.  The writes of the administrative actions and those of the actions that move funds are
listed apart, since the first leave the funds. -/

/-- `R` is kept by what the administrative actions other than validator updates write. -/
structure SettingsWrites (R : Base → Base → Prop) : Prop where
  sudoAddress : ∀ a s, R s (s.putSudoAddress a)
  ibcSudoAddress : ∀ a s, R s (s.putIbcSudoAddress a)
  putRelayer : ∀ a s, R s (s.putIbcRelayerAddress a)
  deleteRelayer : ∀ a s, R s (s.deleteIbcRelayerAddress a)
  putFeeAsset : ∀ i s, R s (s.putAllowedFeeAsset i)
  deleteFeeAsset : ∀ i s, R s (s.deleteAllowedFeeAsset i)
  fees : ∀ kind fees s, R s (s.putFees kind fees)
  marketMap : ∀ m s, R s (s.putMarketMap m)
  marketMapHeight : ∀ h s, R s (s.putMarketMapLastUpdatedHeight h)
  ibcComponent : ∀ c s, R s (s.setIbcComponent c)

/-- `R` is kept by what the administrative actions other than validator updates and changes of markets
write. -/
structure NonMarketWrites (R : Base → Base → Prop) : Prop where
  sudoAddress : ∀ a s, R s (s.putSudoAddress a)
  ibcSudoAddress : ∀ a s, R s (s.putIbcSudoAddress a)
  putRelayer : ∀ a s, R s (s.putIbcRelayerAddress a)
  deleteRelayer : ∀ a s, R s (s.deleteIbcRelayerAddress a)
  putFeeAsset : ∀ i s, R s (s.putAllowedFeeAsset i)
  deleteFeeAsset : ∀ i s, R s (s.deleteAllowedFeeAsset i)
  fees : ∀ kind fees s, R s (s.putFees kind fees)
  ibcComponent : ∀ c s, R s (s.setIbcComponent c)

theorem SettingsWrites.nonMarket {R : Base → Base → Prop} (hR : SettingsWrites R) : NonMarketWrites R :=
  ⟨hR.sudoAddress, hR.ibcSudoAddress, hR.putRelayer, hR.deleteRelayer, hR.putFeeAsset,
    hR.deleteFeeAsset, hR.fees, hR.ibcComponent⟩

section

variable [ext : External]

/-- `R` is kept by what the administrative actions write. -/
structure AdminWrites (R : Base → Base → Prop) : Prop where
  sudoAddress : ∀ a s, R s (s.putSudoAddress a)
  ibcSudoAddress : ∀ a s, R s (s.putIbcSudoAddress a)
  putRelayer : ∀ a s, R s (s.putIbcRelayerAddress a)
  deleteRelayer : ∀ a s, R s (s.deleteIbcRelayerAddress a)
  putFeeAsset : ∀ i s, R s (s.putAllowedFeeAsset i)
  deleteFeeAsset : ∀ i s, R s (s.deleteAllowedFeeAsset i)
  fees : ∀ kind fees s, R s (s.putFees kind fees)
  validatorCount : ∀ n s, R s (s.putValidatorCount n)
  putValidator : ∀ v s, R s (s.putValidator v)
  deleteValidator : ∀ a s, R s (s.deleteValidator a)
  blockValidatorUpdates : ∀ v s, R s (s.putBlockValidatorUpdates v)
  marketMap : ∀ m s, R s (s.putMarketMap m)
  marketMapHeight : ∀ h s, R s (s.putMarketMapLastUpdatedHeight h)
  ibcComponent : ∀ c s, R s (s.setIbcComponent c)

theorem AdminWrites.settings {R : Base → Base → Prop} (hR : AdminWrites R) : SettingsWrites R :=
  ⟨hR.sudoAddress, hR.ibcSudoAddress, hR.putRelayer, hR.deleteRelayer, hR.putFeeAsset,
    hR.deleteFeeAsset, hR.fees, hR.marketMap, hR.marketMapHeight, hR.ibcComponent⟩

/-- `R` is kept by what validator updates write. -/
structure ValidatorWrites (R : Base → Base → Prop) : Prop where
  validatorCount : ∀ n s, R s (s.putValidatorCount n)
  putValidator : ∀ v s, R s (s.putValidator v)
  deleteValidator : ∀ a s, R s (s.deleteValidator a)
  blockValidatorUpdates : ∀ v s, R s (s.putBlockValidatorUpdates v)

theorem AdminWrites.validators {R : Base → Base → Prop} (hR : AdminWrites R) : ValidatorWrites R :=
  ⟨hR.validatorCount, hR.putValidator, hR.deleteValidator, hR.blockValidatorUpdates⟩

/-- `R` is kept by what the actions that move funds write. -/
structure FundsWrites (R : Base → Base → Prop) : Prop where
  balance : ∀ a i n s, R s (s.putAccountBalance a i n)
  withdrawalEvent : ∀ a i n s, R s (s.putWithdrawalEvent a i n)
  channelBalance : ∀ c i n s, R s (s.putIbcChannelBalance c i n)
  deposit : ∀ d s, R s (s.cacheDepositEvent d)
  event : ∀ e s, R s (s.record e)
  ibcAsset : ∀ asset s, R s (s.putIbcAsset asset)
  ibcComponent : ∀ c s, R s (s.setIbcComponent c)

/-- The administrative actions leave the funds. -/
theorem adminWrites_sameFunds : AdminWrites Base.SameFunds := by
  constructor <;> intros <;> rfl

omit ext in
/-- The IBC component can reach its own keys and the events. -/
theorem keeps_onIbc {R : Base → Base → Prop} (hR : ∀ c s, R s (s.setIbcComponent c)) {α : Type}
    (x : IbcM α) : Keeps R (onIbc x) := by
  intro s
  unfold onIbc zoom
  cases x s.ibcComponent with
  | ok a t => exact hR t s
  | error e t => exact hR t s

omit ext in
theorem keeps_writeIbc {R : Base → Base → Prop} (hR : ∀ c s, R s (s.setIbcComponent c))
    (f : IbcComponent → IbcComponent) : Keeps R (writeIbc f) := keeps_writes fun _ => hR _ _

omit ext in
/-- The IBC component cannot reach the funds. -/
@[simp] theorem sameFunds_onIbc {α : Type} (x : IbcM α) : Keeps Base.SameFunds (onIbc x) :=
  keeps_onIbc (fun _ _ => rfl) x

omit ext in
@[simp] theorem sameFunds_writeIbc (f : IbcComponent → IbcComponent) :
    Keeps Base.SameFunds (writeIbc f) := keeps_writeIbc (fun _ _ => rfl) f

variable {R : Base → Base → Prop} [IsPreorder Base R]

omit ext in
@[simp] theorem keeps_getTransactionContext : Keeps R getTransactionContext := keeps_tryReads _

omit ext in
@[simp] theorem keeps_ensureBasePrefix (a : Address) : Keeps R (ensureBasePrefix a) := by
  simp [ensureBasePrefix]

omit ext in
theorem keeps_increaseBalance (hR : ∀ a i n s, R s (s.putAccountBalance a i n)) (a : AddressBytes)
    (i : IbcPrefixed) (n : ℕ) : Keeps R (increaseBalance a i n) :=
  Keeps.bind (by simp) fun _ => Keeps.bind (by simp) fun _ => keeps_writes (hR _ _ _)

omit ext in
theorem keeps_decreaseBalance (hR : ∀ a i n s, R s (s.putAccountBalance a i n)) (a : AddressBytes)
    (i : IbcPrefixed) (n : ℕ) : Keeps R (decreaseBalance a i n) :=
  Keeps.bind (by simp) fun _ => Keeps.bind (by simp) fun _ => keeps_writes (hR _ _ _)

omit ext in
theorem keeps_decreaseIbcChannelBalance (hR : ∀ c i n s, R s (s.putIbcChannelBalance c i n))
    (c : ChannelId) (i : IbcPrefixed) (n : ℕ) : Keeps R (decreaseIbcChannelBalance c i n) :=
  Keeps.bind (by simp) fun _ => Keeps.bind (by simp) fun _ => keeps_writes (hR _ _ _)

omit ext in
theorem keeps_checkAndSetWithdrawalEvent (hR : ∀ a i n s, R s (s.putWithdrawalEvent a i n))
    (a : AddressBytes) (i : String) (n : ℕ) : Keeps R (checkAndSetWithdrawalEvent a i n) := by
  refine Keeps.bind (by simp) fun existing => ?_
  cases existing with
  | some m => exact keeps_fail _
  | none => exact keeps_writes (hR _ _ _)

end

end Astria.Sequencer
