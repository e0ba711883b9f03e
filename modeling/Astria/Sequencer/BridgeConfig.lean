import Astria.Sequencer.Frame

/-!
# The configuration of bridge accounts

A bridge account is configured by four keys: its rollup id, its asset, its sudo address and its
withdrawer.  Two actions write them, and each of the two is the only action of its transaction.

Results:
* `executeAction_sameConfig`: no other action touches a configuration;
* `executeAction_wellConfigured`: the four keys of an account are there together or not at all;
* `Actions.eq_singleton_of_configures`: an action that configures comes alone.
-/

namespace Astria.Sequencer

open Astria.Core Astria.Lib Exec

/-! ## Configurations -/

/-- The configuration of every bridge account. -/
structure BridgeConfig where
  rollupId : AddressBytes → Option RollupId
  ibcAsset : AddressBytes → Option IbcPrefixed
  sudoAddress : AddressBytes → Option AddressBytes
  withdrawerAddress : AddressBytes → Option AddressBytes

def Base.bridgeConfig (s : Base) : BridgeConfig :=
  { rollupId := s.bridge.rollupId
    ibcAsset := s.bridge.ibcAsset
    sudoAddress := s.bridge.sudoAddress
    withdrawerAddress := s.bridge.withdrawerAddress }

/-- The bridge accounts are configured as they were. -/
def Base.SameConfig (s s' : Base) : Prop := s'.bridgeConfig = s.bridgeConfig

instance : IsPreorder Base Base.SameConfig where
  refl _ := rfl
  trans _ _ _ h h' := h'.trans h

theorem Base.SameConfig.of_bridge {s s' : Base} (h : s'.bridge = s.bridge) : s.SameConfig s' := by
  unfold Base.SameConfig Base.bridgeConfig
  rw [h]

/-- The keys of an account are there together or not at all. -/
structure Base.WellConfigured (s : Base) : Prop where
  ibcAsset : ∀ a, (s.bridge.ibcAsset a).isSome = (s.bridge.rollupId a).isSome
  sudoAddress : ∀ a, (s.bridge.sudoAddress a).isSome = (s.bridge.rollupId a).isSome
  withdrawerAddress : ∀ a, (s.bridge.withdrawerAddress a).isSome = (s.bridge.rollupId a).isSome

theorem Base.SameConfig.wellConfigured {s s' : Base} (h : s.SameConfig s') (hs : s.WellConfigured) :
    s'.WellConfigured := by
  have hid : s'.bridge.rollupId = s.bridge.rollupId := congrArg BridgeConfig.rollupId h
  have hasset : s'.bridge.ibcAsset = s.bridge.ibcAsset := congrArg BridgeConfig.ibcAsset h
  have hsudo : s'.bridge.sudoAddress = s.bridge.sudoAddress := congrArg BridgeConfig.sudoAddress h
  have hwithdrawer : s'.bridge.withdrawerAddress = s.bridge.withdrawerAddress :=
    congrArg BridgeConfig.withdrawerAddress h
  refine ⟨fun a => ?_, fun a => ?_, fun a => ?_⟩
  · rw [hasset, hid, hs.ibcAsset]
  · rw [hsudo, hid, hs.sudoAddress]
  · rw [hwithdrawer, hid, hs.withdrawerAddress]

/-- An action that configures a bridge account is the only one of its transaction. -/
theorem Actions.eq_singleton_of_configures {acts : Actions} {act : Action} (h : act ∈ acts.inner)
    (hact : ActionKind.configuresBridge act.kind = true) : acts.inner = [act] := by
  have hgroup : acts.group.isBundleable = false := by
    rw [← acts.sameGroup act h]
    cases act <;> first | rfl | cases hact
  obtain ⟨a, ha⟩ := acts.eq_singleton hgroup
  rw [ha, List.mem_singleton] at h
  rw [ha, h]

section

variable [ext : External]

/-- Neither the administrative actions nor those that move funds configure a bridge account. -/
theorem adminWrites_sameConfig : AdminWrites Base.SameConfig := by
  constructor <;> intros <;> rfl

theorem fundsWrites_sameConfig : FundsWrites Base.SameConfig := by
  constructor <;> intros <;> rfl

omit ext in
theorem transactionWrites_sameConfig : TransactionWrites Base.SameConfig := by
  constructor <;> intros <;> rfl

/-- An action of any other kind, with its fee, leaves the configuration of bridge accounts. -/
theorem executeAction_sameConfig {source : AddressBytes} {act : Action} {s s' : State} {u : Unit}
    (hact : ActionKind.configuresBridge act.kind = false)
    (h : executeAction source act s = .ok u s') : s.base.SameConfig s'.base :=
  executeAction_keeps fundsWrites_sameConfig transactionWrites_sameConfig
    (fun _ => Action.checkAndExecute_keeps adminWrites_sameConfig fundsWrites_sameConfig hact) h

omit ext in
theorem Base.WellConfigured.init {s : Base} (hs : s.WellConfigured) (a w sudoAddress : AddressBytes)
    (id : RollupId) (asset : IbcPrefixed) :
    ((((s.putBridgeAccountRollupId a id).putBridgeAccountIbcAsset a
      asset).putBridgeAccountSudoAddress a sudoAddress).putBridgeAccountWithdrawerAddress a
        w).WellConfigured := by
  have hupdate {β γ : Type} {f : AddressBytes → Option β} {g : AddressBytes → Option γ} {v : β}
      {v' : γ} {b : AddressBytes} (h : (f b).isSome = (g b).isSome) :
      (Function.update f a (some v) b).isSome = (Function.update g a (some v') b).isSome := by
    by_cases hb : b = a
    · subst hb
      simp
    · simpa [hb] using h
  exact ⟨fun b => hupdate (hs.ibcAsset b), fun b => hupdate (hs.sudoAddress b),
    fun b => hupdate (hs.withdrawerAddress b)⟩

omit ext in
theorem Base.WellConfigured.sudoChange {s : Base} (hs : s.WellConfigured) {a : AddressBytes}
    (ha : (s.bridge.sudoAddress a).isSome) (sudoAddress w : Option Address) :
    (putOptional (Base.putBridgeAccountWithdrawerAddress a) w
      (putOptional (Base.putBridgeAccountSudoAddress a) sudoAddress s)).WellConfigured := by
  have hid : (s.bridge.rollupId a).isSome := hs.sudoAddress a ▸ ha
  have hupdate {β : Type} (f : AddressBytes → Option β) (hf : (f a).isSome) (v : β)
      (b : AddressBytes) : (Function.update f a (some v) b).isSome = (f b).isSome := by
    by_cases hb : b = a
    · subst hb
      simp [hf]
    · simp [hb]
  have hwithdrawer : (s.bridge.withdrawerAddress a).isSome := by rw [hs.withdrawerAddress, hid]
  refine ⟨fun b => ?_, fun b => ?_, fun b => ?_⟩
  · cases w <;> cases sudoAddress <;> exact hs.ibcAsset b
  · cases w <;> cases sudoAddress
    · exact hs.sudoAddress b
    · exact (hupdate _ ha _ b).trans (hs.sudoAddress b)
    · exact hs.sudoAddress b
    · exact (hupdate _ ha _ b).trans (hs.sudoAddress b)
  · cases w <;> cases sudoAddress
    · exact hs.withdrawerAddress b
    · exact hs.withdrawerAddress b
    · exact (hupdate _ hwithdrawer _ b).trans (hs.withdrawerAddress b)
    · exact (hupdate _ hwithdrawer _ b).trans (hs.withdrawerAddress b)

/-- Every action keeps the keys of each account together. -/
theorem executeAction_wellConfigured {source : AddressBytes} {act : Action} {s s' : State} {u : Unit}
    {c : TransactionContext} (hc : s.base.ephemeral.transactionContext = some c)
    (hs : s.base.WellConfigured) (h : executeAction source act s = .ok u s') :
    s'.base.WellConfigured := by
  cases hact : ActionKind.configuresBridge act.kind with
  | false => exact (executeAction_sameConfig hact h).wellConfigured hs
  | true =>
    obtain ⟨t, hexec, hpays, -⟩ := executeAction_ok hc h
    refine (Base.SameConfig.of_bridge hpays.bridge).wellConfigured ?_
    cases act with
    | initBridgeAccount act =>
      obtain ⟨b, hb, rfl⟩ := onBase_eq_ok.mp hexec
      obtain ⟨c', -, -, rfl⟩ := InitBridgeAccount.checkAndExecute_eq_ok hb
      exact hs.init _ _ _ _ _
    | bridgeSudoChange act =>
      obtain ⟨b, hb, rfl⟩ := onBase_eq_ok.mp hexec
      obtain ⟨c', -, hsudo, rfl⟩ := BridgeSudoChange.checkAndExecute_eq_ok hb
      exact hs.sudoChange (by rw [hsudo]; rfl) _ _
    | _ => cases hact

end

end Astria.Sequencer
