import Astria.Lib.Base64
import Astria.Sequencer.Replication

/-!
# Starting a node again

A node that starts on a storage checks its upgrade file against the changes that are recorded there
(`sequencer.rs`, `initialize`, `upgrades/upgrades_handler.rs`, lines 75–169), so that a node whose file
disagrees with what its chain has executed does not go on.

Specification: `Upgrades.executedUntil`, the upgrade that a chain has executed up to a height.

Results:
* `ChainRun.records`: the changes that are recorded are those of the upgrade that was executed;
* `NodeRun.sequencerInitialize_iff`: with which upgrade files a node starts again.
-/

namespace Astria.Sequencer

open Astria.Core Astria.Lib Exec

/-! ## The checks -/

/-- `Display` of `ChangeHash`: base64 with the standard alphabet. -/
def displayChangeHash (hash : Bytes32) : String :=
  String.ofList ((Base64.encode hash.toList).map fun digit =>
    if digit = '-' then '+' else if digit = '_' then '/' else digit)

/-- `Display` of the `ChangeInfo` of a change. -/
def ChangeInfo.display (name : String) (info : ChangeInfo) : String :=
  "upgrade change `" ++ name ++ "` with activation height " ++ toString info.activationHeight ++
    ", app version " ++ toString info.appVersion ++ ", change hash " ++ displayChangeHash info.hash

/-- `next_block_height`. -/
def nextBlockHeight : BaseM ℕ := do
  let height ← reads fun s => s.chain.blockHeight.getD 0
  require (checkedAdd u64Max height 1) ["overflowed getting next block height"]

/-- `get_upgrade_change_info`. -/
def Base.getUpgradeChangeInfo (s : Base) (upgrade change : String) : Option ChangeInfo :=
  s.chain.upgradeChangeInfos upgrade change

section

variable [ext : External] [UpgradeCodec]

/-- A change of a historical upgrade is recorded as the upgrade file has it. -/
def Aspen.ensureApplied (aspen : Aspen) (change : AspenChange) : BaseM Unit := do
  let stored ← reads fun s => s.getUpgradeChangeInfo Aspen.name change.name
  let storedInfo ← require stored
    ["historical upgrade change `" ++ Aspen.name ++ "/" ++ change.name ++
      "` has not been applied (wrong upgrade.json file provided?)"]
  ensure (aspen.changeInfo change = storedInfo)
    ["upgrade change `" ++ (aspen.changeInfo change).display change.name ++
      "` does not match stored info `" ++ storedInfo.display change.name ++ "` for `" ++ Aspen.name ++
      "/" ++ change.name ++ "`"]

/-- `ensure_historical_upgrades_applied`. -/
def ensureHistoricalUpgradesApplied (upgrades : Upgrades) : BaseM Unit := do
  let next ← nextBlockHeight
  match upgrades.aspen with
  | none => pure ()
  | some aspen =>
    if next ≤ aspen.activationHeight then pure () else forEach AspenChange.all aspen.ensureApplied

/-- `ShouldShutDown`. -/
inductive ShouldShutDown where
  | shutDownForUpgrade (upgradeActivationHeight : ℕ) (blockTime : Time) (hexEncodedAppHash : String)
  | continueRunning

/-- `Upgrade::shutdown_required`. -/
def Aspen.shutdownRequired (_ : Aspen) : Bool := false

/-- `should_shut_down`. -/
def shouldShutDown [RootHash] (upgrades : Upgrades) : AppM ShouldShutDown := do
  let next ← onBase nextBlockHeight
  match upgrades.aspen with
  | none => pure .continueRunning
  | some aspen =>
    if aspen.activationHeight = next ∧ aspen.shutdownRequired = true then do
      let blockTime ← wrapErr "failed getting latest block time from snapshot"
        (onBase (tryReads Base.getBlockTimestamp))
      let appHash ← reads State.rootHash
      pure (.shutDownForUpgrade aspen.activationHeight blockTime
        (String.ofList (appHash.toList.flatMap Denom.hexByte)))
    else
      pure .continueRunning

/-- `InitializationOutcome`. -/
inductive InitializationOutcome where
  | initialized (app : App)
  | shutDownForUpgrade

/-- A storage that is initialized has the base prefix. -/
def ensureBasePrefixStored (storage : Storage) : AppM Unit :=
  if storage.latestVersion = u64Max then pure ()
  else do
    let _ ← wrapErr "failed to query state for base prefix" (onBase (tryReads Base.getBasePrefix))
    pure ()

/-- The checks of `Sequencer::initialize` on the latest snapshot, and the application that it starts. -/
def sequencerInitialize [RootHash] (upgrades : Upgrades) (storage : Storage) :
    AppM InitializationOutcome := do
  wrapErr "historical upgrades not applied" (onBase (ensureHistoricalUpgradesApplied upgrades))
  let shutDown ← wrapErr "failed to establish if sequencer should shut down for upgrade"
    (shouldShutDown upgrades)
  match shutDown with
  | .shutDownForUpgrade _ _ _ => pure .shutDownForUpgrade
  | .continueRunning => do
    ensureBasePrefixStored storage
    pure (.initialized (App.new storage))

/-! ## What a chain records -/

/-- The upgrade that a chain has executed up to a height, which starts at 1. -/
def Upgrades.executedUntil (upgrades : Upgrades) (height : ℕ) : Option Aspen :=
  upgrades.aspen.filter fun aspen => 1 ≤ aspen.activationHeight ∧ aspen.activationHeight ≤ height

/-- The recorded changes are those of the upgrade that was executed, and the base prefix is set. -/
structure Base.RecordsUpgrades (upgrades : Upgrades) (s : Base) : Prop where
  infos : ∀ change : AspenChange, s.getUpgradeChangeInfo Aspen.name change.name =
    (upgrades.executedUntil (s.chain.blockHeight.getD 0)).map fun aspen => aspen.changeInfo change
  basePrefix : s.prefixes.basePrefix ≠ none

/-- What the records are about is as it was. -/
def Base.SameRecords (s s' : Base) : Prop := s'.chain.blockHeight = s.chain.blockHeight ∧
  s'.chain.upgradeChangeInfos = s.chain.upgradeChangeInfos ∧ s'.prefixes = s.prefixes

instance : IsPreorder Base Base.SameRecords where
  refl _ := ⟨rfl, rfl, rfl⟩
  trans _ _ _ h h' := ⟨h'.1.trans h.1, h'.2.1.trans h.2.1, h'.2.2.trans h.2.2⟩

theorem Base.RecordsUpgrades.of_same {upgrades : Upgrades} {s s' : Base} (h : s.RecordsUpgrades upgrades)
    (hsame : s.SameRecords s') : s'.RecordsUpgrades upgrades := by
  obtain ⟨hheight, hinfos, hprefixes⟩ := hsame
  refine ⟨fun change => ?_, hprefixes ▸ h.basePrefix⟩
  have hchange := h.infos change
  unfold Base.getUpgradeChangeInfo at hchange ⊢
  rw [hheight, hinfos, hchange]

/-- The base prefix stays set. -/
def Base.KeepsPrefix (s s' : Base) : Prop :=
  s.prefixes.basePrefix ≠ none → s'.prefixes.basePrefix ≠ none

instance : IsPreorder Base Base.KeepsPrefix where
  refl _ := id
  trans _ _ _ h h' := h' ∘ h

/-- The genesis records the base prefix, and no change. -/
theorem initChain_records (upgrades : Upgrades) {genesis : GenesisAppState}
    {validators : List ValidatorUpdate} {chainId : String} {b : Base}
    (h : initChain genesis validators chainId Base.empty = .ok () b) : b.RecordsUpgrades upgrades := by
  have hnone : upgrades.executedUntil (b.chain.blockHeight.getD 0) = none := by
    rw [initChain_blockHeight h]
    refine Option.filter_eq_none_iff.mpr fun aspen _ => ?_
    simp
    omega
  refine ⟨fun change => ?_, ?_⟩
  · have hfresh := (initChain_keeps genesisWrites_sameUnset genesis validators chainId).of_ok h
    unfold Base.getUpgradeChangeInfo
    rw [hnone, hfresh.2.1]
    rfl
  · have hwrites : GenesisWrites Base.KeepsPrefix := by
      constructor <;> intros <;> simp [Base.KeepsPrefix, Base.putBasePrefix]
      all_goals exact id
    have hkeeps := (initChain_keeps hwrites genesis validators chainId).of_ok
      (s := Base.empty.putBasePrefix genesis.addressPrefixes.1) h
    exact hkeeps (Option.some_ne_none _)

omit [UpgradeCodec] in
theorem handleAspenUpgrade_sameRecords : Keeps Base.SameRecords handleAspenUpgrade := by
  unfold handleAspenUpgrade
  refine Keeps.bind (by simp) fun set => Keeps.bind (keeps_writes fun _ => ⟨rfl, rfl, rfl⟩) fun _ => ?_
  refine Keeps.bind (keeps_writes fun _ => ⟨rfl, rfl, rfl⟩) fun _ => Keeps.forEach (fun _ => ?_) _
  exact keeps_writes fun _ => ⟨rfl, rfl, rfl⟩

/-- The upgrade that is executed with a block is recorded. -/
theorem executeUpgradeIfDue_records {upgrades : Upgrades} {height : ℕ} {hashes : List Bytes32}
    {s s' : State} (h : executeUpgradeIfDue upgrades height s = .ok hashes s')
    (hs : s.base.RecordsUpgrades upgrades) (hheight : height = s.nextHeight) :
    (s'.base.putBlockHeight height).RecordsUpgrades upgrades := by
  have hpos : 1 ≤ height := by
    rw [hheight]
    exact Nat.le_add_left 1 _
  unfold executeUpgradeIfDue at h
  cases hdue : upgrades.upgradeActivatingAtHeight height with
  | none =>
    rw [hdue] at h
    obtain ⟨-, rfl⟩ := pure_eq_ok.mp h
    have hsame : upgrades.executedUntil height =
        upgrades.executedUntil (s'.base.chain.blockHeight.getD 0) := by
      unfold Upgrades.executedUntil
      cases haspen : upgrades.aspen with
      | none => rfl
      | some aspen =>
        have hne : aspen.activationHeight ≠ height := fun heq => by
          have hsome := Upgrades.upgradeActivatingAtHeight_eq_some.mpr ⟨haspen, heq⟩
          rw [hdue] at hsome
          cases hsome
        unfold State.nextHeight at hheight
        simp only [Option.filter_some]
        congr 2
        rw [decide_eq_decide]
        omega
    refine ⟨fun change => ?_, hs.basePrefix⟩
    have hchange := hs.infos change
    rw [← hsame] at hchange
    exact hchange
  | some aspen =>
    rw [hdue] at h
    have h : aspen.execute s = .ok hashes s' := h
    obtain ⟨haspen, hactivates⟩ := Upgrades.upgradeActivatingAtHeight_eq_some.mp hdue
    have hexecuted : upgrades.executedUntil height = some aspen := by
      unfold Upgrades.executedUntil
      rw [haspen]
      exact Option.filter_some_pos (decide_eq_true ⟨hactivates.symm ▸ hpos, hactivates.le⟩)
    simp only [Aspen.execute, bind_eq_ok, pure_eq_ok, onBase_eq_ok, mapErr_eq_ok] at h
    obtain ⟨_, _, ⟨b, hchanges, rfl⟩, _, _, ⟨c, hmarket, rfl⟩, _, t, horacle, _, _, ⟨d, hauthority, rfl⟩,
      -, rfl⟩ := h
    simp only [AspenChange.all, forEach_cons_eq_ok, forEach_nil_eq_ok, writes_eq_ok,
      exists_eq_left] at hchanges
    rw [MarketMapGenesis.handleGenesis, writes_eq_ok] at hmarket
    obtain ⟨o, -, rfl⟩ := zoom_eq_ok.mp horacle
    have hsame : Base.SameRecords b d := by
      have hauthority' : Base.SameRecords c d := handleAspenUpgrade_sameRecords.of_ok hauthority
      rw [hmarket] at hauthority'
      exact hauthority'
    have hb : (b.putBlockHeight height).RecordsUpgrades upgrades := by
      refine ⟨fun change => ?_, ?_⟩
      · change b.getUpgradeChangeInfo Aspen.name change.name = Option.map _ (upgrades.executedUntil height)
        rw [hexecuted, hchanges]
        cases change <;>
          simp [Base.getUpgradeChangeInfo, Base.putUpgradeChangeInfo, Aspen.name, AspenChange.name]
      · rw [hchanges]
        exact hs.basePrefix
    exact hb.of_same ⟨rfl, hsame.2⟩

section

variable [TransactionCodec] [BlockCodec] {handler : UpgradesHandler}

theorem executeBlock_records {appHash : Bytes32} {block : Block} {s s' : State} {u : Unit}
    (h : executeBlock handler appHash block s = .ok u s') (hs : s.base.RecordsUpgrades handler.upgrades)
    (hheight : block.data.height = s.nextHeight) : s'.base.RecordsUpgrades handler.upgrades := by
  obtain ⟨hashes, t, hupgrade, hsame⟩ := executeBlock_keeps (R := Base.SameRecords)
    (by constructor <;> intros <;> exact ⟨rfl, rfl, rfl⟩)
    (by constructor <;> intros <;> exact ⟨rfl, rfl, rfl⟩)
    (by constructor <;> intros <;> exact ⟨rfl, rfl, rfl⟩)
    (by constructor <;> intros <;> exact ⟨rfl, rfl, rfl⟩)
    (by constructor <;> intros <;> exact ⟨rfl, rfl, rfl⟩) h
  have hstart : (s.withEvents []).base.RecordsUpgrades handler.upgrades := hs.of_same ⟨rfl, rfl, rfl⟩
  exact (executeUpgradeIfDue_records hupgrade hstart hheight).of_same hsame

/-- A chain records the upgrade that it has executed. -/
theorem ChainRun.records {genesis : GenesisAppState} {validators : List ValidatorUpdate}
    {chainId : String} {b : Base} (hgenesis : initChain genesis validators chainId Base.empty = .ok () b)
    {steps : List ActionStep} {s : State} (h : ChainRun handler b steps s) :
    s.base.RecordsUpgrades handler.upgrades := by
  have hexecutes {appHash : Bytes32} {executed : Block} {s s' : State}
      (hexec : Executes handler appHash executed s s') (hs : s.base.RecordsUpgrades handler.upgrades)
      (hheight : executed.data.height = s.nextHeight) : s'.base.RecordsUpgrades handler.upgrades := by
    obtain ⟨t, hok, rfl | ⟨results, rfl⟩⟩ := hexec
    · exact executeBlock_records hok hs hheight
    · exact (executeBlock_records hok hs hheight).of_same ⟨rfl, rfl, rfl⟩
  induction h with
  | genesis height version =>
    exact (initChain_records handler.upgrades hgenesis).of_same ⟨rfl, rfl, rfl⟩
  | executed height version hrun hheight hprices hexec ih =>
    have hsame := hprices.base_eq
    rw [← hsame] at ih
    have hnext := congrArg (fun b : Base => b.chain.blockHeight.getD 0 + 1) hsame
    exact (hexecutes hexec ih (hheight.trans hnext.symm)).of_same ⟨rfl, rfl, rfl⟩
  | proposed height version hrun hheight hexec hprices ih =>
    have hexecuted := hexecutes hexec ih hheight
    rw [← hprices.base_eq] at hexecuted
    exact hexecuted.of_same ⟨rfl, rfl, rfl⟩

end

/-! ## Which nodes start -/

omit [UpgradeCodec] ext in
theorem nextBlockHeight_eq_ok {s s' : Base} {next : ℕ} :
    nextBlockHeight s = .ok next s' ↔
      (next = s.chain.blockHeight.getD 0 + 1 ∧ s.chain.blockHeight.getD 0 + 1 ≤ u64Max) ∧ s' = s := by
  simp only [nextBlockHeight, bind_eq_ok, reads_eq_ok, require_eq_ok, and_assoc, exists_and_left,
    exists_eq_left, checkedAdd_eq_some]

theorem Aspen.ensureApplied_eq_ok {aspen : Aspen} {change : AspenChange} {s s' : Base} {u : Unit} :
    aspen.ensureApplied change s = .ok u s' ↔
      s.getUpgradeChangeInfo Aspen.name change.name = some (aspen.changeInfo change) ∧ s' = s := by
  simp only [Aspen.ensureApplied, bind_eq_ok, reads_eq_ok, require_eq_ok, ensure_eq_ok, and_assoc,
    exists_and_left, exists_eq_left]
  constructor
  · rintro ⟨stored, hstored, rfl, rfl⟩
    exact ⟨hstored, rfl⟩
  · rintro ⟨hstored, rfl⟩
    exact ⟨_, hstored, rfl, rfl⟩

/-- An upgrade file is accepted if its historical changes are those that are recorded. -/
theorem ensureHistoricalUpgradesApplied_eq_ok {upgrades : Upgrades} {s s' : Base} {u : Unit} :
    ensureHistoricalUpgradesApplied upgrades s = .ok u s' ↔
      s.chain.blockHeight.getD 0 + 1 ≤ u64Max ∧
        (∀ aspen, upgrades.aspen = some aspen →
          aspen.activationHeight < s.chain.blockHeight.getD 0 + 1 →
            ∀ change : AspenChange,
              s.getUpgradeChangeInfo Aspen.name change.name = some (aspen.changeInfo change)) ∧
        s' = s := by
  have hall (aspen : Aspen) {t : Base} : forEach AspenChange.all aspen.ensureApplied t = .ok () s' ↔
      (∀ change ∈ AspenChange.all,
        t.getUpgradeChangeInfo Aspen.name change.name = some (aspen.changeInfo change)) ∧ s' = t :=
    forEach_check_eq_ok fun change r r' => aspen.ensureApplied_eq_ok
  have hmem (change : AspenChange) : change ∈ AspenChange.all := by
    cases change <;> decide
  simp only [ensureHistoricalUpgradesApplied, bind_eq_ok, nextBlockHeight_eq_ok, and_assoc,
    exists_and_left, exists_eq_left]
  refine and_congr_right fun _ => ?_
  cases upgrades.aspen with
  | none => simp
  | some aspen =>
    dsimp only
    split_ifs with hnext
    · rw [pure_eq_ok]
      constructor
      · rintro ⟨-, rfl⟩
        refine ⟨fun aspen' haspen hlt => ?_, rfl⟩
        obtain rfl := Option.some.inj haspen
        omega
      · rintro ⟨-, rfl⟩
        exact ⟨rfl, rfl⟩
    · rw [hall]
      refine and_congr_left fun _ => ⟨fun happlied aspen' haspen _ change => ?_, fun happlied change _ => ?_⟩
      · obtain rfl := Option.some.inj haspen
        exact happlied change (hmem change)
      · exact happlied aspen rfl (Nat.lt_of_not_le hnext) change

variable [RootHash]

omit ext [UpgradeCodec] in
/-- No upgrade that this program knows requires that it is shut down. -/
theorem shouldShutDown_eq_ok {upgrades : Upgrades} {s s' : State} {shutDown : ShouldShutDown} :
    shouldShutDown upgrades s = .ok shutDown s' ↔
      s.nextHeight ≤ u64Max ∧ shutDown = .continueRunning ∧ s' = s := by
  have hnot (aspen : Aspen) (next : ℕ) :
      ¬(aspen.activationHeight = next ∧ aspen.shutdownRequired = true) := fun h => by cases h.2
  have hnext {next : ℕ} {t : State} : onBase nextBlockHeight s = .ok next t ↔
      (next = s.nextHeight ∧ s.nextHeight ≤ u64Max) ∧ t = s := by
    rw [onBase_eq_ok]
    constructor
    · rintro ⟨b, hb, rfl⟩
      obtain ⟨hheight, rfl⟩ := nextBlockHeight_eq_ok.mp hb
      exact ⟨hheight, rfl⟩
    · rintro ⟨hheight, rfl⟩
      exact ⟨_, nextBlockHeight_eq_ok.mpr ⟨hheight, rfl⟩, rfl⟩
  simp only [shouldShutDown, bind_eq_ok, hnext, and_assoc, exists_and_left, exists_eq_left]
  refine and_congr_right fun _ => ?_
  cases upgrades.aspen with
  | none => exact pure_eq_ok
  | some aspen =>
    dsimp only
    rw [if_neg (hnot aspen _)]
    exact pure_eq_ok

/-- A node starts on a storage that is initialized if the check of its upgrade file succeeds. -/
theorem sequencerInitialize_eq_ok {upgrades : Upgrades} {storage : Storage} {s : State}
    {outcome : InitializationOutcome}
    (hstored : storage.latestSnapshot.base.prefixes.basePrefix ≠ none) :
    sequencerInitialize upgrades storage storage.latestSnapshot = .ok outcome s ↔
      ensureHistoricalUpgradesApplied upgrades storage.latestSnapshot.base =
          .ok () storage.latestSnapshot.base ∧
        outcome = .initialized (App.new storage) ∧ s = storage.latestSnapshot := by
  have hchecked {t : State} : ensureBasePrefixStored storage storage.latestSnapshot = .ok () t ↔
      t = storage.latestSnapshot := by
    obtain ⟨basePrefix, hbase⟩ := Option.ne_none_iff_exists'.mp hstored
    have hread : Base.getBasePrefix storage.latestSnapshot.base = .ok basePrefix := by
      unfold Base.getBasePrefix
      rw [hbase]
    unfold ensureBasePrefixStored
    split_ifs
    · exact pure_eq_ok.trans (and_iff_right rfl)
    · simp only [bind_eq_ok, mapErr_eq_ok, onBase_tryReads_eq_ok, hread, pure_eq_ok]
      constructor
      · rintro ⟨_, _, ⟨-, rfl⟩, -, rfl⟩
        rfl
      · rintro rfl
        exact ⟨basePrefix, _, ⟨rfl, rfl⟩, trivial, rfl⟩
  have hensured {t : State} :
      onBase (ensureHistoricalUpgradesApplied upgrades) storage.latestSnapshot = .ok () t ↔
        ensureHistoricalUpgradesApplied upgrades storage.latestSnapshot.base =
          .ok () storage.latestSnapshot.base ∧ t = storage.latestSnapshot := by
    rw [onBase_eq_ok]
    constructor
    · rintro ⟨b, hb, rfl⟩
      obtain ⟨-, -, rfl⟩ := ensureHistoricalUpgradesApplied_eq_ok.mp hb
      exact ⟨hb, rfl⟩
    · rintro ⟨hb, rfl⟩
      exact ⟨_, hb, rfl⟩
  simp only [sequencerInitialize, bind_eq_ok, mapErr_eq_ok, hensured, shouldShutDown_eq_ok]
  constructor
  · rintro ⟨_, _, ⟨happlied, rfl⟩, _, _, ⟨-, rfl, rfl⟩, hrest⟩
    simp only [bind_eq_ok, hchecked, pure_eq_ok] at hrest
    obtain ⟨_, _, rfl, rfl, rfl⟩ := hrest
    exact ⟨happlied, rfl, rfl⟩
  · rintro ⟨happlied, rfl, rfl⟩
    have hnext := (ensureHistoricalUpgradesApplied_eq_ok.mp happlied).1
    refine ⟨(), _, ⟨happlied, rfl⟩, _, _, ⟨hnext, rfl, rfl⟩, ?_⟩
    simp only [bind_eq_ok, hchecked, pure_eq_ok]
    exact ⟨(), _, rfl, trivial, rfl⟩

variable [TransactionCodec] [BlockCodec] [VoteCrypto] {handler : UpgradesHandler} {genesis : InitChain}
  {parkedMaxTxCount : ℕ} {requests : List (Request parkedMaxTxCount)} {node : Node}

/-- A node starts again exactly with the upgrade files whose historical upgrade is the one that its chain
has executed, with the same changes: an upgrade at the height 0 is never executed. -/
theorem NodeRun.sequencerInitialize_iff (hlaws : DataItem.Laws) (hlater : handler.EnablesLater)
    (h : NodeRun handler genesis requests node) (hheight : node.storage.nextHeight ≤ u64Max)
    (upgrades : Upgrades) :
    sequencerInitialize upgrades node.storage node.storage.latestSnapshot =
        .ok (.initialized (App.new node.storage)) node.storage.latestSnapshot ↔
      ∀ aspen, upgrades.aspen = some aspen → aspen.activationHeight < node.storage.nextHeight →
        ∃ executed, handler.upgrades.aspen = some executed ∧ 1 ≤ executed.activationHeight ∧
          ∀ change : AspenChange, aspen.changeInfo change = executed.changeInfo change := by
  obtain ⟨b, hb, steps, hchain⟩ := h.chainRun hlaws hlater
  have hrecords := hchain.records hb
  rw [sequencerInitialize_eq_ok hrecords.basePrefix, ensureHistoricalUpgradesApplied_eq_ok]
  constructor
  · rintro ⟨⟨-, happlied, -⟩, -, -⟩ aspen haspen hhistorical
    have hrecorded := happlied aspen haspen hhistorical
    simp only [hrecords.infos, Option.map_eq_some_iff] at hrecorded
    obtain ⟨executed, hexecuted, -⟩ := hrecorded .priceFeedChange
    obtain ⟨hsome, hheights⟩ := Option.filter_eq_some_iff.mp hexecuted
    refine ⟨executed, hsome, (of_decide_eq_true hheights).1, fun change => ?_⟩
    obtain ⟨executed', hexecuted', hinfo⟩ := hrecorded change
    obtain rfl := Option.some.inj (hexecuted.symm.trans hexecuted')
    exact hinfo.symm
  · intro hsame
    refine ⟨⟨hheight, fun aspen haspen hhistorical change => ?_, rfl⟩, rfl, rfl⟩
    obtain ⟨executed, hexecuted, hpos, hinfos⟩ := hsame aspen haspen hhistorical
    have hactivation : aspen.activationHeight = executed.activationHeight :=
      congrArg ChangeInfo.activationHeight (hinfos change)
    have huntil : handler.upgrades.executedUntil
        (node.storage.latestSnapshot.base.chain.blockHeight.getD 0) = some executed := by
      refine Option.filter_eq_some_iff.mpr ⟨hexecuted, decide_eq_true ⟨hpos, ?_⟩⟩
      exact hactivation ▸ Nat.le_of_lt_succ hhistorical
    rw [hrecords.infos, huntil, hinfos]
    rfl

end

section

open TestUtils TestProposal

namespace TestNode

/-- An upgrade at the first height. -/
def missedAspen : Aspen where
  activationHeight := 1
  appVersion := 2
  marketMapGenesis :=
    { marketMap := { markets := [] }, lastUpdated := 0, marketAuthorities := [], admin := bobAddress }
  oracleGenesis := { currencyPairGenesis := [], nextId := 0 }

set_option maxRecDepth 10000 in
/-- A node that has committed the first block without the upgrade does not start with it. -/
theorem sequencerInitialize_iff_committed :
    sequencerInitialize { aspen := some missedAspen } (commits processed).storage
        (commits processed).storage.latestSnapshot ≠
      .ok (.initialized (App.new (commits processed).storage)) (commits processed).storage.latestSnapshot := by
  intro hstarts
  have hheight : (commits processed).storage.nextHeight = 2 := by decide +kernel
  have hrun := commits_run processed_run (by decide +kernel)
  obtain ⟨executed, hexecuted, -⟩ := (NodeRun.sequencerInitialize_iff laws enablesLater hrun
    (by rw [hheight]; decide) { aspen := some missedAspen }).mp hstarts missedAspen rfl (by rw [hheight]; decide)
  cases hexecuted

end TestNode

end

end Astria.Sequencer
