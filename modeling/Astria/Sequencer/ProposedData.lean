import Astria.Sequencer.ExecutedBlock

/-!
# The data of a proposal

The items that `prepare_proposal` puts into a block, and what is parsed from them by the nodes that are
sent the block (`app/mod.rs`, lines 363–490, `sequencerblock/v1/block/mod.rs`, lines 1467–1674).

Results:
* `prepareProposal_parts`: the parts of a proposal, with the state at its end;
* `parseTransactions_encoded`, `takeUpgradeChangeHashes_encoded`: the items are read back;
* `expandBlockData_proposed`: what is parsed from a proposal is what it was made of;
* `prepareProposal_runs`: a node that has prepared a proposal has run the transactions that it parses.
-/

namespace Astria.Sequencer

open Astria.Core Astria.Lib Exec

section

variable [ext : External] [codec : TransactionCodec] [blocks : BlockCodec]

/-- What the sequencer relies on in the protobuf messages of data items: they are read back, and a
transaction is not taken for the hashes of an upgrade. -/
structure DataItem.Laws : Prop where
  roots : DataItem.EncodesRoots
  decodes : ∀ raw, (blocks.encodeDataItem raw).length ≤ u64Max →
    blocks.decodeDataItem (blocks.encodeDataItem raw) = some (some raw)
  transaction : ∀ tx hashes, Decodes tx →
    DataItem.decode 2 (codec.encodeTransaction tx) ≠ .ok (.upgradeChangeHashes hashes)

/-! ## Parsing -/

omit ext codec blocks in
theorem DataItem.ofRaw_toRaw (item : DataItem) : DataItem.ofRaw item.toRaw = some item := by
  have hhashes (hashes : List Bytes32) : (hashes.map (·.toList)).mapM toBytes32 = some hashes := by
    induction hashes with
    | nil => rfl
    | cons first rest ih => simp [ih]
  cases item with
  | rollupTransactionsRoot root => simp [DataItem.toRaw, DataItem.ofRaw]
  | rollupIdsRoot root => simp [DataItem.toRaw, DataItem.ofRaw]
  | upgradeChangeHashes hashes => simp [DataItem.toRaw, DataItem.ofRaw, hhashes]
  | extendedCommitInfo info => rfl

omit ext in
/-- A data item is read back. -/
theorem DataItem.Laws.decode_encode (hlaws : DataItem.Laws) (item : DataItem) (index : ℕ)
    (hsize : item.encode.length ≤ u64Max) : DataItem.decode index item.encode = .ok item := by
  have hraw : blocks.decodeDataItem item.encode = some (some item.toRaw) := hlaws.decodes item.toRaw hsize
  unfold DataItem.decode
  rw [hraw]
  dsimp only
  rw [DataItem.ofRaw_toRaw]

omit ext in
theorem parseTransactions_encoded {txs : List Transaction} (h : ∀ tx ∈ txs, Decodes tx) :
    ExpandedBlockData.parseTransactions (txs.map codec.encodeTransaction) = .ok txs := by
  induction txs with
  | nil => rfl
  | cons tx rest ih =>
    have hfirst : blocks.decodeTransaction (codec.encodeTransaction tx) = some tx :=
      h tx List.mem_cons_self
    rw [List.map_cons, ExpandedBlockData.parseTransactions, hfirst]
    dsimp only
    rw [ih fun tx' hmem => h tx' (List.mem_cons_of_mem tx hmem)]

omit ext codec in
/-- The third item is taken for the hashes of an upgrade only if it is one. -/
theorem takeUpgradeChangeHashes_of_ne {items : List Bytes}
    (h : ∀ first ∈ items.head?, ∀ hashes, DataItem.decode 2 first ≠ .ok (.upgradeChangeHashes hashes)) :
    ExpandedBlockData.takeUpgradeChangeHashes items = ([], 2, items) := by
  cases items with
  | nil => rfl
  | cons first rest =>
    rw [ExpandedBlockData.takeUpgradeChangeHashes]
    split
    case h_1 hashes hitem => exact absurd hitem (h first rfl hashes)
    case h_2 => rfl

omit ext in
/-- The hashes of an upgrade are read back, and what follows them is left. -/
theorem takeUpgradeChangeHashes_encoded (hlaws : DataItem.Laws) {hashes : List Bytes32}
    {info : Option Bytes} {txs : List Transaction}
    (hsize : ∀ item ∈ encodeUpgradeChangeHashes hashes, item.length ≤ u64Max)
    (hinfo : ∀ item ∈ info, ∃ bytes, item = (DataItem.extendedCommitInfo bytes).encode ∧
      item.length ≤ u64Max)
    (htxs : ∀ tx ∈ txs, Decodes tx) :
    ∃ index, ExpandedBlockData.takeUpgradeChangeHashes
        ((encodeUpgradeChangeHashes hashes).toList ++
          (info.toList ++ txs.map codec.encodeTransaction)) =
      (hashes, index, info.toList ++ txs.map codec.encodeTransaction) := by
  by_cases hempty : hashes = []
  · subst hempty
    refine ⟨2, takeUpgradeChangeHashes_of_ne fun first hfirst upgrade hdecode => ?_⟩
    cases info with
    | some item =>
      obtain rfl := Option.some.inj hfirst
      obtain ⟨bytes, rfl, hlength⟩ := hinfo item rfl
      rw [hlaws.decode_encode _ _ hlength] at hdecode
      cases hdecode
    | none =>
      cases txs with
      | nil => cases hfirst
      | cons tx rest =>
        obtain rfl := Option.some.inj hfirst
        exact hlaws.transaction tx upgrade (htxs tx List.mem_cons_self) hdecode
  · have hencoded : encodeUpgradeChangeHashes hashes =
        some (DataItem.upgradeChangeHashes hashes).encode := if_neg hempty
    rw [hencoded] at hsize ⊢
    have hdecode := hlaws.decode_encode (.upgradeChangeHashes hashes) 2 (hsize _ rfl)
    refine ⟨3, ?_⟩
    rw [Option.toList_some, List.singleton_append, ExpandedBlockData.takeUpgradeChangeHashes, hdecode]

/-- A typed block with the two roots is what its other items are parsed to. -/
theorem newFromTypedData_of_roots (hlaws : DataItem.Laws) (txsRoot idsRoot : Bytes32)
    (items : List Bytes) (withExtendedCommitInfo : Bool) :
    ExpandedBlockData.newFromTypedData ((DataItem.rollupTransactionsRoot txsRoot).encode ::
        (DataItem.rollupIdsRoot idsRoot).encode :: items) withExtendedCommitInfo = (do
      let (hashes, info, txBytes) ← ExpandedBlockData.takeInjected withExtendedCommitInfo items
      let txs ← ExpandedBlockData.parseTransactions txBytes
      .ok
        { dataRootHash := dataRoot
            ([ext.sha256 txsRoot.toList, ext.sha256 idsRoot.toList] ++
              (info.map fun i => ext.sha256 i.2).toList ++ txBytes.map ext.sha256)
          rollupTransactionsRoot := txsRoot
          rollupIdsRoot := idsRoot
          upgradeChangeHashes := hashes
          extendedCommitInfo := info
          userSubmittedTransactions := txs }) := by
  have hroot : (DataItem.rollupTransactionsRoot txsRoot).encode.length ≤ u64Max := by
    rw [(hlaws.roots txsRoot).1]
    decide
  have hids : (DataItem.rollupIdsRoot idsRoot).encode.length ≤ u64Max := by
    rw [(hlaws.roots idsRoot).2]
    decide
  dsimp only [ExpandedBlockData.newFromTypedData]
  rw [hlaws.decode_encode _ 0 hroot, hlaws.decode_encode _ 1 hids]
  rfl

/-- The extended commit info of an item, as it is parsed. -/
def parseExtendedCommitInfo (bytes : Bytes) : Except Report ExtendedCommitInfoWithMapping :=
  match blocks.decodeInfo bytes with
  | none => .error ["failed to decode extended commit info"]
  | some raw =>
    match ExtendedCommitInfoWithMapping.tryFromRaw raw with
    | .error e => .error ("failed to convert raw extended commit info to native" :: e)
    | .ok info => .ok info

omit ext in
theorem takeExtendedCommitInfo_encoded (hlaws : DataItem.Laws) (index : ℕ) {bytes : Bytes}
    (hsize : (DataItem.extendedCommitInfo bytes).encode.length ≤ u64Max) (items : List Bytes) :
    ExpandedBlockData.takeExtendedCommitInfo index ((DataItem.extendedCommitInfo bytes).encode :: items) =
      (parseExtendedCommitInfo bytes).map fun info => ((info, bytes), items) := by
  rw [ExpandedBlockData.takeExtendedCommitInfo, hlaws.decode_encode _ index hsize, parseExtendedCommitInfo]
  dsimp only [DataItem.intoExtendedCommitInfo, bind, Except.bind]
  cases blocks.decodeInfo bytes with
  | none => rfl
  | some raw =>
    dsimp only
    cases ExtendedCommitInfoWithMapping.tryFromRaw raw <;> rfl

/-- What a proposal with these parts is meant to be parsed to. -/
def proposedData (commitments : GeneratedCommitments) (hashes : List Bytes32)
    (info : Option (ExtendedCommitInfoWithMapping × Bytes)) (txs : List Transaction) :
    ExpandedBlockData :=
  { dataRootHash := dataRoot
      ([ext.sha256 commitments.rollupDatasRoot.toList, ext.sha256 commitments.rollupIdsRoot.toList] ++
        (info.map fun i => ext.sha256 i.2).toList ++
          (txs.map codec.encodeTransaction).map ext.sha256)
    rollupTransactionsRoot := commitments.rollupDatasRoot
    rollupIdsRoot := commitments.rollupIdsRoot
    upgradeChangeHashes := hashes
    extendedCommitInfo := info
    userSubmittedTransactions := txs }

/-- What is parsed from the info that a proposal carries, if it carries one. -/
def parseInfoIfAny : Option Bytes → Except Report (Option (ExtendedCommitInfoWithMapping × Bytes))
  | none => .ok none
  | some bytes => (parseExtendedCommitInfo bytes).map fun info => some (info, bytes)

/-- The item of an extended commit info, if there is one. -/
def infoItem (info : Option Bytes) : Option Bytes :=
  info.map fun bytes => (DataItem.extendedCommitInfo bytes).encode

/-- The data of a proposal is parsed to its parts; only the extended commit info may not be parsed. -/
theorem expandBlockData_proposed (hlaws : DataItem.Laws) {upgrades : Upgrades} {height : ℕ}
    {hashes : List Bytes32} {info : Option Bytes} {txs : List Transaction}
    (commitments : GeneratedCommitments)
    (huntyped : upgrades.usesDataItemEnum height = false → hashes = [] ∧ info = none)
    (hsize : ∀ item ∈ encodeUpgradeChangeHashes hashes, item.length ≤ u64Max)
    (hinfo : ∀ item ∈ infoItem info, item.length ≤ u64Max) (htxs : ∀ tx ∈ txs, Decodes tx) :
    App.expandBlockData upgrades height
        (commitments.items (upgrades.usesDataItemEnum height) ++
          ((encodeUpgradeChangeHashes hashes).toList ++
            ((infoItem info).toList ++ txs.map codec.encodeTransaction))) info.isSome =
      (parseInfoIfAny info).map fun parsed => proposedData commitments hashes parsed txs := by
  unfold App.expandBlockData
  cases htyped : upgrades.usesDataItemEnum height with
  | false =>
    obtain ⟨rfl, rfl⟩ := huntyped htyped
    rw [if_neg Bool.false_ne_true]
    change ExpandedBlockData.newFromUntypedData (commitments.rollupDatasRoot.toList ::
      commitments.rollupIdsRoot.toList :: txs.map codec.encodeTransaction) = _
    dsimp only [ExpandedBlockData.newFromUntypedData]
    rw [toBytes32_toList, toBytes32_toList, parseTransactions_encoded htxs]
    rfl
  | true =>
    rw [if_pos rfl]
    generalize hitems : (encodeUpgradeChangeHashes hashes).toList ++
      ((infoItem info).toList ++ txs.map codec.encodeTransaction) = items
    change ExpandedBlockData.newFromTypedData
      ((DataItem.rollupTransactionsRoot commitments.rollupDatasRoot).encode ::
        (DataItem.rollupIdsRoot commitments.rollupIdsRoot).encode :: items) _ = _
    rw [newFromTypedData_of_roots hlaws]
    have hencoded : ∀ item ∈ infoItem info, ∃ bytes,
        item = (DataItem.extendedCommitInfo bytes).encode ∧ item.length ≤ u64Max := by
      intro item hitem
      obtain ⟨bytes, rfl, rfl⟩ := Option.mem_map.mp hitem
      exact ⟨bytes, rfl, hinfo _ hitem⟩
    obtain ⟨index, htake⟩ := takeUpgradeChangeHashes_encoded hlaws hsize hencoded htxs
    rw [hitems] at htake
    unfold ExpandedBlockData.takeInjected
    rw [htake]
    cases info with
    | none =>
      change (do
        let txs ← ExpandedBlockData.parseTransactions (txs.map codec.encodeTransaction)
        _ : Except Report ExpandedBlockData) = _
      rw [parseTransactions_encoded htxs]
      rfl
    | some bytes =>
      have hlength := hinfo _ (Option.mem_map.mpr ⟨bytes, rfl, rfl⟩)
      have hparse := takeExtendedCommitInfo_encoded hlaws index hlength
        (txs.map codec.encodeTransaction)
      dsimp only [infoItem, Option.map_some, Option.toList_some, List.singleton_append,
        Option.isSome_some]
      rw [hparse]
      unfold parseInfoIfAny
      dsimp only
      cases parseExtendedCommitInfo bytes with
      | error e => rfl
      | ok parsed =>
        change (do
          let txs ← ExpandedBlockData.parseTransactions (txs.map codec.encodeTransaction)
          _ : Except Report ExpandedBlockData) = _
        rw [parseTransactions_encoded htxs]
        rfl

/-! ## The parts of a proposal -/

omit ext codec blocks in
/-- What is added to a block fits into a message. -/
theorem BlockSizeConstraints.Grows.le_u64Max {bytes size : ℕ} {c c' : BlockSizeConstraints}
    (h : BlockSizeConstraints.Grows bytes size c c') : size ≤ u64Max := by
  have hsize := h.currentSizeCometbft
  have hle := c'.cometbft_le
  have hmax := c'.maxSizeCometbft_le
  omega

section

variable [VoteCrypto]

/-- What `prepare_proposal` injects of the votes: their extended commit info, or nothing where there is no
space for it. -/
def Injects (completion : Completion) (request : PrepareProposal) (s : State) (info : Option Bytes) :
    Prop :=
  info.isSome = s.base.voteExtensionsEnabled request.blockData.height ∧
    ∀ bytes ∈ info, ∃ lastCommit, request.localLastCommit = some lastCommit ∧
      (bytes = [] ∨
        bytes = (proposedExtendedCommitInfo completion request.blockData.height lastCommit s).encode)

omit codec in
theorem injectExtendedCommitInfo_parts {completion : Completion} {request : PrepareProposal}
    {item : Option Bytes} {c c' : BlockSizeConstraints} {s s' : State}
    (h : injectExtendedCommitInfo completion request c s = .ok (item, c') s') :
    s' = s ∧ ∃ info, item = infoItem info ∧ Injects completion request s info ∧
      ∀ bytes ∈ item, bytes.length ≤ u64Max := by
  obtain ⟨hgrows, hsame⟩ := grows_injectExtendedCommitInfo h
  refine ⟨hsame, ?_⟩
  have hsize : ∀ bytes ∈ item, bytes.length ≤ u64Max := by
    intro bytes hbytes
    obtain rfl := Option.mem_def.mp hbytes
    have hle := hgrows.le_u64Max
    simpa [itemBytes] using hle
  simp only [injectExtendedCommitInfo, bind_eq_ok, onBase_eq_ok, reads_eq_ok] at h
  obtain ⟨enabled, _, ⟨_, ⟨rfl, rfl⟩, rfl⟩, h⟩ := h
  cases henabled : s.base.voteExtensionsEnabled request.blockData.height with
  | false =>
    rw [henabled] at h
    obtain ⟨hnone, -⟩ := pure_eq_ok.mp h
    obtain ⟨rfl, -⟩ := Prod.mk.inj hnone
    exact ⟨none, rfl, ⟨henabled.symm, fun _ hb => by cases hb⟩, hsize⟩
  | true =>
    rw [henabled] at h
    simp only [if_true, bind_eq_ok, require_eq_ok, reads_eq_ok, lift_eq_ok, pure_eq_ok] at h
    obtain ⟨lastCommit, _, ⟨hlast, rfl⟩, info, _, ⟨rfl, rfl⟩, ⟨bytes, c₁⟩, _, ⟨hadd, rfl⟩, hitem, -⟩ := h
    obtain ⟨rfl, -⟩ := Prod.mk.inj hitem
    unfold addExtendedCommitInfo at hadd
    dsimp only at hadd
    split at hadd
    case h_1 c₂ hfits =>
      obtain ⟨rfl, -⟩ := Prod.mk.inj (Except.ok.inj hadd)
      refine ⟨some _, rfl, ⟨henabled.symm, fun b hb => ⟨lastCommit, hlast, Or.inr ?_⟩⟩, hsize⟩
      exact (Option.some.inj hb).symm
    case h_2 e hfull =>
      split at hadd
      case h_1 c₂ hfits =>
        obtain ⟨rfl, -⟩ := Prod.mk.inj (Except.ok.inj hadd)
        refine ⟨some [], rfl, ⟨henabled.symm, fun b hb => ⟨lastCommit, hlast, Or.inl ?_⟩⟩, hsize⟩
        exact (Option.some.inj hb).symm
      case h_2 => cases hadd

end

omit blocks in
/-- What is included of a list of transactions is of the list. -/
theorem executeAll_included {parkedMaxTxCount : ℕ} {txs : List Transaction}
    {info info' : Proposal parkedMaxTxCount} {p : PrepareInfo parkedMaxTxCount} {s s' : State}
    (hp : info.prepare = some p) (h : info.executeAll txs s = .ok info' s') :
    ∃ p', info'.prepare = some p' ∧
      ∀ tx ∈ p'.includedSignedTxs, tx ∈ p.includedSignedTxs ∨ tx ∈ txs := by
  induction txs generalizing info p s with
  | nil =>
    obtain ⟨rfl, -⟩ := pure_eq_ok.mp h
    exact ⟨p, hp, fun _ hmem => Or.inl hmem⟩
  | cons tx rest ih =>
    have hstep : ∀ {flow : BreakOrContinue} {info₁ : Proposal parkedMaxTxCount}
        {p₁ : PrepareInfo parkedMaxTxCount} {t : State},
        info.checksAndTxExecution tx s = .ok (flow, info₁) t → info₁.prepare = some p₁ →
        (∀ tx' ∈ p₁.includedSignedTxs, tx' ∈ p.includedSignedTxs ∨ tx' = tx) →
        ∃ p', info'.prepare = some p' ∧
          ∀ tx' ∈ p'.includedSignedTxs, tx' ∈ p.includedSignedTxs ∨ tx' ∈ tx :: rest := by
      intro flow info₁ p₁ t hrun hp₁ hmem
      rw [Proposal.executeAll, bind_of_ok hrun] at h
      have hcons : ∀ tx', tx' ∈ p.includedSignedTxs ∨ tx' = tx →
          tx' ∈ p.includedSignedTxs ∨ tx' ∈ tx :: rest := by
        rintro tx' (hin | rfl)
        · exact Or.inl hin
        · exact Or.inr List.mem_cons_self
      cases flow with
      | «break» =>
        obtain ⟨rfl, -⟩ := pure_eq_ok.mp h
        exact ⟨p₁, hp₁, fun tx' hin => hcons tx' (hmem tx' hin)⟩
      | «continue» =>
        obtain ⟨p', hp', hall⟩ := ih hp₁ h
        refine ⟨p', hp', fun tx' hin => ?_⟩
        rcases hall tx' hin with hin | hin
        · exact hcons tx' (hmem tx' hin)
        · exact Or.inr (List.mem_cons_of_mem tx hin)
    rcases Proposal.checksAndTxExecution_prepare tx hp s with ⟨-, hrun⟩ | ⟨-, hrun⟩ |
      ⟨-, e, -, hrun⟩ | ⟨-, events, t, c, -, -, hrun⟩
    · exact hstep hrun rfl fun _ hin => Or.inl hin
    · exact hstep hrun rfl fun _ hin => Or.inl hin
    · refine hstep hrun rfl fun tx' hin => Or.inl ?_
      rwa [(p.executionFailed_included tx e).2] at hin
    · have hpushed : (info.counted tx { events := events } c).prepare = some (p.push tx) := by
        rw [Proposal.counted, hp, Option.map_some]
      exact hstep hrun hpushed fun tx' hin => (List.mem_append.mp hin).imp id List.mem_singleton.mp

section

variable [VoteCrypto] [UpgradeCodec] {parkedMaxTxCount : ℕ} {handler : UpgradesHandler}
  {appHash : Bytes32} {completion : Completion} {sort : SortUnstable}
  {mempool : Mempool parkedMaxTxCount} {request : PrepareProposal}
  {proposal : PreparedProposal parkedMaxTxCount} {s s' : State}

omit codec blocks [VoteCrypto] in
/-- Before the upgrade there are no hashes of its changes. -/
theorem preExecuteTransactions_untyped {upgrades : Upgrades} {block : BlockData} {hashes : List Bytes32}
    (huntyped : upgrades.usesDataItemEnum block.height = false)
    (h : preExecuteTransactions upgrades appHash block s = .ok hashes s') : hashes = [] := by
  have hdue : upgrades.upgradeActivatingAtHeight block.height = none := by
    by_contra hsome
    obtain ⟨aspen, hactivates⟩ := Option.ne_none_iff_exists'.mp hsome
    obtain ⟨haspen, hheight⟩ := Upgrades.upgradeActivatingAtHeight_eq_some.mp hactivates
    unfold Upgrades.usesDataItemEnum at huntyped
    rw [haspen] at huntyped
    exact of_decide_eq_false huntyped hheight.le
  have hnone : executeUpgradeIfDue upgrades block.height = pure [] := by
    unfold executeUpgradeIfDue
    rw [hdue]
  simp only [preExecuteTransactions, hnone, bind_eq_ok, mapErr_eq_ok, pure_eq_ok] at h
  obtain ⟨⟨hashes', events⟩, t, happly, -, -, -, -, -, -, rfl, -⟩ := h
  exact (Prod.mk.inj (EStateM.Result.ok.inj happly).1).1.symm

omit [UpgradeCodec] [VoteCrypto] blocks in
/-- The checks of `process_proposal` stop no transaction of a block that was filled within the limits. -/
theorem Fills.processProposalTxExecution_eq {maxTxBytes : Int64} {usesDataItemEnum : Bool}
    {c start : BlockSizeConstraints} {injected : ℕ} {filled : Proposal parkedMaxTxCount}
    {p : PrepareInfo parkedMaxTxCount} (h : Fills start s filled p s')
    (hnew : BlockSizeConstraints.new maxTxBytes usesDataItemEnum = .ok c)
    (hgrows : BlockSizeConstraints.Grows (0 + 0) injected c start) :
    processProposalTxExecution p.includedSignedTxs .newUnlimitedCometbft =
      executeTransactions p.includedSignedTxs := by
  obtain ⟨hmax, hzero, hcommitments⟩ := new_eq_ok hnew
  have htotal := hgrows.trans h.grows
  have hbytes : rollupDataBytes p.includedSignedTxs ≤ maxSequenceDataBytesPerBlock := by
    have hsequencer := filled.blockSizeConstraints.sequencer_le
    rw [htotal.currentSizeSequencer, filled.blockSizeConstraints.maxSizeSequencer_eq] at hsequencer
    omega
  have hsize : GeneratedCommitments.totalSize true + encodedBytes p.includedSignedTxs ≤ u64Max := by
    have hlimit : (filled.blockSizeConstraints.maxSizeCometbft : ℤ) = maxTxBytes.toInt := by
      rw [htotal.maxSizeCometbft, hmax]
    have hcometbft := filled.blockSizeConstraints.cometbft_le
    have hmaxTxBytes := maxTxBytes.toInt_lt
    have hcurrent := htotal.currentSizeCometbft
    have hreserved : GeneratedCommitments.totalSize true = 68 := rfl
    unfold u64Max
    omega
  exact Sequencer.processProposalTxExecution_eq hbytes hsize h.groups

/-- The parts of a proposal, with the state at its end: the results of the transactions are cached on the
state that they lead to. -/
theorem prepareProposal_parts
    (h : prepareProposal handler appHash completion sort mempool request s = .ok proposal s') :
    ∃ (hashes : List Bytes32) (t : State) (info : Option Bytes) (start : BlockSizeConstraints)
        (filled : Proposal parkedMaxTxCount) (p : PrepareInfo parkedMaxTxCount)
        (results : List ExecTxResult) (t' : State),
      preExecuteTransactions handler.upgrades appHash request.blockData s = .ok hashes t ∧
      (∀ item ∈ encodeUpgradeChangeHashes hashes, item.length ≤ u64Max) ∧
      Injects completion request t info ∧ (∀ item ∈ infoItem info, item.length ≤ u64Max) ∧
      Fills start t filled p t' ∧ filled.executionResults = results ∧
      (∀ tx ∈ p.includedSignedTxs, ∃ entry ∈ PendingTransactions.builderQueue sort mempool.pending,
        entry.2 = tx) ∧
      processProposalTxExecution p.includedSignedTxs .newUnlimitedCometbft =
        executeTransactions p.includedSignedTxs ∧
      proposal.txs = (generateRollupDatasCommitment p.includedSignedTxs t'.base.ephemeral.deposits).items
        (handler.upgrades.usesDataItemEnum request.blockData.height) ++
          ((encodeUpgradeChangeHashes hashes).toList ++
            ((infoItem info).toList ++ p.includedSignedTxs.map codec.encodeTransaction)) ∧
      s' = t'.putExecutionResults results := by
  simp only [prepareProposal, bind_eq_ok, mapErr_eq_ok, lift_eq_ok, reads_eq_ok, pure_eq_ok] at h
  obtain ⟨hashes, _, hpre, c₀, _, ⟨hnew, rfl⟩, c₁, t, ⟨hupgrade, rfl⟩, ⟨item, c₂⟩, _, hinject, p,
    _, hexec, deposits, _, ⟨rfl, rfl⟩, rfl, rfl⟩ := h
  have hgrows := (grows_addUpgradeChangeHashes hupgrade).trans (grows_injectExtendedCommitInfo hinject).1
  obtain ⟨rfl, info, rfl, hinjects, hinfo⟩ := injectExtendedCommitInfo_parts hinject
  obtain ⟨filled, p', t', hrun, hfills⟩ := prepareProposalTxExecution_fills sort mempool c₂ _
  rw [hrun] at hexec
  obtain ⟨rfl, rfl⟩ := EStateM.Result.ok.inj hexec
  have hhashes : ∀ item ∈ encodeUpgradeChangeHashes hashes, item.length ≤ u64Max := by
    intro bytes hbytes
    have hle := (grows_addUpgradeChangeHashes hupgrade).le_u64Max
    rw [Option.mem_def.mp hbytes] at hle
    simpa [itemBytes] using hle
  have hincluded : ∀ tx ∈ p'.includedSignedTxs,
      ∃ entry ∈ PendingTransactions.builderQueue sort mempool.pending, entry.2 = tx := by
    simp only [prepareProposalTxExecution, bind_eq_ok, require_eq_ok, writes_eq_ok, pure_eq_ok] at hrun
    obtain ⟨info', q, hall, p'', _, ⟨hp'', rfl⟩, -, -, -, rfl, -⟩ := hrun
    obtain ⟨p₁, hp₁, hmem⟩ := executeAll_included (p := _) rfl hall
    obtain rfl := Option.some.inj (hp₁.symm.trans hp'')
    intro tx htx
    rcases hmem tx htx with hin | hin
    · cases hin
    · exact List.mem_map.mp hin
  refine ⟨hashes, _, info, c₂, filled, p', _, t', hpre, hhashes, hinjects, hinfo, hfills, rfl, hincluded,
    hfills.processProposalTxExecution_eq hnew hgrows, ?_, rfl⟩
  rw [hfills.validated, List.append_assoc, List.append_assoc]

/-- What the data of a proposal is parsed to: only its extended commit info may fail. -/
theorem prepareProposal_expands (hlaws : DataItem.Laws)
    (htyped : s.base.voteExtensionsEnabled request.blockData.height = true →
      handler.upgrades.usesDataItemEnum request.blockData.height = true)
    (hdecodes : ∀ entry ∈ PendingTransactions.builderQueue sort mempool.pending, Decodes entry.2)
    (h : prepareProposal handler appHash completion sort mempool request s = .ok proposal s') :
    ∃ hashes t info included results t',
      preExecuteTransactions handler.upgrades appHash request.blockData s = .ok hashes t ∧
      Injects completion request t info ∧ executeTransactions included t = .ok results t' ∧
      processProposalTxExecution included .newUnlimitedCometbft = executeTransactions included ∧
      s' = t'.putExecutionResults results ∧
      App.expandBlockData handler.upgrades request.blockData.height proposal.txs
          (s.base.voteExtensionsEnabled request.blockData.height) =
        (parseInfoIfAny info).map fun parsed => proposedData
          (generateRollupDatasCommitment included t'.base.ephemeral.deposits) hashes parsed included := by
  obtain ⟨hashes, t, info, start, filled, p, results, t', hpre, hhashes, hinjects, hinfo, hfills,
    rfl, hincluded, hunchecked, htxs, rfl⟩ := prepareProposal_parts h
  refine ⟨hashes, t, info, p.includedSignedTxs, _, t', hpre, hinjects, hfills.executes, hunchecked, rfl, ?_⟩
  have henabled := ((preExecuteTransactions_sameResults handler.upgrades appHash request.blockData).of_ok
    hpre).enabled request.blockData.height
  have hsome : info.isSome = s.base.voteExtensionsEnabled request.blockData.height :=
    hinjects.1.trans henabled
  have huntyped : handler.upgrades.usesDataItemEnum request.blockData.height = false →
      hashes = [] ∧ info = none := by
    intro hfalse
    refine ⟨preExecuteTransactions_untyped hfalse hpre, Option.not_isSome_iff_eq_none.mp fun hinfo => ?_⟩
    rw [htyped (hsome.symm.trans hinfo)] at hfalse
    cases hfalse
  have hall : ∀ tx ∈ p.includedSignedTxs, Decodes tx := by
    intro tx htx
    obtain ⟨entry, hentry, rfl⟩ := hincluded tx htx
    exact hdecodes entry hentry
  rw [htxs, ← hsome]
  exact expandBlockData_proposed hlaws _ huntyped hhashes hinfo hall

/-- A node that has prepared a proposal has run the transactions that are parsed from it. -/
theorem prepareProposal_runs (hlaws : DataItem.Laws)
    (htyped : s.base.voteExtensionsEnabled request.blockData.height = true →
      handler.upgrades.usesDataItemEnum request.blockData.height = true)
    (hdecodes : ∀ entry ∈ PendingTransactions.builderQueue sort mempool.pending, Decodes entry.2)
    (h : prepareProposal handler appHash completion sort mempool request s = .ok proposal s') :
    s.SameResults s' ∧ ∃ results t, s' = t.putExecutionResults results ∧
      ∀ expanded, App.expandBlockData handler.upgrades request.blockData.height proposal.txs
          (s.base.voteExtensionsEnabled request.blockData.height) = .ok expanded →
        RunsTransactions handler appHash request.blockData expanded s results t := by
  obtain ⟨hashes, t, info, included, results, t', hpre, -, hexec, -, rfl, hexpands⟩ :=
    prepareProposal_expands hlaws htyped hdecodes h
  have hrun := finalizeTransactions_of_executeTransactions hexec
  have hstart : s.SameResults t :=
    (preExecuteTransactions_sameResults handler.upgrades appHash request.blockData).of_ok hpre
  have htransactions : t.SameResults t' := by
    have hsame := finalizeTransactions_sameResults included t
    rwa [hrun] at hsame
  have hcached : t'.SameResults (t'.putExecutionResults results) := ⟨rfl, rfl, rfl⟩
  refine ⟨trans_of State.SameResults (trans_of State.SameResults hstart htransactions) hcached, results,
    t', rfl, fun expanded hexpand => ⟨t, ?_⟩⟩
  rw [hexpands] at hexpand
  cases hparsed : parseInfoIfAny info with
  | error e =>
    rw [hparsed] at hexpand
    cases hexpand
  | ok parsed =>
    rw [hparsed] at hexpand
    obtain rfl := Except.ok.inj hexpand
    exact ⟨hpre, hrun⟩

end

end

end Astria.Sequencer
