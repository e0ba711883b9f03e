import Astria.Sequencer.Consensus

/-!
# The results of a block

CometBFT expects one result for every entry of a block's data.  The results of the items in front of the
transactions are counted again from the parsed block (`injected_transaction_count`), and those of the
transactions follow them.

Results:
* `newFromTypedData_items`: how the data of a parsed block is made up;
* `Finalizes.txResults`: the results that a finalized block returns;
* `resultsInPlace_iff`: there is one result for every entry, and that of a transaction is at its position,
  unless there is an item of upgrade change hashes that has none;
* `TestItems.emptyHashes_miscounted`: such an item is accepted and not counted.
-/

namespace Astria.Sequencer

open Astria.Core Astria.Lib Exec

section

variable [ext : External] [codec : BlockCodec]

/-! ## Specification -/

/-- The third entry of the data is an item of upgrade change hashes without any. -/
def EmptyUpgradeItem (data : List Bytes) : Prop :=
  ∃ bytes ∈ data[2]?, DataItem.decode 2 bytes = .ok (.upgradeChangeHashes [])

/-- There is one result for every entry of the data, and the result of a transaction is at the position of
its entry: behind those that are not transactions. -/
structure ResultsInPlace (data : List Bytes) (txs : List Transaction)
    (txResults results : List ExecTxResult) : Prop where
  length : results.length = data.length
  transactions : ∀ i tx, txs[i]? = some tx →
    (∃ bytes ∈ data[data.length - txs.length + i]?, codec.decodeTransaction bytes = some tx) ∧
      ∃ result, txResults[i]? = some result ∧
        results[data.length - txs.length + i]? = some result

/-! ## The data of a parsed block -/

namespace ExpandedBlockData

omit ext in
theorem parseTransactions_eq_ok {data : List Bytes} {txs : List Transaction}
    (h : parseTransactions data = .ok txs) :
    List.Forall₂ (fun bytes tx => codec.decodeTransaction bytes = some tx) data txs := by
  induction data generalizing txs with
  | nil =>
    obtain rfl := Except.ok.inj h
    exact List.Forall₂.nil
  | cons bytes rest ih =>
    unfold parseTransactions at h
    cases htx : codec.decodeTransaction bytes with
    | none =>
      rw [htx] at h
      cases h
    | some tx =>
      rw [htx] at h
      dsimp only at h
      cases hrest : parseTransactions rest with
      | error e =>
        rw [hrest] at h
        cases h
      | ok txs' =>
        rw [hrest] at h
        obtain rfl := Except.ok.inj h
        exact List.Forall₂.cons htx (ih hrest)

omit ext in
/-- What is taken for the upgrade change hashes, if it is one. -/
theorem takeUpgradeChangeHashes_items (data : List Bytes) :
    (∃ bytes hashes rest, data = bytes :: rest ∧
        DataItem.decode 2 bytes = .ok (.upgradeChangeHashes hashes) ∧
          takeUpgradeChangeHashes data = (hashes, 3, rest)) ∨
      (∀ bytes ∈ data.head?, ∀ hashes,
          DataItem.decode 2 bytes ≠ .ok (.upgradeChangeHashes hashes)) ∧
        takeUpgradeChangeHashes data = ([], 2, data) := by
  match data with
  | [] => exact Or.inr ⟨fun bytes hb => (nomatch hb), rfl⟩
  | bytes :: rest =>
    have hother : (∀ hashes, DataItem.decode 2 bytes ≠ .ok (.upgradeChangeHashes hashes)) →
        takeUpgradeChangeHashes (bytes :: rest) = ([], 2, bytes :: rest) := by
      intro hne
      simp only [takeUpgradeChangeHashes]
    by_cases hhashes : ∃ hashes, DataItem.decode 2 bytes = .ok (.upgradeChangeHashes hashes)
    · obtain ⟨hashes, hdecode⟩ := hhashes
      exact Or.inl ⟨bytes, hashes, rest, rfl, hdecode, by simp only [takeUpgradeChangeHashes, hdecode]⟩
    · have hne := not_exists.mp hhashes
      refine Or.inr ⟨?_, hother hne⟩
      intro bytes' hb
      obtain rfl : bytes = bytes' := Option.some.inj hb
      exact hne

omit ext in
theorem takeExtendedCommitInfo_items {index : ℕ} {data txBytes : List Bytes}
    {info : ExtendedCommitInfoWithMapping × Bytes}
    (h : takeExtendedCommitInfo index data = .ok (info, txBytes)) :
    ∃ bytes, data = bytes :: txBytes := by
  cases data with
  | nil => cases h
  | cons bytes rest =>
    obtain ⟨item, -, h⟩ := Codec.bind_eq_ok.mp h
    obtain ⟨encoded, -, h⟩ := Codec.bind_eq_ok.mp h
    cases hraw : codec.decodeInfo encoded with
    | none =>
      rw [hraw] at h
      cases h
    | some raw =>
      rw [hraw] at h
      dsimp only at h
      cases hinfo : ExtendedCommitInfoWithMapping.tryFromRaw raw with
      | error e =>
        rw [hinfo] at h
        cases h
      | ok parsed =>
        rw [hinfo] at h
        cases h
        exact ⟨bytes, rfl⟩

omit ext in
/-- Behind the upgrade change hashes stands the extended commit info, if it is expected. -/
theorem takeInjected_eq_ok {withInfo : Bool} {data : List Bytes} {hashes : List Bytes32}
    {info : Option (ExtendedCommitInfoWithMapping × Bytes)} {txBytes : List Bytes}
    (h : takeInjected withInfo data = .ok (hashes, info, txBytes)) :
    ∃ index rest, takeUpgradeChangeHashes data = (hashes, index, rest) ∧
      ∃ front : List Bytes, rest = front ++ txBytes ∧
        front.length = if info.isSome then 1 else 0 := by
  rcases hhashes : takeUpgradeChangeHashes data with ⟨hs, index, rest⟩
  unfold takeInjected at h
  rw [hhashes] at h
  dsimp only at h
  cases withInfo with
  | false =>
    cases h
    exact ⟨index, txBytes, rfl, [], rfl, rfl⟩
  | true =>
    rw [if_pos rfl] at h
    cases htake : takeExtendedCommitInfo index rest with
    | error e =>
      rw [htake] at h
      cases h
    | ok result =>
      rw [htake] at h
      cases h
      obtain ⟨bytes, hrest⟩ := takeExtendedCommitInfo_items htake
      exact ⟨index, rest, rfl, [bytes], hrest, rfl⟩

omit ext in
/-- The entries that `takeInjected` takes: upgrade change hashes if the next entry is one, and the extended
commit info if it is expected. -/
theorem takeInjected_items {withInfo : Bool} {data : List Bytes} {hashes : List Bytes32}
    {info : Option (ExtendedCommitInfoWithMapping × Bytes)} {txBytes : List Bytes}
    (h : takeInjected withInfo data = .ok (hashes, info, txBytes)) :
    ∃ upgrade front : List Bytes, data = upgrade ++ front ++ txBytes ∧
      front.length = (if info.isSome then 1 else 0) ∧
      ((∃ bytes, upgrade = [bytes] ∧ DataItem.decode 2 bytes = .ok (.upgradeChangeHashes hashes)) ∨
        upgrade = [] ∧ hashes = [] ∧
          ∀ bytes ∈ data.head?, ∀ hs, DataItem.decode 2 bytes ≠ .ok (.upgradeChangeHashes hs)) := by
  obtain ⟨index, rest, hhashes, front, hrest, hlength⟩ := takeInjected_eq_ok h
  rcases takeUpgradeChangeHashes_items data with
    ⟨bytes, hs, rest', rfl, hdecode, htake⟩ | ⟨hnone, htake⟩
  · cases hhashes.symm.trans htake
    refine ⟨[bytes], front, ?_, hlength, Or.inl ⟨bytes, rfl, hdecode⟩⟩
    rw [hrest]
    rfl
  · cases hhashes.symm.trans htake
    exact ⟨[], front, hrest, hlength, Or.inr ⟨rfl, rfl, hnone⟩⟩

/-- The data of a parsed block: the two roots, upgrade change hashes if the next entry is one, the extended
commit info if there is one, and the transactions. -/
theorem newFromTypedData_items {data : List Bytes} {withInfo : Bool} {expanded : ExpandedBlockData}
    (h : newFromTypedData data withInfo = .ok expanded) :
    ∃ roots upgrade front txBytes : List Bytes, data = roots ++ (upgrade ++ front) ++ txBytes ∧
      roots.length = 2 ∧ front.length = (if expanded.extendedCommitInfo.isSome then 1 else 0) ∧
      ((∃ bytes, upgrade = [bytes] ∧
          DataItem.decode 2 bytes = .ok (.upgradeChangeHashes expanded.upgradeChangeHashes)) ∨
        upgrade = [] ∧ expanded.upgradeChangeHashes = [] ∧
          ∀ bytes ∈ data[2]?, ∀ hs, DataItem.decode 2 bytes ≠ .ok (.upgradeChangeHashes hs)) ∧
      List.Forall₂ (fun bytes tx => codec.decodeTransaction bytes = some tx) txBytes
        expanded.userSubmittedTransactions := by
  unfold newFromTypedData at h
  match data with
  | [] => cases h
  | [first] =>
    obtain ⟨item, -, h⟩ := Codec.bind_eq_ok.mp h
    obtain ⟨root, -, h⟩ := Codec.bind_eq_ok.mp h
    cases h
  | first :: second :: rest =>
    obtain ⟨firstItem, -, h⟩ := Codec.bind_eq_ok.mp h
    obtain ⟨txsRoot, -, h⟩ := Codec.bind_eq_ok.mp h
    obtain ⟨secondItem, -, h⟩ := Codec.bind_eq_ok.mp h
    obtain ⟨idsRoot, -, h⟩ := Codec.bind_eq_ok.mp h
    obtain ⟨⟨hashes, info, txBytes⟩, hinjected, h⟩ := Codec.bind_eq_ok.mp h
    obtain ⟨txs, htxs, h⟩ := Codec.bind_eq_ok.mp h
    obtain rfl := Except.ok.inj h
    obtain ⟨upgrade, front, hrest, hlength, hupgrade⟩ := takeInjected_items hinjected
    refine ⟨[first, second], upgrade, front, txBytes, ?_, rfl, hlength, ?_,
      parseTransactions_eq_ok htxs⟩
    · rw [hrest]
      simp
    · rw [List.head?_eq_getElem?] at hupgrade
      exact hupgrade

/-- The injected items and the transactions are all entries, unless there is an item of upgrade change
hashes that has none. -/
theorem injectedTransactionCount_add_iff {data : List Bytes} {withInfo : Bool}
    {expanded : ExpandedBlockData} (h : newFromTypedData data withInfo = .ok expanded) :
    expanded.injectedTransactionCount + expanded.userSubmittedTransactions.length = data.length ↔
      ¬EmptyUpgradeItem data := by
  obtain ⟨roots, upgrade, front, txBytes, rfl, hroots, hfront, hupgrade, htxs⟩ :=
    newFromTypedData_items h
  unfold injectedTransactionCount
  rw [List.length_append, List.length_append, List.length_append, hroots, hfront, htxs.length_eq]
  rcases hupgrade with ⟨bytes, rfl, hdecode⟩ | ⟨rfl, hnone, hother⟩
  · have hthird : (roots ++ ([bytes] ++ front) ++ txBytes)[2]? = some bytes := by
      rw [List.append_assoc, List.getElem?_append_right (by omega), hroots]
      rfl
    have hiff : EmptyUpgradeItem (roots ++ ([bytes] ++ front) ++ txBytes) ↔
        expanded.upgradeChangeHashes = [] := by
      unfold EmptyUpgradeItem
      rw [hthird]
      constructor
      · rintro ⟨bytes', hb, hempty⟩
        obtain rfl : bytes = bytes' := Option.some.inj hb
        rw [hdecode] at hempty
        exact DataItem.upgradeChangeHashes.inj (Except.ok.inj hempty)
      · intro hempty
        rw [hempty] at hdecode
        exact ⟨bytes, rfl, hdecode⟩
    rw [hiff]
    split_ifs with hempty <;> simp [hempty]
  · rw [hnone, if_pos rfl, List.length_nil]
    refine iff_of_true (by omega) ?_
    rintro ⟨bytes, hb, hempty⟩
    exact hother bytes hb [] hempty

end ExpandedBlockData

/-! ## The results of a finalized block -/

omit codec in
theorem length_finalizeTransactions [TransactionCodec] (txs : List Transaction) (s : State) :
    (finalizeTransactions txs s).1.length = txs.length := by
  induction txs generalizing s with
  | nil => rfl
  | cons tx rest ih =>
    change (finalizeTransactions rest (finalizeTransaction tx s).2).1.length + 1 = rest.length + 1
    rw [ih]

/-- The results are in place if the injected items and the transactions are all entries. -/
theorem resultsInPlace_of_length {data : List Bytes} {withInfo : Bool} {expanded : ExpandedBlockData}
    (h : ExpandedBlockData.newFromTypedData data withInfo = .ok expanded)
    (hlength : expanded.injectedTransactionCount + expanded.userSubmittedTransactions.length =
      data.length)
    {txResults : List ExecTxResult}
    (hresults : txResults.length = expanded.userSubmittedTransactions.length) :
    ResultsInPlace data expanded.userSubmittedTransactions txResults
      (List.replicate expanded.injectedTransactionCount ({} : ExecTxResult) ++ txResults) := by
  constructor
  · rw [List.length_append, List.length_replicate]
    omega
  · intro i tx htx
    obtain ⟨roots, upgrade, front, txBytes, rfl, -, -, -, htxs⟩ :=
      ExpandedBlockData.newFromTypedData_items h
    have hi : i < expanded.userSubmittedTransactions.length := (List.getElem?_eq_some_iff.mp htx).1
    have htx' := (List.getElem?_eq_some_iff.mp htx).2
    have hbytes : i < txBytes.length := by
      have := htxs.length_eq
      omega
    rw [List.length_append] at hlength ⊢
    have hlength' := htxs.length_eq
    constructor
    · refine ⟨txBytes[i], ?_, ?_⟩
      · rw [List.getElem?_append_right (by omega)]
        rw [show (roots ++ (upgrade ++ front)).length + txBytes.length -
          expanded.userSubmittedTransactions.length + i - (roots ++ (upgrade ++ front)).length = i
          by omega]
        exact List.getElem?_eq_getElem hbytes
      · have hdecode := (List.forall₂_iff_get.mp htxs).2 i hbytes hi
        rw [← htx']
        exact hdecode
    · refine ⟨txResults[i], List.getElem?_eq_getElem _, ?_⟩
      rw [List.getElem?_append_right (by rw [List.length_replicate]; omega), List.length_replicate]
      rw [show (roots ++ (upgrade ++ front)).length + txBytes.length -
        expanded.userSubmittedTransactions.length + i - expanded.injectedTransactionCount = i
        by omega]
      exact List.getElem?_eq_getElem (hresults ▸ hi)

variable [UpgradeCodec] [TransactionCodec]

/-- The states on which the transactions of a block may run when it is finalized on a state: the prices of
the block are applied before or after. -/
def Block.RunsOn (handler : UpgradesHandler) (block : Block) (s t : State) : Prop :=
  ∃ appHash hashes r, (r = s ∨ AppliesPrices block s r) ∧
    preExecuteTransactions handler.upgrades appHash block.data r = .ok hashes t

variable {handler : UpgradesHandler} {block : Block} {result : PostTransactionExecutionResult}

theorem BlockExecution.txResults {appHash : Bytes32} {s s' : State}
    (h : BlockExecution handler appHash block s s')
    (hresult : s'.base.ephemeral.postTransactionExecutionResult = some result) :
    ∃ hashes t, preExecuteTransactions handler.upgrades appHash block.data s = .ok hashes t ∧
      result.txResults =
        List.replicate block.expanded.injectedTransactionCount ({} : ExecTxResult) ++
          (finalizeTransactions block.expanded.userSubmittedTransactions t).1 := by
  obtain ⟨hashes, t, u, hpre, -, hpost⟩ := h.parts
  obtain ⟨chainId, recipient, returned, b, c, -, -, -, hstore, rfl⟩ :=
    postExecuteTransactions_eq_ok.mp hpost
  obtain ⟨-, result', hresult', -, htxResults⟩ := storeBlock_result hstore
  obtain rfl : result' = result := Option.some.inj (hresult'.symm.trans hresult)
  exact ⟨hashes, t, hpre, htxResults⟩

/-- The results that a finalized block returns. -/
theorem Finalizes.txResults {s s' : State} (h : Finalizes handler block s result s') :
    ∃ t, block.RunsOn handler s t ∧ result.txResults =
      List.replicate block.expanded.injectedTransactionCount ({} : ExecTxResult) ++
        (finalizeTransactions block.expanded.userSubmittedTransactions t).1 := by
  cases h with
  | executed hprices hexec hresult =>
    obtain ⟨hashes, t, hpre, htxResults⟩ := hexec.txResults hresult
    exact ⟨t, ⟨_, hashes, _, Or.inr hprices, hpre⟩, htxResults⟩
  | proposed hexec hprices hresult =>
    rw [hprices.onlyRecords.result_eq] at hresult
    obtain ⟨hashes, t, hpre, htxResults⟩ := hexec.txResults hresult
    exact ⟨t, ⟨_, hashes, s, Or.inl rfl, hpre⟩, htxResults⟩

/-- The injected items that are counted and the transactions are all entries of the data of a block that
is parsed, and every finalized block with this data returns its results in place, exactly if there is no
item of upgrade change hashes without any. -/
theorem resultsInPlace_iff {data : List Bytes} {withInfo : Bool} {expanded : ExpandedBlockData}
    (h : ExpandedBlockData.newFromTypedData data withInfo = .ok expanded) :
    (expanded.injectedTransactionCount + expanded.userSubmittedTransactions.length = data.length ∧
      ∀ handler (block : Block) s result s', block.expanded = expanded →
        Finalizes handler block s result s' →
        ∃ t, block.RunsOn handler s t ∧ ResultsInPlace data expanded.userSubmittedTransactions
          (finalizeTransactions expanded.userSubmittedTransactions t).1 result.txResults) ↔
      ¬EmptyUpgradeItem data := by
  rw [← ExpandedBlockData.injectedTransactionCount_add_iff h]
  refine and_iff_left_of_imp ?_
  intro hlength handler block s result s' hblock hfinalizes
  obtain ⟨t, hruns, htxResults⟩ := hfinalizes.txResults
  refine ⟨t, hruns, ?_⟩
  rw [htxResults, hblock]
  exact resultsInPlace_of_length h hlength (length_finalizeTransactions _ t)

end

/-! ## An item without hashes -/

namespace TestItems

open TestUtils

/-- The hashes of an item of upgrade change hashes. -/
def readHashes (bytes : Bytes) : Option (List Bytes) := do
  let fields ← readFields bytes.length bytes
  fields.foldlM (fun (hashes : List Bytes) field =>
    match field with
    | (1, .bytes hash) => some (hashes ++ [hash])
    | (1, .number _) => none
    | _ => some hashes) []

/-- `DataItem::decode`: the last value counts. -/
def readDataItem (bytes : Bytes) : Option (Option RawDataItem) := do
  let fields ← readFields bytes.length bytes
  fields.foldlM (fun (item : Option RawDataItem) field =>
    match field with
    | (1, .bytes root) => some (some (.rollupTransactionsRoot root))
    | (2, .bytes root) => some (some (.rollupIdsRoot root))
    | (3, .bytes hashes) => (readHashes hashes).map fun hashes => some (.upgradeChangeHashes hashes)
    | (4, .bytes info) => some (some (.extendedCommitInfo info))
    | (1, .number _) | (2, .number _) | (3, .number _) | (4, .number _) => none
    | _ => some item) none

/-- A transfer of alice. -/
def sent : Transaction :=
  signedTransaction aliceKey 0 (.transfer
    { toAddress := bobAddress
      amount := 5
      asset := .tracePrefixed nria
      feeAsset := .tracePrefixed nria })

/-- The encoding of a commit info without votes. -/
def emptyInfo : Bytes := [10, 0]

scoped instance : BlockCodec :=
  { (inferInstance : BlockCodec) with
    decodeDataItem := readDataItem
    decodeTransaction := fun bytes => if bytes = encodeTransaction sent then some sent else none
    decodeInfo := fun bytes =>
      if bytes = emptyInfo then some { extendedCommitInfo := some [], idToCurrencyPair := [] } else none
    extendedCommitInfoFromRaw := fun bytes =>
      if bytes = [] then some { round := 0, votes := [] } else none }

/-- Data items with a commit info, or without one. -/
def hasInfo (items : List DataItem) : Bool :=
  items.any fun item => match item with
    | .extendedCommitInfo _ => true
    | _ => false

/-- The data of a block without rollup data: the two roots, the items and the transactions behind them. -/
def itemsOf (items : List DataItem) (txs : List Transaction) : List Bytes :=
  (generateRollupDatasCommitment txs []).items true ++ items.map DataItem.encode ++
    txs.map encodeTransaction

/-- The parsed data of that block. -/
def parsed (items : List DataItem) (txs : List Transaction) : Except Report ExpandedBlockData :=
  ExpandedBlockData.newFromTypedData (itemsOf items txs) (hasInfo items)

/-- The block with this data. -/
def itemsBlock (items : List DataItem) (txs : List Transaction) : Block :=
  match parsed items txs with
  | .ok expanded => { block 1 txs [] with expanded := expanded }
  | .error _ => block 1 txs []

variable {items : List DataItem} {txs : List Transaction}

theorem parsed_eq_ok (h : (parsed items txs).isOk = true) :
    parsed items txs = .ok (itemsBlock items txs).expanded := by
  unfold itemsBlock
  cases hparsed : parsed items txs with
  | error e =>
    rw [hparsed] at h
    cases h
  | ok expanded => rfl

/-- The execution of that block. -/
def itemsRun (items : List DataItem) (txs : List Transaction) : EStateM.Result Report State Unit :=
  executeBlock withoutUpgrades (List.Vector.replicate 32 0) (itemsBlock items txs) validatorsGenesis

/-- The block is finalized with some results, if it has no prices. -/
theorem itemsBlock_finalizes (hrun : Exec.isOk (itemsRun items txs) = true)
    (hprices : AppliesPrices (itemsBlock items txs) validatorsGenesis validatorsGenesis) :
    ∃ result s', Finalizes withoutUpgrades (itemsBlock items txs) validatorsGenesis result s' := by
  have hok : itemsRun items txs = .ok () (final (itemsRun items txs)) := eq_ok_of_isOk hrun
  have hexec : BlockExecution withoutUpgrades (List.Vector.replicate 32 0) (itemsBlock items txs)
      validatorsGenesis (final (itemsRun items txs)) := BlockExecution.of_executeBlock hok
  obtain ⟨hashes, t, u, -, -, hpost⟩ := hexec.parts
  obtain ⟨chainId, recipient, returned, b, c, -, -, -, hstore, heq⟩ :=
    postExecuteTransactions_eq_ok.mp hpost
  obtain ⟨-, result, hresult, -, -⟩ := storeBlock_result hstore
  have hresult' : (final (itemsRun items txs)).base.ephemeral.postTransactionExecutionResult =
      some result := by
    rw [heq]
    exact hresult
  exact ⟨result, ((final (itemsRun items txs)).putStorageVersionByHeight 1 1).commit,
    Finalizes.executed hprices hexec hresult'⟩

set_option maxRecDepth 10000 in
/-- A block with a commit info and a transfer, but without an item of upgrade change hashes, returns as many
results as it has entries. -/
theorem resultsInPlace_withoutHashes :
    ∃ expanded result s', parsed [.extendedCommitInfo emptyInfo] [sent] = .ok expanded ∧
      Finalizes withoutUpgrades (itemsBlock [.extendedCommitInfo emptyInfo] [sent]) validatorsGenesis
        result s' ∧
      result.txResults.length = 4 ∧ (itemsOf [.extendedCommitInfo emptyInfo] [sent]).length = 4 := by
  have hparsed : parsed [.extendedCommitInfo emptyInfo] [sent] =
      .ok (itemsBlock [.extendedCommitInfo emptyInfo] [sent]).expanded := parsed_eq_ok (by decide +kernel)
  have hprices : AppliesPrices (itemsBlock [.extendedCommitInfo emptyInfo] [sent]) validatorsGenesis
      validatorsGenesis := by
    have hinfo : (itemsBlock [.extendedCommitInfo emptyInfo] [sent]).expanded.extendedCommitInfo =
        some (.empty 0, emptyInfo) := by
      decide +kernel
    unfold AppliesPrices
    rw [hinfo]
    exact ⟨_, applyDelta_eq_ok.mpr ⟨(), _, rfl, rfl, rfl⟩⟩
  obtain ⟨result, s', hfinalizes⟩ := itemsBlock_finalizes (by decide +kernel) hprices
  have hitem : ¬EmptyUpgradeItem (itemsOf [.extendedCommitInfo emptyInfo] [sent]) := by
    rintro ⟨bytes, hb, hempty⟩
    obtain rfl := Option.some.inj hb
    revert hempty
    decide +kernel
  obtain ⟨-, hall⟩ := (resultsInPlace_iff hparsed).mpr hitem
  obtain ⟨t, -, hplace⟩ := hall _ _ _ result s' rfl hfinalizes
  exact ⟨_, result, s', hparsed, hfinalizes, hplace.length, rfl⟩

set_option maxRecDepth 10000 in
/-- A block with an item of upgrade change hashes without any is parsed and finalized, with one result less
than it has entries. -/
theorem emptyHashes_miscounted :
    ∃ expanded result s', parsed [.upgradeChangeHashes []] [] = .ok expanded ∧
      Finalizes withoutUpgrades (itemsBlock [.upgradeChangeHashes []] []) validatorsGenesis result s' ∧
        result.txResults.length = 2 ∧ (itemsOf [.upgradeChangeHashes []] []).length = 3 ∧
        expanded.injectedTransactionCount + expanded.userSubmittedTransactions.length ≠
          (itemsOf [.upgradeChangeHashes []] []).length := by
  have hparsed : parsed [.upgradeChangeHashes []] [] =
      .ok (itemsBlock [.upgradeChangeHashes []] []).expanded := parsed_eq_ok (by decide +kernel)
  have hprices : AppliesPrices (itemsBlock [.upgradeChangeHashes []] []) validatorsGenesis
      validatorsGenesis := by
    have hinfo : (itemsBlock [.upgradeChangeHashes []] []).expanded.extendedCommitInfo = none := by
      decide +kernel
    unfold AppliesPrices
    rw [hinfo]
  obtain ⟨result, s', hfinalizes⟩ := itemsBlock_finalizes (by decide +kernel) hprices
  obtain ⟨t, -, htxResults⟩ := hfinalizes.txResults
  have hinjected : (itemsBlock [.upgradeChangeHashes []] []).expanded.injectedTransactionCount = 2 := by
    decide +kernel
  have husers :
      (itemsBlock [.upgradeChangeHashes []] []).expanded.userSubmittedTransactions.length = 0 := by
    decide +kernel
  refine ⟨_, result, s', hparsed, hfinalizes, ?_, rfl, ?_⟩
  · rw [htxResults, List.length_append, List.length_replicate, length_finalizeTransactions, hinjected,
      husers]
  · rw [hinjected, husers]
    decide

end TestItems

end Astria.Sequencer
