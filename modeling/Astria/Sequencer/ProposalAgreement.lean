import Astria.Sequencer.SkipExecution
import Astria.Sequencer.ValidatorCount

/-!
# Verdicts on a prepared proposal

What a node prepares as a proposal is sent to all nodes, and to itself.  The node that has prepared it does
not execute it again, and the others validate and execute it on their snapshots (`app/mod.rs`, lines
363–681).

Results:
* `executeProposal_prepared`: a validator on the same snapshot stops at no check of a proposal, and comes to
  the results and the state of the proposer;
* `processProposal_prepared`: so the verdict on a proposal is the same on all nodes, and is that of the
  execution of the block on the snapshot.
-/

namespace Astria.Sequencer

open Astria.Core Astria.Lib Exec

section

variable [ext : External] [UpgradeCodec] [codec : TransactionCodec] [blocks : BlockCodec]
  [crypto : VoteCrypto] {parkedMaxTxCount : ℕ} {handler : UpgradesHandler} {appHash : Bytes32}
  {completion : Completion} {sort : SortUnstable} {mempool : Mempool parkedMaxTxCount}
  {request : PrepareProposal} {proposal : PreparedProposal parkedMaxTxCount} {s s' : State}

/-- The proposal as CometBFT sends it to the nodes, with the hash of its block. -/
def PrepareProposal.processed (request : PrepareProposal) (blockHash : BlockHash) (txs : List Bytes) :
    ProcessProposal :=
  { hash := some blockHash
    txs := txs
    proposedLastCommit := request.localLastCommit.map ExtendedCommitInfo.commitInfo
    blockData := request.blockData }

/-- The codecs give back the messages of an extended commit info. -/
structure ExtendedCommitInfoWithMapping.ReadsBack (info : ExtendedCommitInfoWithMapping) : Prop where
  message : blocks.decodeInfo info.encode = some info.intoRaw
  commit : blocks.extendedCommitInfoFromRaw (blocks.extendedCommitInfoToRaw info.extendedCommitInfo) =
    some info.extendedCommitInfo

omit ext [UpgradeCodec] codec blocks crypto in
/-- The raw form of a mapping is converted back. -/
theorem convertMapping_map (mapping mapping' : CurrencyPairMapping)
    (hnodup : (mapping.map Prod.fst).Nodup)
    (hnew : ∀ id ∈ mapping.map Prod.fst, ∀ entry ∈ mapping', entry.1 ≠ id) :
    convertMapping (mapping.map fun entry =>
        { id := entry.1
          currencyPair := some (entry.2.currencyPair.base, entry.2.currencyPair.quote)
          decimals := entry.2.decimals.toNat }) mapping' =
      .ok (mapping' ++ mapping) := by
  induction mapping generalizing mapping' with
  | nil => simp [convertMapping]
  | cons entry rest ih =>
    obtain ⟨id, info⟩ := entry
    obtain ⟨hid, hrest⟩ := List.nodup_cons.mp hnodup
    have hdecimals : info.decimals.toNat ≤ 255 := Nat.le_of_lt_succ info.decimals.toNat_lt
    have hconvert : RawIdWithCurrencyPair.convert
        { id := id
          currencyPair := some (info.currencyPair.base, info.currencyPair.quote)
          decimals := info.decimals.toNat } = .ok (id, info) := by
      simp [RawIdWithCurrencyPair.convert, hdecimals]
    rw [List.map_cons, convertMapping, hconvert]
    dsimp only
    rw [CurrencyPairMapping.insert_of_new (hnew id List.mem_cons_self), ih _ hrest]
    · simp
    · intro id' hid' entry hentry
      rcases List.mem_append.mp hentry with hold | hlast
      · exact hnew id' (List.mem_cons_of_mem _ hid') entry hold
      · rw [List.mem_singleton.mp hlast]
        exact fun heq => hid (heq ▸ hid')

omit ext [UpgradeCodec] codec crypto in
/-- So an extended commit info with distinct ids is parsed back. -/
theorem parseExtendedCommitInfo_encode {info : ExtendedCommitInfoWithMapping} (hreads : info.ReadsBack)
    (hnodup : (info.idToCurrencyPair.map Prod.fst).Nodup) :
    parseExtendedCommitInfo info.encode = .ok info := by
  have hmapping := convertMapping_map info.idToCurrencyPair [] hnodup (by simp)
  unfold parseExtendedCommitInfo
  rw [hreads.message]
  simp [ExtendedCommitInfoWithMapping.tryFromRaw, ExtendedCommitInfoWithMapping.intoRaw, hreads.commit,
    hmapping]

omit [UpgradeCodec] codec in
/-- The ids of the mapping that is proposed are distinct. -/
theorem proposedExtendedCommitInfo_nodup (hdecode : blocks.decodeOracleVoteExtension [] = some [])
    (height : ℕ) (lastCommit : ExtendedCommitInfo) (t : State) :
    ((proposedExtendedCommitInfo completion height lastCommit t).idToCurrencyPair.map
      Prod.fst).Nodup := by
  unfold proposedExtendedCommitInfo
  by_cases hheight : height = 1
  · rw [prepareExtendedCommitInfo, if_pos hheight]
    exact List.nodup_nil
  cases hprepare : prepareExtendedCommitInfo completion height lastCommit t with
  | error e t' => exact List.nodup_nil
  | ok result t' =>
    obtain ⟨votes, ids, b, q, mapping, rfl, -, -, hids, -, hmapping⟩ :=
      prepareExtendedCommitInfo_ok hdecode hheight hprepare
    have hnodup : (completion.order ids).Nodup := (completion.perm ids).nodup_iff.mpr hids
    simp only [getIdToCurrencyPair, bind_eq_ok, reads_eq_ok, require_eq_ok, tryReads_eq_ok, and_assoc,
      exists_and_left, exists_eq_left] at hmapping
    obtain ⟨marketMap, -, hcollect, -⟩ := hmapping
    rw [collectCurrencyPairs_eq_ok [] hnodup (by simp)] at hcollect
    obtain ⟨-, rfl⟩ := hcollect
    rw [List.nil_append]
    exact (keys_filterMap_mappingEntry marketMap t.oracle _).nodup hnodup

/-- The extended commit info that is proposed is read back. -/
def PrepareProposal.ReadsBack (completion : Completion) (request : PrepareProposal) : Prop :=
  ∀ lastCommit t, request.localLastCommit = some lastCommit →
    (proposedExtendedCommitInfo completion request.blockData.height lastCommit t).ReadsBack

omit ext [UpgradeCodec] codec crypto in
/-- Where no space was left for the votes, no node parses the proposal. -/
theorem parseExtendedCommitInfo_nil
    (hnothing : blocks.decodeInfo [] = some { extendedCommitInfo := none, idToCurrencyPair := [] }) :
    parseExtendedCommitInfo [] =
      .error ["failed to convert raw extended commit info to native",
        "field not set: extended_commit_info"] := by
  unfold parseExtendedCommitInfo
  rw [hnothing]
  rfl

omit codec in
/-- A validator accepts the extended commit info that the proposer has put into the block. -/
theorem validateProposal_prepared (hdecode : blocks.decodeOracleVoteExtension [] = some [])
    (hnothing : blocks.decodeInfo [] = some { extendedCommitInfo := none, idToCurrencyPair := [] })
    (hreads : request.ReadsBack completion) (henables : s.base.EnablesSince handler.upgrades)
    {hashes : List Bytes32} {t : State} {info : Option Bytes}
    (hpre : preExecuteTransactions handler.upgrades appHash request.blockData s = .ok hashes t)
    (hinjects : Injects completion request t info)
    {parsed : Option (ExtendedCommitInfoWithMapping × Bytes)} (hparsed : parseInfoIfAny info = .ok parsed)
    {expanded : ExpandedBlockData} (hexpanded : expanded.extendedCommitInfo = parsed)
    (completion' : Completion) (blockHash : BlockHash) (txs : List Bytes) :
    App.validateProposal completion' (request.processed blockHash txs) expanded s = .ok () s := by
  obtain ⟨hsome, hall⟩ := hinjects
  unfold App.validateProposal
  cases info with
  | none =>
    obtain rfl := Except.ok.inj hparsed
    rw [hexpanded]
    rfl
  | some bytes =>
    obtain ⟨lastCommit, hlast, hbytes⟩ := hall bytes rfl
    -- vote extensions are enabled, so the upgrade is over
    have henabled : s.base.voteExtensionsEnabled request.blockData.height = true := by
      rw [← ((preExecuteTransactions_sameResults handler.upgrades appHash request.blockData).of_ok
        hpre).enabled request.blockData.height]
      exact hsome.symm
    have hdue := henables.upgradeActivatingAtHeight henabled
    obtain ⟨hcovers, horacle⟩ := preExecuteTransactions_covers hdue hpre
    have haccepted := proposal_accepted hdecode hcovers horacle request.blockData.height completion
      completion' lastCommit
    have hinfo : parseExtendedCommitInfo bytes = .ok (proposedExtendedCommitInfo completion
        request.blockData.height lastCommit t) := by
      rcases hbytes with rfl | rfl
      · simp [parseInfoIfAny, parseExtendedCommitInfo_nil hnothing, Except.map] at hparsed
      · exact parseExtendedCommitInfo_encode (hreads lastCommit t hlast)
          (proposedExtendedCommitInfo_nodup hdecode _ lastCommit t)
    have hsent : parsed = some (proposedExtendedCommitInfo completion request.blockData.height lastCommit t,
        bytes) := by
      unfold parseInfoIfAny at hparsed
      dsimp only at hparsed
      rw [hinfo] at hparsed
      exact (Except.ok.inj hparsed).symm
    rw [hexpanded, hsent]
    dsimp only
    have hlocal : (request.processed blockHash txs).proposedLastCommit = some lastCommit.commitInfo := by
      unfold PrepareProposal.processed
      rw [hlast]
      rfl
    simp only [bind_eq_ok, require_eq_ok, mapErr_eq_ok, hlocal]
    exact ⟨_, s, ⟨rfl, rfl⟩, haccepted⟩

/-- A validator on the same snapshot stops at no check of a proposal that it can parse, and comes to the
results and the state of the proposer. -/
theorem executeProposal_prepared (hlaws : DataItem.Laws)
    (hdecode : blocks.decodeOracleVoteExtension [] = some [])
    (hnothing : blocks.decodeInfo [] = some { extendedCommitInfo := none, idToCurrencyPair := [] })
    (hreads : request.ReadsBack completion) (henables : s.base.EnablesSince handler.upgrades)
    (hdecodes : ∀ entry ∈ PendingTransactions.builderQueue sort mempool.pending, Decodes entry.2)
    (h : prepareProposal handler appHash completion sort mempool request s = .ok proposal s')
    {expanded : ExpandedBlockData}
    (hexpand : App.expandBlockData handler.upgrades request.blockData.height proposal.txs
      (s.base.voteExtensionsEnabled request.blockData.height) = .ok expanded)
    (completion' : Completion) (blockHash : BlockHash) :
    ∃ results t, s' = t.putExecutionResults results ∧
      RunsTransactions handler appHash request.blockData expanded s results t ∧
      App.executeProposal handler appHash completion' (request.processed blockHash proposal.txs) expanded
        s = .ok results t := by
  obtain ⟨hashes, t, info, included, results, t', hpre, hinjects, hexec, hunchecked, rfl, hexpands⟩ :=
    prepareProposal_expands hlaws henables.usesDataItemEnum hdecodes h
  rw [hexpands] at hexpand
  cases hparsed : parseInfoIfAny info with
  | error e =>
    rw [hparsed] at hexpand
    cases hexpand
  | ok parsed =>
    rw [hparsed] at hexpand
    obtain rfl := Except.ok.inj hexpand
    refine ⟨results, t', rfl, ⟨t, hpre, finalizeTransactions_of_executeTransactions hexec⟩, ?_⟩
    let parts := proposedData (generateRollupDatasCommitment included t'.base.ephemeral.deposits) hashes
      parsed included
    have hinfo : parts.extendedCommitInfo = parsed := rfl
    have hvalid := validateProposal_prepared hdecode hnothing hreads henables hpre hinjects hparsed hinfo
      completion' blockHash proposal.txs
    simp only [App.executeProposal, bind_eq_ok, mapErr_eq_ok, ensureUpgradeChangeHashes, ensure_eq_ok,
      reads_eq_ok, pure_eq_ok]
    exact ⟨(), s, hvalid, hashes, t, hpre, (), t, ⟨rfl, rfl⟩, results, t',
      (congrFun hunchecked t).trans hexec, _, t', ⟨rfl, rfl⟩, (), t', ⟨rfl, rfl⟩, (), t', ⟨rfl, rfl⟩, rfl,
      rfl⟩

/-! ## The verdict of a node -/

section

variable [hash : RootHash] {storage : Storage} {app app' node : App}
  {requests requests' : List (Request parkedMaxTxCount)}

omit crypto in
/-- The end of a block whose transactions were run decides about the block. -/
theorem isOk_postExecuteTransactions {expanded : ExpandedBlockData} {results : List ExecTxResult}
    {t : State} (hruns : RunsTransactions handler storage.latestSnapshot.rootHash request.blockData
      expanded storage.latestSnapshot results t)
    (hstate : app.state = t ∨ ∃ cached, app.state = t.putExecutionResults cached)
    (hready : app.executionState = .unset ∨ ∃ cached, app.executionState = .preparedValid cached)
    (blockHash : BlockHash) :
    isOk (App.postExecuteTransactions handler (some blockHash) request.blockData expanded results app) =
      isOk (executeBlock handler storage.latestSnapshot.rootHash
        { hash := blockHash, data := request.blockData, expanded := expanded }
          storage.latestSnapshot) := by
  have hset : ∃ state, app.executionState.setExecutedBlock blockHash = .ok state := by
    rcases hready with hunset | ⟨cached, hvalid⟩
    · exact ⟨_, by rw [hunset]; rfl⟩
    · exact ⟨_, by rw [hvalid]; rfl⟩
  obtain ⟨state, hset⟩ := hset
  rw [App.postExecuteTransactions_eq hset, hruns.executeBlock blockHash, onState, isOk_zoom, isOk_mapErr]
  rcases hstate with hstate | ⟨cached, hstate⟩
  · rw [hstate]
  · rw [hstate]
    exact (postExecuteTransactions_oblivious cached handler _).isOk_eq t

/-- Every node gives the same verdict on a proposal that a node on the same storage has prepared: it is
accepted if its data is parsed and the block can be executed on the snapshot. -/
theorem processProposal_prepared (hlaws : DataItem.Laws)
    (hdecode : blocks.decodeOracleVoteExtension [] = some [])
    (hnothing : blocks.decodeInfo [] = some { extendedCommitInfo := none, idToCurrencyPair := [] })
    (hreads : request.ReadsBack completion) (hstorage : storage.Sound handler)
    (hdecodes : ∀ entry ∈ PendingTransactions.builderQueue sort mempool.pending, Decodes entry.2)
    (hheight : request.blockData.height = storage.nextHeight)
    (happ : App.Sound handler requests storage app)
    (hprepare : App.prepareProposal handler completion sort storage mempool request app =
      .ok proposal app')
    (hnode : App.Sound handler requests' storage node) (completion' : Completion)
    (blockHash : BlockHash) :
    isOk (App.processProposal handler completion' storage (request.processed blockHash proposal.txs)
        node) = true ↔
      ∃ expanded, storage.expand handler proposal.txs = .ok expanded ∧
        isOk (executeBlock handler storage.latestSnapshot.rootHash
          { hash := blockHash, data := request.blockData, expanded := expanded }
            storage.latestSnapshot) = true := by
  obtain ⟨checked, skip, hchecked, hskip, heq⟩ := hnode.processProposal_eq hstorage
    (request.processed blockHash proposal.txs) completion' hheight
  rw [heq]
  cases hexpand : storage.expand handler proposal.txs with
  | error e =>
    have hfails : wrapErr "failed to parse data items"
        (lift (storage.expand handler (request.processed blockHash proposal.txs).txs)) checked =
          .error ("failed to parse data items" :: e) checked :=
      mapErr_eq_error.mpr ⟨e, lift_eq_error.mpr ⟨hexpand, rfl⟩, rfl⟩
    rw [bind_eq_error.mpr (Or.inl hfails)]
    simp [isOk]
  | ok expanded =>
    have hparsed : wrapErr "failed to parse data items"
        (lift (storage.expand handler (request.processed blockHash proposal.txs).txs)) checked =
          .ok expanded checked :=
      mapErr_eq_ok.mpr (lift_eq_ok.mpr ⟨hexpand, rfl⟩)
    obtain ⟨results, t, ready, hresults, hruns, hstate, hready⟩ :
        ∃ results t ready, App.proposalResults handler completion' storage
            (request.processed blockHash proposal.txs) expanded skip checked = .ok results ready ∧
          RunsTransactions handler storage.latestSnapshot.rootHash request.blockData expanded
            storage.latestSnapshot results t ∧
          (ready.state = t ∨ ∃ cached, ready.state = t.putExecutionResults cached) ∧
          (ready.executionState = .unset ∨ ∃ cached, ready.executionState = .preparedValid cached) := by
      cases skip with
      | true =>
        obtain ⟨results, t, hresults, hruns, hstate⟩ :=
          hchecked.proposalResults_skip completion' (hskip rfl) hexpand
        exact ⟨results, t, checked, hresults, hruns, Or.inr ⟨results, hstate⟩, Or.inr ⟨_, hskip rfl⟩⟩
      | false =>
        obtain ⟨s, hprepared, -⟩ := App.Sound.prepareProposal_eq_ok hprepare
        have hreadsData : App.expandBlockData handler.upgrades request.blockData.height proposal.txs
            (storage.latestSnapshot.base.voteExtensionsEnabled request.blockData.height) =
              .ok expanded := by
          rw [hheight]
          exact hexpand
        obtain ⟨results, t, -, hruns, hexecutes⟩ := executeProposal_prepared hlaws hdecode hnothing
          hreads hstorage.enables hdecodes hprepared hreadsData completion' blockHash
        rw [happ.appHash] at hruns hexecutes
        refine ⟨results, t, { checked with state := t, executionState := .unset }, ?_, hruns, Or.inl rfl,
          Or.inl rfl⟩
        rw [App.Sound.proposalResults_execute, hchecked.appHash, onState]
        exact zoom_eq_ok.mpr ⟨t, hexecutes, rfl⟩
    have hend := isOk_postExecuteTransactions hruns hstate hready blockHash
    have hprocessed : isOk (App.postExecuteTransactions handler
        (request.processed blockHash proposal.txs).hash (request.processed blockHash proposal.txs).blockData
        expanded results ready) = isOk (App.postExecuteTransactions handler (some blockHash)
          request.blockData expanded results ready) := rfl
    rw [bind_of_ok hparsed, bind_of_ok hresults, isOk_mapErr, hprocessed, hend]
    refine ⟨fun hverdict => ⟨expanded, rfl, hverdict⟩, ?_⟩
    rintro ⟨expanded', heq', hverdict⟩
    obtain rfl := Except.ok.inj heq'
    exact hverdict

end

end

section

open TestUtils TestNode Mempool

namespace TestCommit

/-- Alice's signature of an empty vote extension for the height 2, the round 0 and the chain `test`. -/
def aliceSignature : Bytes :=
  [0x44, 0x71, 0x15, 0x28, 0x91, 0xb8, 0xd3, 0xdb, 0x34, 0x4a, 0x9e, 0x71, 0x06, 0x5e, 0xd0, 0x0a,
    0xf6, 0x00, 0xb4, 0x03, 0x61, 0xb2, 0x23, 0x4d, 0xd8, 0x61, 0xcf, 0x5a, 0xfa, 0x7b, 0x76, 0x2c,
    0xdd, 0x6d, 0xe8, 0xbb, 0x3c, 0xa5, 0x27, 0x68, 0x2f, 0xcd, 0xed, 0xf0, 0x5a, 0x57, 0x31, 0xeb,
    0xc8, 0x1c, 0xfc, 0xf5, 0x17, 0x12, 0xa4, 0x2d, 0x60, 0x95, 0x0f, 0x1f, 0x07, 0xfc, 0xee, 0x0e]

/-- Bob's signature of the same. -/
def bobSignature : Bytes :=
  [0x7b, 0xd5, 0xc2, 0x19, 0x2a, 0xfa, 0x7e, 0x1e, 0x07, 0x3d, 0x9a, 0x0c, 0x3e, 0x62, 0xce, 0x01,
    0xe9, 0xe9, 0xe5, 0x61, 0xe8, 0x2a, 0x02, 0x6d, 0x12, 0xa2, 0x5a, 0x88, 0xd9, 0x6f, 0xd6, 0xd5,
    0x93, 0xd8, 0xc8, 0x8e, 0x4f, 0x5a, 0x08, 0xc9, 0x28, 0xd5, 0x1a, 0x22, 0x28, 0xda, 0x6c, 0x58,
    0xf9, 0x8b, 0xf8, 0x53, 0x33, 0xac, 0x93, 0x38, 0x04, 0x8e, 0xbe, 0xe1, 0xc9, 0x1b, 0x2f, 0x00]

/-- No other signature is verified here. -/
scoped instance : VoteCrypto where
  verify key signature message :=
    ((key = aliceKey && signature = aliceSignature) || (key = bobKey && signature = bobSignature)) &&
      message = { ext := [], height := 2, round := 0, chainId := "test" }

/-- The vote of a validator without a price feed. -/
def vote (key : Bytes32) (signature : Bytes) : ExtendedVoteInfo where
  validator := { address := addressBytes key, power := 10 }
  sigInfo := .flag .commit
  voteExtension := []
  extensionSignature := some signature

/-- The commit of the height 2. -/
def lastCommit : ExtendedCommitInfo :=
  { round := 0, votes := [vote aliceKey aliceSignature, vote bobKey bobSignature] }

/-- The message of a vote. -/
def encodeVote (vote : ExtendedVoteInfo) : Bytes :=
  messageField 1 (bytesField 1 vote.validator.address.toList ++ uint64Field 3 vote.validator.power) ++
    bytesField 3 vote.voteExtension ++ bytesField 4 (vote.extensionSignature.getD []) ++
    uint64Field 5 (match vote.sigInfo with
      | .legacySigned => 0
      | .flag .absent => 1
      | .flag .commit => 2
      | .flag .nil => 3)

/-- The message of a commit info. -/
def encodeCommit (info : ExtendedCommitInfo) : Bytes :=
  uint64Field 1 info.round ++ info.votes.flatMap fun vote => messageField 2 (encodeVote vote)

/-- What a proposer may leave of the commit. -/
def commits : List ExtendedCommitInfo :=
  { round := 0, votes := [] } ::
    [vote aliceKey aliceSignature, (vote aliceKey aliceSignature).pruned].flatMap fun alice =>
      [vote bobKey bobSignature, (vote bobKey bobSignature).pruned].map fun bob =>
        { round := 0, votes := [alice, bob] }

/-- The messages of these commit infos are read. -/
scoped instance : BlockCodec :=
  { (inferInstance : BlockCodec) with
    extendedCommitInfoToRaw := encodeCommit
    extendedCommitInfoFromRaw := fun bytes => commits.find? fun info => encodeCommit info = bytes }

theorem laws : DataItem.Laws := by
  obtain ⟨hroots, hdecodes, htransaction⟩ := TestNode.laws
  exact ⟨hroots, hdecodes, htransaction⟩

/-- The state after the upgrade. -/
def upgraded : State :=
  (final (preExecuteTransactions withAspen.upgrades (List.Vector.replicate 32 0) (block 1 [] []).data
    started.storage.latestSnapshot)).commit

/-- A storage after the height 2, with vote extensions since then. -/
def withVotes : Storage :=
  { started.storage with
    latestSnapshot :=
      { upgraded with
        base := (upgraded.base.putConsensusParams
          { hardCodedConsensusParams with voteExtensionsEnableHeight := some 2 }).putBlockHeight 2 } }

/-- The transaction is in the mempool. -/
def mempool : Mempool 10 := ((new 10).insert (pooled [1, 2, 3] 0) 0 (nativeBalance 2)).2

/-- CometBFT asks for the proposal with the commit. -/
def votesRequest : PrepareProposal where
  maxTxBytes := 1000
  localLastCommit := some lastCommit
  blockData := { TestProposal.request.blockData with height := 3 }

/-- The proposal of a node, and the node afterwards. -/
def prepared : EStateM.Result Report App (PreparedProposal 10) :=
  App.prepareProposal withAspen completion TestProposal.sortByInsertion withVotes mempool votesRequest
    (App.new withVotes)

/-- What it proposes. -/
def preparedTxs : List Bytes :=
  match prepared with
  | .ok proposal _ => proposal.txs
  | .error _ _ => []

theorem withVotes_sound : withVotes.Sound withAspen := by
  refine ⟨by decide +kernel, fun _ => ?_⟩
  exact ⟨_, rfl, show (1 : ℕ) ≤ 2 by decide⟩

deriving instance DecidableEq for Actions, Transaction

theorem decodes_mempool :
    ∀ entry ∈ PendingTransactions.builderQueue TestProposal.sortByInsertion mempool.pending,
      Decodes entry.2 := by
  unfold Decodes
  decide +kernel

/-- The votes have no prices, so that they have no mapping. -/
theorem proposed_mem (t : State) :
    ∃ info ∈ commits, proposedExtendedCommitInfo completion votesRequest.blockData.height lastCommit t =
      { extendedCommitInfo := info, idToCurrencyPair := [] } := by
  unfold proposedExtendedCommitInfo
  cases hprepare : prepareExtendedCommitInfo completion votesRequest.blockData.height lastCommit t with
  | error e t' => exact ⟨_, List.mem_cons_self, rfl⟩
  | ok result t' =>
    obtain ⟨votes, ids, b, q, mapping, rfl, hvotes, hids, -, -, hmapping⟩ :=
      prepareExtendedCommitInfo_ok (by decide +kernel) (by decide) hprepare
    obtain ⟨alice, rest, halice, hrest, rfl⟩ := List.forall₂_cons_left_iff.mp hvotes
    obtain ⟨bob, rest, hbob, hnil, rfl⟩ := List.forall₂_cons_left_iff.mp hrest
    obtain rfl := List.forall₂_nil_left_iff.mp hnil
    have hverifies (n : ℕ) : verifyVoteExtension [] n = .ok [] := by
      unfold verifyVoteExtension
      rw [show BlockCodec.decodeOracleVoteExtension [] = some [] by decide +kernel]
      simp
    have hextension {vote vote' : ExtendedVoteInfo} (hempty : vote.voteExtension = [])
        (hkept : vote' = vote ∨ vote' = vote.pruned) : vote'.voteExtension = [] := by
      rcases hkept with rfl | rfl
      · exact hempty
      · rfl
    rw [verifyVotes, hextension rfl halice, hverifies] at hids
    dsimp only at hids
    rw [verifyVotes, hextension rfl hbob, hverifies] at hids
    obtain rfl := Except.ok.inj hids
    simp only [getIdToCurrencyPair, bind_eq_ok, reads_eq_ok, require_eq_ok, tryReads_eq_ok, and_assoc,
      exists_and_left, exists_eq_left] at hmapping
    obtain ⟨marketMap, -, hcollect, -⟩ := hmapping
    obtain rfl := Except.ok.inj hcollect
    refine ⟨{ round := 0, votes := [alice, bob] }, List.mem_cons_of_mem _ ?_, rfl⟩
    rw [List.mem_flatMap]
    exact ⟨alice, by simpa using halice, List.mem_map.mpr ⟨bob, by simpa using hbob, rfl⟩⟩

theorem readsBack : votesRequest.ReadsBack completion := by
  intro lastCommit t hlast
  obtain rfl := Option.some.inj hlast
  obtain ⟨info, hmem, hproposed⟩ := proposed_mem t
  rw [hproposed]
  have hmessage : ∀ info ∈ commits,
      BlockCodec.decodeInfo (ExtendedCommitInfoWithMapping.encode ⟨info, []⟩) =
        some (ExtendedCommitInfoWithMapping.intoRaw ⟨info, []⟩) := by
    decide +kernel
  have hcommit : ∀ info ∈ commits,
      BlockCodec.extendedCommitInfoFromRaw (BlockCodec.extendedCommitInfoToRaw info) = some info := by
    decide +kernel
  exact ⟨hmessage info hmem, hcommit info hmem⟩

set_option maxRecDepth 10000 in
/-- The proposal holds both votes.  Another node accepts it, and so does the node that has prepared it. -/
theorem processProposal_prepared_votes :
    ∃ proposal app', prepared = .ok proposal app' ∧ proposal.txs.length = 4 ∧
      DataItem.encode (.extendedCommitInfo (ExtendedCommitInfoWithMapping.encode ⟨lastCommit, []⟩)) ∈
        proposal.txs ∧
      ∀ node ∈ [App.new withVotes, app'],
        isOk (App.processProposal withAspen completion withVotes
          (votesRequest.processed (List.Vector.replicate 32 1) proposal.txs) node) = true := by
  have hok : isOk prepared = true := by decide +kernel
  have hlength : preparedTxs.length = 4 ∧
      DataItem.encode (.extendedCommitInfo (ExtendedCommitInfoWithMapping.encode ⟨lastCommit, []⟩)) ∈
        preparedTxs := by
    decide +kernel
  have haccepts : isOk (App.processProposal withAspen completion withVotes
      (votesRequest.processed (List.Vector.replicate 32 1) preparedTxs) (App.new withVotes)) = true := by
    decide +kernel
  unfold preparedTxs at hlength haccepts
  cases hrun : prepared with
  | error e app' =>
    rw [hrun] at hok
    cases hok
  | ok proposal app' =>
    rw [hrun] at hlength haccepts
    have hnew : App.Sound withAspen ([] : List (Request 10)) withVotes (App.new withVotes) := .new
    have hproposer := hnew.prepareProposal laws withVotes_sound rfl decodes_mempool hrun
    have hverdict {node : App} (hnode : App.Sound withAspen ([] : List (Request 10)) withVotes node) :=
      processProposal_prepared laws (by decide +kernel) (by decide +kernel) readsBack withVotes_sound
        decodes_mempool rfl hnew hrun hnode completion (List.Vector.replicate 32 1)
    have hruns := (hverdict hnew).mp haccepts
    refine ⟨proposal, app', rfl, hlength.1, hlength.2, fun node hnode => ?_⟩
    rcases List.mem_pair.mp hnode with rfl | rfl
    · exact haccepts
    · exact (hverdict hproposer).mpr hruns

end TestCommit

end

end Astria.Sequencer
