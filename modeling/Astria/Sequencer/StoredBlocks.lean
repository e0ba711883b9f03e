import Astria.Sequencer.Commitment
import Astria.Sequencer.Replication

/-!
# Stored blocks

At its end a block is stored as `SequencerBlockBuilder` builds it, from the parsed data of CometBFT and the
deposits (`app/mod.rs`, `post_execute_transactions`).  The proofs with which it is served are computed there,
once for all, so they have to be right for every block that a node ever stores.  The state machine keeps the
block without its proofs; here it gets them back.

Results:
* `readsBack_of_tryBuild`: a block that is built from parsed data is one with proofs that verify;
* `Executes.stores`, `LeadsThrough.stores`: an executed block adds itself to the stored blocks;
* `NodeRun.storedBlocks_readBack`: so on every node every stored block has proofs that verify, and is read
  back from its raw form.
-/

namespace Astria.Proposal

open Astria.Core Astria.Lib
open Astria.Sequencer (Deposit)

/-- The deposits of a block by rollup. -/
def groupDeposits (ds : List Deposit) : IndexMap RollupId (List Deposit) :=
  ds.foldl (fun m d => m.modify d.rollupId [] (· ++ [d])) IndexMap.empty

theorem groups_groupDeposits (ds : List Deposit) : Groups (groupDeposits ds) ds := by
  induction ds using List.reverseRecOn with
  | nil =>
    intro id
    rfl
  | append_singleton ds d ih =>
    intro id
    have hget : (groupDeposits (ds ++ [d])).get id =
        if id = d.rollupId then some (((groupDeposits ds).get d.rollupId).getD [] ++ [d])
          else (groupDeposits ds).get id := by
      unfold groupDeposits
      rw [List.foldl_append]
      exact IndexMap.get_modify d.rollupId id [] (fun l => l ++ [d]) (groupDeposits ds)
    rw [hget, List.filter_append]
    by_cases hid : id = d.rollupId
    · have hlast : [d].filter (fun e => e.rollupId = id) = [d] :=
        List.filter_cons_of_pos (by simpa using hid.symm)
      rw [if_pos hid, hlast, if_neg (List.append_ne_nil_of_right_ne_nil _ (List.cons_ne_nil _ _)),
        ← hid, ih id]
      split_ifs with hnone
      · rw [hnone]
        rfl
      · rfl
    · have hlast : [d].filter (fun e => e.rollupId = id) = [] :=
        List.filter_cons_of_neg (by simpa using Ne.symm hid)
      rw [if_neg hid, hlast, List.append_nil, ih id]

end Astria.Proposal

namespace Astria.Sequencer

open Astria.Core Astria.Lib Exec
open Astria.Proposal (groupDeposits groups_groupDeposits rollupDatas_eq toParts toStored
  tryBuild_toStored wellFormed_toBlock)

section

variable [ext : External] [TransactionCodec] [codec : BlockCodec]

/-! ## From parsed data to proofs -/

omit ext [TransactionCodec] codec in
theorem exists_of_map_eq_ok {ε α β : Type} {f : α → β} {x : Except ε α} {b : β} (h : x.map f = .ok b) :
    ∃ a, x = .ok a ∧ f a = b := by
  cases x with
  | error e => cases h
  | ok a => exact ⟨a, rfl, Except.ok.inj h⟩

/-- Data that a node parses are what is left of data with proofs. -/
theorem exists_data_of_expand {upgrades : Upgrades} {height : ℕ} {txs : List Bytes} {withInfo : Bool}
    {expanded : ExpandedBlockData} (h64 : txs.length ≤ 2 ^ 63)
    (h : App.expandBlockData upgrades height txs withInfo = .ok expanded) :
    ∃ data : Core.ExpandedBlockData, data.FromData ∧ data.toParts = expanded := by
  unfold App.expandBlockData at h
  split_ifs at h
  · rw [← Core.ExpandedBlockData.newFromTypedData_toParts h64] at h
    obtain ⟨data, hdata, hparts⟩ := exists_of_map_eq_ok h
    exact ⟨data, ⟨txs, h64, Or.inr ⟨withInfo, hdata⟩⟩, hparts⟩
  · rw [← Core.ExpandedBlockData.newFromUntypedData_toParts h64] at h
    obtain ⟨data, hdata, hparts⟩ := exists_of_map_eq_ok h
    exact ⟨data, ⟨txs, h64, Or.inl hdata⟩, hparts⟩

omit [TransactionCodec] in
/-- A block is built only if its roots are those of its data. -/
theorem SequencerBlockBuilder.tryBuild_roots {parts : SequencerBlockBuilder} {stored : StoredBlock}
    (h : parts.tryBuild = .ok stored) :
    parts.expandedBlockData.rollupIdsRoot = rollupIdsRoot stored.rollupTransactions ∧
      parts.expandedBlockData.rollupTransactionsRoot =
        rollupTransactionsRoot stored.rollupTransactions ∧
      stored.rollupTransactions =
        rollupDatas parts.expandedBlockData.userSubmittedTransactions parts.deposits := by
  unfold tryBuild at h
  dsimp only at h
  split_ifs at h with hids htxs
  obtain rfl := Except.ok.inj h
  exact ⟨not_not.mp hids, not_not.mp htxs, rfl⟩

variable [TimeCodec]

/-- A stored block is what is left of one that was built with proofs from data of CometBFT: whichever chain
it is on, the proofs of its rollup transactions verify, and the block is read back from its raw form. -/
def ReadsBack (hash : BlockHash) (stored : StoredBlock) : Prop :=
  ∀ chainId : String, ∃ (builder : Core.SequencerBlockBuilder) (block : SequencerBlock),
    builder.expandedBlockData.FromData ∧ builder.tryBuild = .ok block ∧
      block.blockHash = hash ∧ block.header.chainId = chainId ∧ toStored block = stored ∧
      (∀ e ∈ block.rollupTransactions.entries,
        doRollupTransactionsMatchRoot e.2 block.header.rollupTransactionsRoot = some true) ∧
      (block.header.Valid → SequencerBlock.tryFromRaw block.intoRaw = .ok block)

/-- A block that is built from parsed data is one with proofs. -/
theorem readsBack_of_tryBuild {upgrades : Upgrades} {height : ℕ} {txs : List Bytes} {withInfo : Bool}
    {parts : SequencerBlockBuilder} {stored : StoredBlock} (h64 : txs.length ≤ 2 ^ 63)
    (hexpand : App.expandBlockData upgrades height txs withInfo = .ok parts.expandedBlockData)
    (hbuild : parts.tryBuild = .ok stored) (hmany : stored.rollupTransactions.length ≤ 2 ^ 63) :
    ReadsBack parts.blockHash stored := by
  intro chainId
  obtain ⟨data, hdata, hparts⟩ := exists_data_of_expand h64 hexpand
  obtain ⟨hids, htxs, hdatas⟩ := SequencerBlockBuilder.tryBuild_roots hbuild
  let builder : Core.SequencerBlockBuilder :=
    { blockHash := parts.blockHash
      chainId := chainId
      height := parts.height
      time := parts.time
      proposerAddress := parts.proposerAddress
      expandedBlockData := data
      deposits := groupDeposits parts.deposits }
  have hgroups := groups_groupDeposits parts.deposits
  -- the state machine keeps no chain id, so that any one will do
  have hsame : (toParts builder parts.deposits).tryBuild = .ok stored := by
    rw [← hbuild]
    unfold toParts
    dsimp only [builder]
    rw [hparts]
    rfl
  have hrollups : builder.rollupDatas = stored.rollupTransactions := by
    rw [hdatas, ← hparts]
    exact (rollupDatas_eq hgroups data.userSubmittedTransactions).symm
  rw [← hrollups, ← hparts] at hids htxs
  rw [← hrollups] at hmany
  obtain ⟨transactions, hbuilt, hof, hentries⟩ :=
    Core.SequencerBlockBuilder.tryBuild_eq_ok hmany hids htxs
  have hstored : builder.tryBuild.map toStored = .ok stored :=
    (tryBuild_toStored hgroups hmany).trans hsame
  rw [hbuilt] at hstored
  refine ⟨builder, builder.toBlock transactions, hdata, hbuilt, rfl, rfl, Except.ok.inj hstored,
    fun e he => (hentries e he).2.2, fun hheader => ?_⟩
  exact SequencerBlock.tryFromRaw_intoRaw (wellFormed_toBlock hdata.proved hheader hids htxs hof
    fun e he => ⟨(hentries e he).1, (hentries e he).2.1⟩)

end

/-! ## What a block adds -/

section

variable [ext : External] [TransactionCodec] [BlockCodec] {handler : UpgradesHandler}

/-- The block that is built from some parts is stored, and no other. -/
def Stores (parts : SequencerBlockBuilder) (s s' : Base) : Prop :=
  ∃ stored, parts.tryBuild = .ok stored ∧
    s'.nonverifiable.sequencerBlocks =
      Function.update s.nonverifiable.sequencerBlocks parts.blockHash (some stored)

omit [TransactionCodec] in
/-- The end of a block stores it. -/
theorem postExecuteTransactions_stores {post : PostExecution} {s s' : State} {u : Unit}
    (h : postExecuteTransactions handler post s = .ok u s') :
    ∃ parts : SequencerBlockBuilder, parts.blockHash = post.blockHash ∧
      parts.expandedBlockData = post.expandedBlockData ∧ Stores parts s.base s'.base := by
  obtain ⟨chainId, recipient, updates, b, c, -, -, hend, hstore, rfl⟩ :=
    postExecuteTransactions_eq_ok.mp h
  have hended : b.nonverifiable.sequencerBlocks = s.base.nonverifiable.sequencerBlocks :=
    ((endBlock_sameResults recipient).of_ok hend).blocks
  simp only [storeBlock, bind_eq_ok, reads_eq_ok, writes_eq_ok, mapErr_eq_ok, lift_eq_ok, and_assoc,
    exists_and_left, exists_eq_left, exists_const] at hstore
  obtain ⟨stored, hbuild, params, d, hupgrades, rfl⟩ := hstore
  refine ⟨_, rfl, rfl, stored, hbuild, ?_⟩
  have hsame : d.nonverifiable.sequencerBlocks =
      Function.update b.nonverifiable.sequencerBlocks post.blockHash (some stored) := by
    unfold UpgradesHandler.endBlock at hupgrades
    cases hdue : handler.upgrades.upgradeActivatingAtHeight post.height with
    | none =>
      rw [hdue] at hupgrades
      obtain ⟨-, rfl⟩ := pure_eq_ok.mp hupgrades
      rfl
    | some aspen =>
      rw [hdue] at hupgrades
      simp only [bind_eq_ok, reads_eq_ok, writes_eq_ok, pure_eq_ok, and_assoc, exists_and_left,
        exists_eq_left, exists_const] at hupgrades
      obtain ⟨-, rfl⟩ := hupgrades
      rfl
  rw [← hended]
  exact hsame

variable [UpgradeCodec] {appHash : Bytes32} {block : Block} {s s' : State}

/-- An executed block adds itself to the stored blocks. -/
theorem Executes.stores (h : Executes handler appHash block s s') :
    ∃ parts : SequencerBlockBuilder, parts.blockHash = block.hash ∧
      parts.expandedBlockData = block.expanded ∧ Stores parts s.base s'.base := by
  obtain ⟨t, hok, hs'⟩ := h
  obtain ⟨hashes, q, hpre, hpost⟩ := executeBlock_ok hok
  have hstart := ((preExecuteTransactions_sameResults handler.upgrades appHash block.data).of_ok hpre).blocks
  have hrun := (finalizeTransactions_sameResults block.expanded.userSubmittedTransactions q).blocks
  obtain ⟨parts, hhash, hexpanded, stored, hbuild, hblocks⟩ := postExecuteTransactions_stores hpost
  rw [hrun, hstart] at hblocks
  refine ⟨parts, hhash, hexpanded, stored, hbuild, ?_⟩
  rcases hs' with rfl | ⟨results, rfl⟩
  · exact hblocks
  · exact hblocks

/-- So does a block with prices, which leave the stored blocks. -/
theorem LeadsThrough.stores {priced : Block} (h : LeadsThrough handler appHash block priced s s') :
    ∃ parts : SequencerBlockBuilder, parts.expandedBlockData = block.expanded ∧
      Stores parts s.base s'.base := by
  rcases h with ⟨t, hprices, hexec⟩ | ⟨t, hexec, hprices⟩
  · obtain ⟨parts, -, hexpanded, hstores⟩ := hexec.stores
    rw [hprices.base_eq] at hstores
    exact ⟨parts, hexpanded, hstores⟩
  · obtain ⟨parts, -, hexpanded, hstores⟩ := hexec.stores
    rw [← hprices.base_eq] at hstores
    exact ⟨parts, hexpanded, hstores⟩

end

/-! ## The blocks of a node -/

section

variable [ext : External] [UpgradeCodec] [TransactionCodec] [BlockCodec] [RootHash]
  {handler : UpgradesHandler} {parkedMaxTxCount : ℕ} {requests : List (Request parkedMaxTxCount)}
  {storage : Storage} {app : App} {block : FinalizeBlock} {response : FinalizeBlockResponse}
  {snapshot : State}

/-- The data items of a request fit into memory, which bounds their number. -/
def Request.Fits : Request parkedMaxTxCount → Prop
  | .processProposal request _ => request.txs.length ≤ 2 ^ 63
  | .finalizeBlock request => request.txs.length ≤ 2 ^ 63
  | _ => True

/-- A block that was parsed from the data of a request is stored, and no other. -/
def StoresParsed (upgrades : Upgrades) (s s' : Base) : Prop :=
  ∃ (parts : SequencerBlockBuilder) (height : ℕ) (txs : List Bytes) (withInfo : Bool),
    txs.length ≤ 2 ^ 63 ∧
      App.expandBlockData upgrades height txs withInfo = .ok parts.expandedBlockData ∧
      Stores parts s s'

/-- What a node stages stores one block, which it has parsed when it finalizes it or when it processed it
as a proposal. -/
theorem App.Sound.stores (hstorage : storage.Sound handler)
    (hsound : App.Sound handler requests storage app) (hfits : ∀ request ∈ requests, request.Fits)
    (hheight : block.blockData.height = storage.nextHeight) (hblock : block.txs.length ≤ 2 ^ 63)
    (hstages : Stages (App.finalizeBlock handler storage block app) response snapshot) :
    StoresParsed handler.upgrades storage.latestSnapshot.base snapshot.base := by
  obtain ⟨executed, priced, events, s, batch, -, ⟨txs, hexpand, htxs⟩, hleads, ⟨_, height, -, -, rfl, -⟩,
    rfl⟩ := hsound.leadsThrough hstorage hheight hstages
  have h64 : txs.length ≤ 2 ^ 63 := by
    rcases htxs with rfl | ⟨request, completion, hmem, rfl⟩
    · exact hblock
    · exact hfits _ hmem
  obtain ⟨parts, hexpanded, hstores⟩ := hleads.stores
  exact ⟨parts, _, txs, _, h64, hexpand.trans (congrArg Except.ok hexpanded.symm), hstores⟩

variable [TimeCodec]

/-- Every stored block reads back, unless it has more rollups than an index can name. -/
def Base.BlocksReadBack (s : Base) : Prop :=
  ∀ blockHash stored, s.nonverifiable.sequencerBlocks blockHash = some stored →
    stored.rollupTransactions.length ≤ 2 ^ 63 → ReadsBack blockHash stored

omit [UpgradeCodec] [RootHash] in
/-- A block that was parsed joins blocks that read back. -/
theorem StoresParsed.blocksReadBack {upgrades : Upgrades} {s s' : Base} (h : StoresParsed upgrades s s')
    (hs : s.BlocksReadBack) : s'.BlocksReadBack := by
  obtain ⟨parts, height, txs, withInfo, h64, hexpand, stored, hbuild, hblocks⟩ := h
  intro blockHash stored' hstored hmany
  rw [hblocks, Function.update_apply] at hstored
  split_ifs at hstored with hsame
  · obtain rfl := Option.some.inj hstored
    rw [hsame]
    exact readsBack_of_tryBuild h64 hexpand hbuild hmany
  · exact hs blockHash stored' hstored hmany

/-- Whatever a node is asked, every block that it has stored is one with proofs: those of its rollup
transactions verify, and the block is read back from its raw form. -/
theorem NodeRun.storedBlocks_readBack [VoteCrypto] {genesis : InitChain} {node : Node} (hlaws : DataItem.Laws)
    (hlater : handler.EnablesLater) (h : NodeRun handler genesis requests node)
    (hfits : ∀ request ∈ requests, request.Fits) {blockHash : BlockHash} {stored : StoredBlock}
    (hstored : node.storage.latestSnapshot.base.nonverifiable.sequencerBlocks blockHash = some stored)
    (hmany : stored.rollupTransactions.length ≤ 2 ^ 63) : ReadsBack blockHash stored := by
  refine (h.invariant (P := fun storage => storage.latestSnapshot.base.BlocksReadBack)
    (Q := fun _ snapshot => snapshot.base.BlocksReadBack) (fun storage app hinit => ?_)
    (fun _ _ _ hstaged => hstaged) ?_).1 blockHash stored hstored hmany
  · -- the genesis stores no block
    obtain ⟨b, height, hb, -, rfl, -⟩ := Consensus.initChain_eq_ok hinit
    have hwrites : GenesisWrites Base.SameResults := by
      constructor <;> intros <;> exact ⟨rfl, rfl, rfl⟩
    have hblocks := ((initChain_keeps hwrites genesis.genesisState genesis.validators
      genesis.chainId).of_ok hb).blocks
    intro blockHash' stored' hstored'
    have hnone : b.nonverifiable.sequencerBlocks blockHash' = none := congrFun hblocks blockHash'
    have hsome : b.nonverifiable.sequencerBlocks blockHash' = some stored' := hstored'
    rw [hnone] at hsome
    cases hsome
  · intro before node block response snapshot hrun hsub hmem hheight hbefore hstages
    obtain ⟨hstorage, hsound⟩ := hrun.sound hlaws hlater
    have hstores := hsound.stores hstorage (fun request hin => hfits request (hsub hin)) hheight
      (hfits _ hmem) hstages
    exact hstores.blocksReadBack hbefore

end

section

open TestUtils TestProposal

namespace TestNode

set_option maxRecDepth 10000 in
/-- The block with one transaction of alice is stored, and read back on the chain `test`. -/
theorem storedBlocks_readBack_committed :
    ∃ stored block, (commits processed).storage.latestSnapshot.base.nonverifiable.sequencerBlocks
        (List.Vector.replicate 32 1) = some stored ∧
      toStored block = stored ∧ block.header.chainId = "test" ∧
      SequencerBlock.tryFromRaw block.intoRaw = .ok block := by
  have hsome : ((commits processed).storage.latestSnapshot.base.nonverifiable.sequencerBlocks
      (List.Vector.replicate 32 1)).isSome = true := by decide +kernel
  have hall : ((commits processed).storage.latestSnapshot.base.nonverifiable.sequencerBlocks
      (List.Vector.replicate 32 1)).all (fun stored =>
        stored.rollupTransactions.length ≤ 2 ^ 63 ∧ stored.height ≤ maxHeight ∧
          TimeCodec.timeFromRaw (TimeCodec.timeToRaw stored.time) = some stored.time) = true := by
    decide +kernel
  obtain ⟨stored, hstored⟩ := Option.isSome_iff_exists.mp hsome
  rw [hstored, Option.all_some, decide_eq_true_iff] at hall
  obtain ⟨hmany, hheight, htime⟩ := hall
  have hfits : ∀ request ∈ [processes] ++ [.finalizeBlock decidedBlock, .commit],
      Request.Fits request := by
    intro request hmem
    simp only [List.cons_append, List.nil_append, List.mem_cons, List.not_mem_nil, or_false] at hmem
    rcases hmem with rfl | rfl | rfl
    · show proposal.txs.length ≤ 2 ^ 63
      decide +kernel
    · show decidedBlock.txs.length ≤ 2 ^ 63
      decide +kernel
    · trivial
  obtain ⟨-, block, -, -, -, hchain, hblock, -, hround⟩ :=
    (commits_run processed_run (by decide +kernel)).storedBlocks_readBack laws enablesLater hfits hstored
      hmany "test"
  refine ⟨stored, block, hstored, hblock, hchain, hround ⟨?_, ?_, ?_⟩⟩
  · rw [hchain]
    decide +kernel
  · rw [← hblock] at hheight
    exact hheight
  · rw [← hblock] at htime
    exact htime

end TestNode

end

end Astria.Sequencer
