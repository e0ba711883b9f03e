import Astria.Core.BlockBuilder
import Astria.Sequencer.TestUtils

/-!
# Commitments to the rollup data

`astria-sequencer/src/proposal/commitment.rs`: the two roots that a proposer puts in front of the
transactions of a block.  They are computed there a second time, apart from the builder of the block;
both group the data by rollup, append the deposits in the order of a hash map, and sort.

Results:
* `generateRollupDatasCommitment_eq`: the two computations agree, whatever the order of the maps;
* `rollupDatas_eq`: so does the one that the state machine of this development takes, from the deposits in
  order of execution;
* `tryBuild_toStored`: without its proofs, the block is the one that the state machine stores;
* `commitments_agree`: a block with these commitments is built, its proofs verify, and it is
  read back from its raw form.
-/

namespace Astria.Proposal

open Astria.Core Astria.Lib
open Astria.Sequencer (BlockCodec Deposit External GeneratedCommitments rollupIdsRoot
  rollupTransactionsRoot)

section

variable [ext : External] [codec : BlockCodec]

/-- `group_rollup_data_submissions_in_signed_transaction_transactions_by_rollup_id`
(`astria-core/src/protocol/mod.rs`). -/
def groupRollupDataSubmissions (txs : List Transaction) : IndexMap RollupId (List Bytes) :=
  (collectSubmissions txs).sortKeys RollupId.Lt

/-- `generate_rollup_datas_commitment`. -/
def generateRollupDatasCommitment (txs : List Transaction)
    (deposits : IndexMap RollupId (List Deposit)) : GeneratedCommitments :=
  let rollupIdsToTxs :=
    (extendDeposits deposits (groupRollupDataSubmissions txs)).sortKeys RollupId.Lt
  { rollupDatasRoot := (deriveMerkleTreeFromRollupTxs rollupIdsToTxs.entries).root
    rollupIdsRoot := rollupIdsRoot rollupIdsToTxs.entries }

omit ext in
/-- Sorting before the deposits are appended makes no difference, nor does the order of the maps. -/
theorem sortKeys_extendDeposits {deposits deposits' : IndexMap RollupId (List Deposit)}
    (hsame : deposits.Same deposits') {m m' : IndexMap RollupId (List Bytes)}
    (hm : ∀ id, m.get id = m'.get id) :
    ((extendDeposits deposits m).sortKeys RollupId.Lt).entries =
      ((extendDeposits deposits' m').sortKeys RollupId.Lt).entries := by
  apply IndexMap.sortKeys_ext
  intro id
  rw [get_extendDeposits, get_extendDeposits, IndexMap.get_eq_of_same hsame, hm]

theorem generateRollupDatasCommitment_eq (builder : SequencerBlockBuilder)
    {deposits : IndexMap RollupId (List Deposit)} (hsame : deposits.Same builder.deposits) :
    generateRollupDatasCommitment builder.expandedBlockData.userSubmittedTransactions deposits =
      { rollupDatasRoot := rollupTransactionsRoot builder.rollupDatas
        rollupIdsRoot := rollupIdsRoot builder.rollupDatas } := by
  have hdatas := sortKeys_extendDeposits hsame
    (IndexMap.get_sortKeys RollupId.Lt
      (collectSubmissions builder.expandedBlockData.userSubmittedTransactions))
  unfold generateRollupDatasCommitment groupRollupDataSubmissions
  dsimp only
  rw [hdatas]
  rfl

/-! ## The deposits in order of execution -/

/-- The map of the deposits by rollup, of a list of deposits. -/
def Groups (deposits : IndexMap RollupId (List Deposit)) (ds : List Deposit) : Prop :=
  ∀ id, deposits.get id =
    if (ds.filter fun d => d.rollupId = id) = [] then none
    else some (ds.filter fun d => d.rollupId = id)

omit ext codec in
theorem lookup_eq_none_of_lt {k : RollupId} {l : Sequencer.RollupDatas}
    (h : ∀ e ∈ l, RollupId.Lt k e.1) : SortedMap.lookup k l = none := by
  rw [← Option.not_isSome_iff_eq_none, SortedMap.lookup_isSome_iff]
  intro hmem
  obtain ⟨e, he, heq⟩ := List.mem_map.mp hmem
  have hlt := h e he
  rw [heq] at hlt
  exact Std.Irrefl.irrefl _ hlt

omit ext codec in
/-- Appending to a sorted list is inserting what the rollup has then. -/
theorem append_eq_insert {l : Sequencer.RollupDatas} (h : SortedMap.Sorted RollupId.Lt l)
    (id : RollupId) (data : Bytes) :
    Sequencer.RollupDatas.append id data l =
      SortedMap.insert RollupId.Lt id ((SortedMap.lookup id l).getD [] ++ [data]) l := by
  induction l with
  | nil => rfl
  | cons e l ih =>
    obtain ⟨i, items⟩ := e
    rw [SortedMap.insert]
    show (if RollupId.Lt id i then _ else _) = _
    by_cases hlt : RollupId.Lt id i
    · have hnone : SortedMap.lookup id ((i, items) :: l) = none := by
        apply lookup_eq_none_of_lt
        intro e he
        rcases List.mem_cons.mp he with rfl | he
        · exact hlt
        · exact IsTrans.trans _ _ _ hlt (List.rel_of_pairwise_cons h he)
      rw [if_pos hlt, if_pos hlt, hnone]
      rfl
    · rw [if_neg hlt, if_neg hlt, SortedMap.lookup_cons]
      by_cases heq : id = i
      · rw [if_pos heq, if_pos heq, if_pos heq.symm, heq]
        rfl
      · rw [if_neg heq, if_neg heq, if_neg (Ne.symm heq), ih (List.Pairwise.of_cons h)]

/-- The list that is kept sorted all along, and the map that is sorted in the end. -/
def Tracks (l : Sequencer.RollupDatas) (m : IndexMap RollupId (List Bytes)) : Prop :=
  SortedMap.Sorted RollupId.Lt l ∧ ∀ id, SortedMap.lookup id l = m.get id

omit ext codec in
theorem Tracks.append {l : Sequencer.RollupDatas} {m : IndexMap RollupId (List Bytes)}
    (h : Tracks l m) (id : RollupId) (data : Bytes) :
    Tracks (Sequencer.RollupDatas.append id data l) (m.modify id [] (· ++ [data])) := by
  rw [append_eq_insert h.1]
  refine ⟨h.1.insert id _, ?_⟩
  intro k
  rw [SortedMap.lookup_insert, IndexMap.get_modify, h.2, h.2]

omit ext in
theorem tracks_collectSubmissions (txs : List Transaction) :
    Tracks ((Sequencer.rollupDataSubmissions txs).foldl
      (fun acc act => Sequencer.RollupDatas.append act.rollupId
        (codec.encodeSequencedData act.data) acc) []) (collectSubmissions txs) := by
  unfold collectSubmissions
  have hempty : Tracks ([] : Sequencer.RollupDatas) IndexMap.empty :=
    ⟨SortedMap.Sorted.nil, fun _ => rfl⟩
  generalize ([] : Sequencer.RollupDatas) = l, (IndexMap.empty : IndexMap RollupId (List Bytes)) = m
    at hempty ⊢
  induction Sequencer.rollupDataSubmissions txs generalizing l m with
  | nil => exact hempty
  | cons act acts ih => exact ih _ _ (hempty.append act.rollupId _)

omit ext in
/-- The deposits, one after the other. -/
theorem sorted_lookup_deposits (ds : List Deposit) {l : Sequencer.RollupDatas}
    (h : SortedMap.Sorted RollupId.Lt l) :
    SortedMap.Sorted RollupId.Lt
        (ds.foldl (fun acc d => Sequencer.RollupDatas.append d.rollupId (codec.encodeDeposit d) acc)
          l) ∧
      ∀ id, SortedMap.lookup id
          (ds.foldl (fun acc d => Sequencer.RollupDatas.append d.rollupId (codec.encodeDeposit d) acc)
            l) =
        if (ds.filter fun d => d.rollupId = id) = [] then SortedMap.lookup id l
        else some ((SortedMap.lookup id l).getD [] ++
          (ds.filter fun d => d.rollupId = id).map codec.encodeDeposit) := by
  induction ds generalizing l with
  | nil => exact ⟨h, fun id => rfl⟩
  | cons d ds ih =>
    rw [List.foldl_cons, append_eq_insert h]
    obtain ⟨hsorted, hlookup⟩ := ih (h.insert d.rollupId _)
    refine ⟨hsorted, ?_⟩
    intro id
    rw [hlookup, SortedMap.lookup_insert]
    by_cases hid : id = d.rollupId
    · rw [if_pos hid, List.filter_cons_of_pos (by simpa using hid.symm),
        if_neg (List.cons_ne_nil _ _), List.map_cons, Option.getD_some, hid]
      by_cases hnil : (ds.filter fun e => e.rollupId = d.rollupId) = []
      · rw [if_pos hnil, hnil]
        rfl
      · rw [if_neg hnil, List.append_assoc]
        rfl
    · rw [if_neg hid, List.filter_cons_of_neg (by simpa using Ne.symm hid)]

omit ext in
/-- The data that the state machine of this development groups from the deposits in order of execution
are those that the builder groups from the map of the deposits. -/
theorem rollupDatas_eq {deposits : IndexMap RollupId (List Deposit)} {ds : List Deposit}
    (hgroups : Groups deposits ds) (txs : List Transaction) :
    Sequencer.rollupDatas txs ds =
      ((extendDeposits deposits (collectSubmissions txs)).sortKeys RollupId.Lt).entries := by
  obtain ⟨hsorted, hlookup⟩ := tracks_collectSubmissions txs
  obtain ⟨hsorted', hlookup'⟩ := sorted_lookup_deposits ds hsorted
  refine hsorted'.ext (IndexMap.sorted_sortEntries RollupId.Lt _) ?_
  intro id
  have hget : (extendDeposits deposits (collectSubmissions txs)).get id = _ :=
    get_extendDeposits deposits (collectSubmissions txs) id
  rw [hgroups id] at hget
  rw [hlookup', hlookup]
  refine Eq.trans ?_ (IndexMap.get_sortKeys RollupId.Lt _ id).symm
  rw [hget]
  by_cases hnil : (ds.filter fun d => d.rollupId = id) = []
  · rw [if_pos hnil, if_pos hnil]
    rfl
  · rw [if_neg hnil, if_neg hnil]
    rfl

/-- What the state machine of this development keeps of a block. -/
def toStored (block : SequencerBlock) : Sequencer.StoredBlock :=
  { height := block.header.height
    time := block.header.time
    proposer := block.header.proposerAddress
    rollupTransactionsRoot := block.header.rollupTransactionsRoot
    dataHash := block.header.dataHash
    rollupTransactions := rollupDatasOf block.rollupTransactions
    upgradeChangeHashes := block.upgradeChangeHashes
    extendedCommitInfo :=
      block.extendedCommitInfoWithProof.map (·.encodedExtendedCommitInfo) }

/-- The builder of the state machine, which has no proofs and the deposits in order of execution. -/
def toParts (builder : SequencerBlockBuilder) (ds : List Deposit) :
    Sequencer.SequencerBlockBuilder :=
  { blockHash := builder.blockHash
    chainId := builder.chainId
    height := builder.height
    time := builder.time
    proposerAddress := builder.proposerAddress
    expandedBlockData := builder.expandedBlockData.toParts
    deposits := ds }

theorem tryBuild_toStored {builder : SequencerBlockBuilder} {ds : List Deposit}
    (hgroups : Groups builder.deposits ds) (h64 : builder.rollupDatas.length ≤ 2 ^ 63) :
    builder.tryBuild.map toStored = (toParts builder ds).tryBuild := by
  have hdatas : Sequencer.rollupDatas (toParts builder ds).expandedBlockData.userSubmittedTransactions
      (toParts builder ds).deposits = builder.rollupDatas :=
    rollupDatas_eq hgroups builder.expandedBlockData.userSubmittedTransactions
  unfold Sequencer.SequencerBlockBuilder.tryBuild
  dsimp only
  rw [hdatas]
  by_cases hids : (toParts builder ds).expandedBlockData.rollupIdsRoot =
      rollupIdsRoot builder.rollupDatas
  · rw [if_neg (not_not_intro hids)]
    by_cases htxs : (toParts builder ds).expandedBlockData.rollupTransactionsRoot =
        rollupTransactionsRoot builder.rollupDatas
    · rw [if_neg (not_not_intro htxs)]
      obtain ⟨txs, hbuild, hof, -⟩ := SequencerBlockBuilder.tryBuild_eq_ok h64 hids htxs
      rw [hbuild]
      show Except.ok (toStored (builder.toBlock txs)) = _
      rw [← hof]
      unfold toStored toParts ExpandedBlockData.toParts
      dsimp only
      rw [Option.map_map]
      rfl
    · rw [if_pos htxs]
      have hbuild : builder.tryBuild = .error _ :=
        (if_neg (not_not_intro hids)).trans (if_pos htxs)
      rw [hbuild]
      rfl
  · rw [if_pos hids]
    have hbuild : builder.tryBuild = .error _ := if_pos hids
    rw [hbuild]
    rfl

/-! ## A block with these commitments -/

variable [times : TimeCodec]

/-- The block of a builder whose parts were parsed from data is what its raw form is read back as. -/
theorem wellFormed_toBlock {builder : SequencerBlockBuilder}
    (hdata : builder.expandedBlockData.Proved) (hheader : builder.header.Valid)
    (hids : builder.expandedBlockData.rollupIdsRoot = rollupIdsRoot builder.rollupDatas)
    (htxs : builder.expandedBlockData.rollupTransactionsRoot =
      rollupTransactionsRoot builder.rollupDatas)
    {txs : IndexMap RollupId RollupTransactions} (hdatas : rollupDatasOf txs = builder.rollupDatas)
    (hentries : ∀ e ∈ txs.entries, e.1 = e.2.rollupId ∧ ProofInTree e.2.proof) :
    (builder.toBlock txs).WellFormed := by
  constructor
  · constructor
    · exact hdata.transactions
    · show builder.expandedBlockData.rollupTransactionsProof.verify
        (ext.sha256 (rollupTransactionsRoot (rollupDatasOf txs)).toList).toList _ = some true
      rw [hdatas, ← htxs]
      exact hdata.transactions
    · show builder.expandedBlockData.rollupIdsProof.verify
        (ext.sha256 (rollupIdsRoot (rollupDatasOf txs)).toList).toList _ = some true
      rw [hdatas, ← hids]
      exact hdata.ids
    · intro info hinfo
      exact (hdata.info info hinfo).1
  · exact hheader
  · exact hdata.transactionsProof
  · exact hdata.idsProof
  · exact hentries
  · intro info hinfo
    exact (hdata.info info hinfo).2

/-- The commitments of the proposer are the roots that the builder derives, in whatever order the
hash maps are iterated, so that data with these commitments never fails to become a block; the proofs
of its rollup transactions verify, and the block is read back from its raw form. -/
theorem commitments_agree (builder : SequencerBlockBuilder)
    (deposits : IndexMap RollupId (List Deposit)) (hsame : deposits.Same builder.deposits)
    (h64 : builder.rollupDatas.length ≤ 2 ^ 63) :
    let data := builder.expandedBlockData
    let commitments := generateRollupDatasCommitment data.userSubmittedTransactions deposits
    (commitments.rollupDatasRoot = rollupTransactionsRoot builder.rollupDatas ∧
      commitments.rollupIdsRoot = rollupIdsRoot builder.rollupDatas) ∧
    (data.rollupTransactionsRoot = commitments.rollupDatasRoot →
      data.rollupIdsRoot = commitments.rollupIdsRoot →
      ∃ block, builder.tryBuild = .ok block ∧
        (∀ e ∈ block.rollupTransactions.entries,
          doRollupTransactionsMatchRoot e.2 block.header.rollupTransactionsRoot = some true) ∧
        (data.FromData → builder.header.Valid →
          SequencerBlock.tryFromRaw block.intoRaw = .ok block)) := by
  intro data commitments
  have hagree : commitments = _ := generateRollupDatasCommitment_eq builder hsame
  rw [hagree]
  refine ⟨⟨rfl, rfl⟩, ?_⟩
  intro htxs hids
  obtain ⟨txs, hbuild, hdatas, hentries⟩ := SequencerBlockBuilder.tryBuild_eq_ok h64 hids htxs
  refine ⟨builder.toBlock txs, hbuild, fun e he => (hentries e he).2.2, ?_⟩
  intro hdata hheader
  exact SequencerBlock.tryFromRaw_intoRaw (wellFormed_toBlock hdata.proved hheader hids htxs hdatas
    fun e he => ⟨(hentries e he).1, (hentries e he).2.1⟩)

end

/-! ## A block with a deposit -/

section

open scoped Astria.Sequencer.TestUtils

/-- The only deposit of a block without transactions. -/
def onlyDeposit : Deposit :=
  { bridgeAddress := Sequencer.TestUtils.aliceAddress
    rollupId := { inner := List.Vector.replicate 32 7 }
    amount := 5
    asset := .tracePrefixed Sequencer.TestUtils.nria
    destinationChainAddress := "rollup"
    sourceTransactionId := List.Vector.replicate 32 1
    sourceActionIndex := 0 }

def onlyDeposits : IndexMap RollupId (List Deposit) :=
  IndexMap.collect [(onlyDeposit.rollupId, [onlyDeposit])]

/-- The builder of that block. -/
def depositBuilder (data : ExpandedBlockData) : SequencerBlockBuilder :=
  { blockHash := (List.Vector.replicate 32 1)
    chainId := "test"
    height := 2
    time := 0
    proposerAddress := Sequencer.TestUtils.judyAddress.bytes
    expandedBlockData := data
    deposits := onlyDeposits }

/-- The data of a CometBFT block with the commitments to that deposit and no transactions. -/
theorem exists_depositData :
    ∃ data : ExpandedBlockData, data.FromData ∧
      data.rollupTransactionsRoot = (generateRollupDatasCommitment [] onlyDeposits).rollupDatasRoot ∧
      data.rollupIdsRoot = (generateRollupDatasCommitment [] onlyDeposits).rollupIdsRoot ∧
      data.userSubmittedTransactions = [] := by
  obtain ⟨data, hdata, htxs, hids, hsubmitted⟩ := ExpandedBlockData.newFromUntypedData_of_roots
    (generateRollupDatasCommitment [] onlyDeposits).rollupDatasRoot
    (generateRollupDatasCommitment [] onlyDeposits).rollupIdsRoot
    (show ([] : List Bytes).length + 2 ≤ 2 ^ 63 by decide) rfl
  refine ⟨data, ⟨[_, _], ?_, Or.inl hdata⟩, htxs, hids, hsubmitted⟩
  show 2 ≤ 2 ^ 63
  decide

theorem depositBuilder_valid (data : ExpandedBlockData) : (depositBuilder data).header.Valid :=
  { chainId := by
      show External.validChainId "test" = true
      decide +kernel
    height := by
      show 2 ≤ maxHeight
      decide
    time := by
      show TimeCodec.timeFromRaw (TimeCodec.timeToRaw 0) = some 0
      decide +kernel }

theorem depositBuilder_rollupDatas {data : ExpandedBlockData}
    (h : data.userSubmittedTransactions = []) :
    (depositBuilder data).rollupDatas =
      [(onlyDeposit.rollupId, [BlockCodec.encodeDeposit onlyDeposit])] := by
  unfold SequencerBlockBuilder.rollupDatas
  show ((extendDeposits onlyDeposits (collectSubmissions
    data.userSubmittedTransactions)).sortKeys RollupId.Lt).entries = _
  rw [h]
  rfl

/-- A rollup with a deposit and no other data is in the block. -/
theorem commitments_agree_deposit :
    ∃ data : ExpandedBlockData, ∃ block, (depositBuilder data).tryBuild = .ok block ∧
      (∀ e ∈ block.rollupTransactions.entries,
        doRollupTransactionsMatchRoot e.2 block.header.rollupTransactionsRoot = some true) ∧
      SequencerBlock.tryFromRaw block.intoRaw = .ok block := by
  obtain ⟨data, hfrom, htxs, hids, hsubmitted⟩ := exists_depositData
  have h64 : (depositBuilder data).rollupDatas.length ≤ 2 ^ 63 := by
    rw [depositBuilder_rollupDatas hsubmitted]
    decide
  have h := commitments_agree (depositBuilder data) onlyDeposits (List.Perm.refl _) h64
  dsimp only at h
  have hsubmitted' : (depositBuilder data).expandedBlockData.userSubmittedTransactions = [] :=
    hsubmitted
  rw [hsubmitted'] at h
  obtain ⟨block, hbuild, hmatch, hround⟩ := h.2 htxs hids
  exact ⟨data, block, hbuild, hmatch, hround hfrom (depositBuilder_valid data)⟩

end

end Astria.Proposal
