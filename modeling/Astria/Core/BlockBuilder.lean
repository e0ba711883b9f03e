import Astria.Core.BlockConversions
import Astria.Merkle.Inclusion

/-!
# Building a sequencer block

How a block is put together from the data of a CometBFT block, with a proof for each of its parts
(`astria-core/src/sequencerblock/v1/block/mod.rs`): `ExpandedBlockData` and `SequencerBlockBuilder`.
The deposits come in a hash map, whose order is part of the argument here.

Results:
* `ExpandedBlockData.newFromTypedData_proved`, `ExpandedBlockData.newFromUntypedData_proved`: the
  proofs of the parsed items verify against the data hash;
* `ExpandedBlockData.newFromTypedData_toParts`, `ExpandedBlockData.newFromUntypedData_toParts`:
  without their proofs, the parsed data are those that the sequencer's state machine works with;
* `SequencerBlockBuilder.tryBuild_eq_ok`: what the builder makes of data whose roots are those of the
  transactions and the deposits.
-/

namespace Astria.Core

open Astria.Lib
open Astria.Sequencer (BlockHash BlockCodec DataItem Deposit External ExtendedCommitInfoWithMapping
  RollupDatas Time dataRoot toBytes32)

/-! ## The order of the rollup ids -/

/-- The order of `RollupId`. -/
def RollupId.Lt (a b : RollupId) : Prop := a.inner.toList < b.inner.toList

instance : DecidableRel RollupId.Lt :=
  fun a b => inferInstanceAs (Decidable (a.inner.toList < b.inner.toList))

instance : Std.Irrefl RollupId.Lt where
  irrefl a := List.lt_irrefl a.inner.toList

instance : IsTrans RollupId RollupId.Lt where
  trans _ _ _ hab hbc := List.lt_trans hab hbc

theorem RollupId.ext_toList {a b : RollupId} (h : a.inner.toList = b.inner.toList) : a = b := by
  obtain ⟨a⟩ := a
  obtain ⟨b⟩ := b
  exact congrArg RollupId.mk (List.Vector.toList_injective h)

instance : Std.Trichotomous RollupId.Lt where
  trichotomous a b hab hba := by
    have htri : Std.Trichotomous (fun l l' : List UInt8 => l < l') := inferInstance
    exact RollupId.ext_toList (htri.trichotomous _ _ hab hba)

/-! ## The parsed data of a block -/

/-- `ExpandedBlockData`. -/
structure ExpandedBlockData where
  dataRootHash : Bytes32
  rollupTransactionsRoot : Bytes32
  rollupTransactionsProof : Merkle.Proof Bytes32
  rollupIdsRoot : Bytes32
  rollupIdsProof : Merkle.Proof Bytes32
  upgradeChangeHashes : List Bytes32
  extendedCommitInfoWithProof : Option ExtendedCommitInfoWithProof
  userSubmittedTransactions : List Transaction

namespace ExpandedBlockData

variable [ext : External] [codec : BlockCodec]

/-- The tree over items that are hashed already. -/
def dataTree (leaves : List Bytes32) : Merkle.Tree Bytes32 :=
  Merkle.Tree.fromLeaves (leaves.map List.Vector.toList)

/-- The message with which the proof of an item is expected. -/
def leafPanic (item : String) : Report :=
  ["the leaf must exist in the tree as `" ++ item ++ "` was created from the same index in `data` " ++
    "used to construct the tree"]

/-- `new_from_untyped_data`. -/
def newFromUntypedData (data : List Bytes) : Except Report ExpandedBlockData := do
  let tree := dataTree (data.map ext.sha256)
  match data with
  | [] =>
    .error ["the cometbft `block.data` field did not contain the rollup transactions root"]
  | first :: rest =>
    let txsRoot ← okOr (toBytes32 first)
      ["the rollup transactions root in the cometbft `block.data` field was not 32 bytes long"]
    let txsProof ← okOr (tree.constructProof 0) (leafPanic "rollup_transactions_root")
    match rest with
    | [] => .error ["the cometbft `block.data` field did not contain the rollup IDs root"]
    | second :: txBytes =>
      let idsRoot ← okOr (toBytes32 second)
        ["the rollup IDs root in the cometbft `block.data` field was not 32 bytes long"]
      let idsProof ← okOr (tree.constructProof 1) (leafPanic "rollup_ids_root")
      let txs ← Sequencer.ExpandedBlockData.parseTransactions txBytes
      .ok
        { dataRootHash := tree.root
          rollupTransactionsRoot := txsRoot
          rollupTransactionsProof := txsProof
          rollupIdsRoot := idsRoot
          rollupIdsProof := idsProof
          upgradeChangeHashes := []
          extendedCommitInfoWithProof := none
          userSubmittedTransactions := txs }

/-- The proof of the extended commit info, which is the third leaf. -/
def proveExtendedCommitInfo (tree : Merkle.Tree Bytes32) :
    Option (ExtendedCommitInfoWithMapping × Bytes) →
      Except Report (Option ExtendedCommitInfoWithProof)
  | none => .ok none
  | some (info, encoded) => do
    let proof ← okOr (tree.constructProof 2) (leafPanic "extended_commit_info")
    .ok (some
      { extendedCommitInfo := info, encodedExtendedCommitInfo := encoded, proof := proof })

/-- The leaves of typed data: the upgrade change hashes are not among them. -/
def typedLeaves (txsRoot idsRoot : Bytes32) (info : Option (ExtendedCommitInfoWithMapping × Bytes))
    (txBytes : List Bytes) : List Bytes32 :=
  [ext.sha256 txsRoot.toList, ext.sha256 idsRoot.toList] ++
    (info.map fun i => ext.sha256 i.2).toList ++ txBytes.map ext.sha256

/-- `new_from_typed_data`. -/
def newFromTypedData (data : List Bytes) (withExtendedCommitInfo : Bool) :
    Except Report ExpandedBlockData :=
  match data with
  | [] =>
    .error ["the cometbft `block.data` field did not contain the rollup transactions root"]
  | [first] => do
    let item ← DataItem.decode 0 first
    let _ ← item.intoRollupTransactionsRoot 0
    .error ["the cometbft `block.data` field did not contain the rollup IDs root"]
  | first :: second :: rest => do
    let firstItem ← DataItem.decode 0 first
    let txsRoot ← firstItem.intoRollupTransactionsRoot 0
    let secondItem ← DataItem.decode 1 second
    let idsRoot ← secondItem.intoRollupIdsRoot 1
    let (hashes, info, txBytes) ←
      Sequencer.ExpandedBlockData.takeInjected withExtendedCommitInfo rest
    let txs ← Sequencer.ExpandedBlockData.parseTransactions txBytes
    let tree := dataTree (typedLeaves txsRoot idsRoot info txBytes)
    let txsProof ← okOr (tree.constructProof 0) (leafPanic "rollup_transactions_root")
    let idsProof ← okOr (tree.constructProof 1) (leafPanic "rollup_ids_root")
    let infoWithProof ← proveExtendedCommitInfo tree info
    .ok
      { dataRootHash := tree.root
        rollupTransactionsRoot := txsRoot
        rollupTransactionsProof := txsProof
        rollupIdsRoot := idsRoot
        rollupIdsProof := idsProof
        upgradeChangeHashes := hashes
        extendedCommitInfoWithProof := infoWithProof
        userSubmittedTransactions := txs }

/-- Data that was parsed from the data of a CometBFT block. -/
def FromData (expanded : ExpandedBlockData) : Prop :=
  ∃ data : List Bytes, data.length ≤ 2 ^ 63 ∧
    (newFromUntypedData data = .ok expanded ∨
      ∃ withInfo, newFromTypedData data withInfo = .ok expanded)

/-- The proofs of parsed data verify. -/
structure Proved (data : ExpandedBlockData) : Prop where
  transactions : data.rollupTransactionsProof.verify
    (ext.sha256 data.rollupTransactionsRoot.toList).toList data.dataRootHash = some true
  transactionsProof : ProofInTree data.rollupTransactionsProof
  ids : data.rollupIdsProof.verify
    (ext.sha256 data.rollupIdsRoot.toList).toList data.dataRootHash = some true
  idsProof : ProofInTree data.rollupIdsProof
  info : ∀ info, data.extendedCommitInfoWithProof = some info →
    info.Verified data.dataRootHash ∧ ProofInTree info.proof

omit codec in
/-- Every leaf of the tree of the data has a proof that verifies. -/
theorem constructProof_dataTree {leaves : List Bytes32} (h64 : leaves.length ≤ 2 ^ 63) {j : ℕ}
    (hj : j < leaves.length) :
    ∃ proof, (dataTree leaves).constructProof j = some proof ∧ ProofInTree proof ∧
      proof.verify leaves[j].toList (dataTree leaves).root = some true := by
  obtain ⟨proof, hproof, hindex, hsize, hverify⟩ :=
    Merkle.constructProof_verify (D := Bytes32) (leaves.map List.Vector.toList) (j := j)
      (by rw [List.length_map]; exact h64) (by rw [List.length_map]; exact hj)
  rw [List.length_map] at hsize
  rw [List.getElem_map] at hverify
  refine ⟨proof, hproof, ⟨?_, ?_⟩, hverify⟩
  · rw [hindex, hsize]
    omega
  · rw [hsize, u64Max]
    omega

omit codec in
theorem constructProof_of_eq_some {leaves : List Bytes32} (h64 : leaves.length ≤ 2 ^ 63) (j : ℕ)
    (leaf : Bytes32) (hj : leaves[j]? = some leaf) {proof : Merkle.Proof Bytes32}
    (hproof : (dataTree leaves).constructProof j = some proof) :
    proof.verify leaf.toList (dataTree leaves).root = some true ∧ ProofInTree proof := by
  obtain ⟨hlt, rfl⟩ := List.getElem?_eq_some_iff.mp hj
  obtain ⟨proof', hproof', hin, hverify⟩ := constructProof_dataTree h64 hlt
  rw [hproof] at hproof'
  rw [Option.some.inj hproof']
  exact ⟨hverify, hin⟩

/-- Data that start with two roots are parsed. -/
theorem newFromUntypedData_of_roots (txsRoot idsRoot : Bytes32) {txBytes : List Bytes}
    {txs : List Transaction} (h64 : txBytes.length + 2 ≤ 2 ^ 63)
    (htxs : Sequencer.ExpandedBlockData.parseTransactions txBytes = .ok txs) :
    ∃ expanded, newFromUntypedData (txsRoot.toList :: idsRoot.toList :: txBytes) = .ok expanded ∧
      expanded.rollupTransactionsRoot = txsRoot ∧ expanded.rollupIdsRoot = idsRoot ∧
      expanded.userSubmittedTransactions = txs := by
  let leaves := (txsRoot.toList :: idsRoot.toList :: txBytes).map ext.sha256
  have hlen : leaves.length = txBytes.length + 2 := List.length_map _
  obtain ⟨txsProof, htxsProof, -⟩ := constructProof_dataTree (hlen.trans_le h64) (j := 0)
    (by rw [hlen]; omega)
  obtain ⟨idsProof, hidsProof, -⟩ := constructProof_dataTree (hlen.trans_le h64) (j := 1)
    (by rw [hlen]; omega)
  refine ⟨
    { dataRootHash := (dataTree leaves).root
      rollupTransactionsRoot := txsRoot
      rollupTransactionsProof := txsProof
      rollupIdsRoot := idsRoot
      rollupIdsProof := idsProof
      upgradeChangeHashes := []
      extendedCommitInfoWithProof := none
      userSubmittedTransactions := txs }, ?_, rfl, rfl, rfl⟩
  unfold newFromUntypedData
  refine Codec.bind_eq_ok.mpr ⟨_, okOr_eq_ok.mpr (Sequencer.toBytes32_toList txsRoot), ?_⟩
  refine Codec.bind_eq_ok.mpr ⟨_, okOr_eq_ok.mpr htxsProof, ?_⟩
  refine Codec.bind_eq_ok.mpr ⟨_, okOr_eq_ok.mpr (Sequencer.toBytes32_toList idsRoot), ?_⟩
  refine Codec.bind_eq_ok.mpr ⟨_, okOr_eq_ok.mpr hidsProof, ?_⟩
  exact Codec.bind_eq_ok.mpr ⟨_, htxs, rfl⟩

theorem newFromUntypedData_proved {data : List Bytes} {expanded : ExpandedBlockData}
    (h64 : data.length ≤ 2 ^ 63) (h : newFromUntypedData data = .ok expanded) :
    expanded.Proved := by
  have hleaves : (data.map ext.sha256).length ≤ 2 ^ 63 := by
    rw [List.length_map]
    exact h64
  unfold newFromUntypedData at h
  cases data with
  | nil => cases h
  | cons first rest =>
    obtain ⟨txsRoot, htxsRoot, h⟩ := Codec.bind_eq_ok.mp h
    obtain ⟨txsProof, htxsProof, h⟩ := Codec.bind_eq_ok.mp h
    cases rest with
    | nil => cases h
    | cons second txBytes =>
      obtain ⟨idsRoot, hidsRoot, h⟩ := Codec.bind_eq_ok.mp h
      obtain ⟨idsProof, hidsProof, h⟩ := Codec.bind_eq_ok.mp h
      obtain ⟨txs, -, h⟩ := Codec.bind_eq_ok.mp h
      cases h
      obtain rfl := Sequencer.toBytes32_eq_some.mp (okOr_eq_ok.mp htxsRoot)
      obtain rfl := Sequencer.toBytes32_eq_some.mp (okOr_eq_ok.mp hidsRoot)
      obtain ⟨htxs, htxsIn⟩ := constructProof_of_eq_some hleaves 0
        (ext.sha256 txsRoot.toList) rfl (okOr_eq_ok.mp htxsProof)
      obtain ⟨hids, hidsIn⟩ := constructProof_of_eq_some hleaves 1
        (ext.sha256 idsRoot.toList) rfl (okOr_eq_ok.mp hidsProof)
      exact ⟨htxs, htxsIn, hids, hidsIn, fun info hinfo => absurd hinfo.symm (Option.some_ne_none info)⟩

omit ext in
theorem takeUpgradeChangeHashes_length (data : List Bytes) :
    (Sequencer.ExpandedBlockData.takeUpgradeChangeHashes data).2.2.length ≤ data.length := by
  unfold Sequencer.ExpandedBlockData.takeUpgradeChangeHashes
  split
  · exact le_refl _
  · split
    · exact Nat.le_succ _
    · exact le_refl _

omit ext in
theorem takeExtendedCommitInfo_eq_ok {index : ℕ} {data : List Bytes}
    {info : ExtendedCommitInfoWithMapping × Bytes} {rest : List Bytes}
    (h : Sequencer.ExpandedBlockData.takeExtendedCommitInfo index data = .ok (info, rest)) :
    1 + rest.length = data.length ∧ ExtendedCommitInfoWithProof.parse info.2 = .ok info.1 := by
  unfold Sequencer.ExpandedBlockData.takeExtendedCommitInfo at h
  cases data with
  | nil => cases h
  | cons bytes data =>
    obtain ⟨item, -, h⟩ := Codec.bind_eq_ok.mp h
    obtain ⟨encoded, -, h⟩ := Codec.bind_eq_ok.mp h
    cases hraw : codec.decodeInfo encoded with
    | none =>
      rw [hraw] at h
      cases h
    | some raw =>
      rw [hraw] at h
      dsimp only at h
      cases hinfo : ExtendedCommitInfoWithMapping.tryFromRaw raw with
      | error e =>
        rw [hinfo] at h
        cases h
      | ok parsed =>
        rw [hinfo] at h
        cases h
        refine ⟨Nat.add_comm .., ?_⟩
        unfold ExtendedCommitInfoWithProof.parse
        exact Codec.bind_eq_ok.mpr ⟨raw, okOr_eq_ok.mpr hraw, withContext_eq_ok.mpr hinfo⟩

omit ext in
/-- The parsed items come with their encoding, and no item becomes more than one leaf. -/
theorem takeInjected_eq_ok {withInfo : Bool} {data : List Bytes} {hashes : List Bytes32}
    {info : Option (ExtendedCommitInfoWithMapping × Bytes)} {txBytes : List Bytes}
    (h : Sequencer.ExpandedBlockData.takeInjected withInfo data = .ok (hashes, info, txBytes)) :
    info.toList.length + txBytes.length ≤ data.length ∧
      ∀ i, info = some i → ExtendedCommitInfoWithProof.parse i.2 = .ok i.1 := by
  have hlen := takeUpgradeChangeHashes_length data
  unfold Sequencer.ExpandedBlockData.takeInjected at h
  generalize Sequencer.ExpandedBlockData.takeUpgradeChangeHashes data = taken at h hlen
  obtain ⟨hashes', index, rest⟩ := taken
  dsimp only at h hlen
  cases withInfo with
  | false =>
    cases h
    exact ⟨by rw [Option.toList_none, List.length_nil, Nat.zero_add]; exact hlen,
      fun i hi => absurd hi.symm (Option.some_ne_none i)⟩
  | true =>
    rw [if_pos rfl] at h
    cases hinfo : Sequencer.ExpandedBlockData.takeExtendedCommitInfo index rest with
    | error e =>
      rw [hinfo] at h
      cases h
    | ok result =>
      obtain ⟨parsed, txBytes'⟩ := result
      rw [hinfo] at h
      cases h
      obtain ⟨hrest, hparsed⟩ := takeExtendedCommitInfo_eq_ok hinfo
      refine ⟨by rw [Option.toList_some, List.length_singleton]; omega, ?_⟩
      intro i hi
      rw [← Option.some.inj hi]
      exact hparsed

theorem newFromTypedData_proved {data : List Bytes} {withInfo : Bool}
    {expanded : ExpandedBlockData} (h64 : data.length ≤ 2 ^ 63)
    (h : newFromTypedData data withInfo = .ok expanded) : expanded.Proved := by
  unfold newFromTypedData at h
  match data with
  | [] => cases h
  | [first] =>
    obtain ⟨item, -, h⟩ := Codec.bind_eq_ok.mp h
    obtain ⟨root, -, h⟩ := Codec.bind_eq_ok.mp h
    cases h
  | first :: second :: rest =>
    obtain ⟨firstItem, -, h⟩ := Codec.bind_eq_ok.mp h
    obtain ⟨txsRoot, -, h⟩ := Codec.bind_eq_ok.mp h
    obtain ⟨secondItem, -, h⟩ := Codec.bind_eq_ok.mp h
    obtain ⟨idsRoot, -, h⟩ := Codec.bind_eq_ok.mp h
    obtain ⟨⟨hashes, info, txBytes⟩, hinjected, h⟩ := Codec.bind_eq_ok.mp h
    obtain ⟨txs, -, h⟩ := Codec.bind_eq_ok.mp h
    obtain ⟨txsProof, htxsProof, h⟩ := Codec.bind_eq_ok.mp h
    obtain ⟨idsProof, hidsProof, h⟩ := Codec.bind_eq_ok.mp h
    obtain ⟨infoWithProof, hinfo, h⟩ := Codec.bind_eq_ok.mp h
    cases h
    obtain ⟨hlen, hparsed⟩ := takeInjected_eq_ok hinjected
    have hleaves : (typedLeaves txsRoot idsRoot info txBytes).length ≤ 2 ^ 63 := by
      have hinfoLen : (info.map fun i => ext.sha256 i.2).toList.length = info.toList.length := by
        cases info <;> rfl
      rw [List.length_cons, List.length_cons] at h64
      rw [typedLeaves, List.length_append, List.length_append, List.length_map, hinfoLen]
      simp only [List.length_cons, List.length_nil]
      omega
    obtain ⟨htxs, htxsIn⟩ := constructProof_of_eq_some hleaves 0
      (ext.sha256 txsRoot.toList) rfl (okOr_eq_ok.mp htxsProof)
    obtain ⟨hids, hidsIn⟩ := constructProof_of_eq_some hleaves 1
      (ext.sha256 idsRoot.toList) rfl (okOr_eq_ok.mp hidsProof)
    refine ⟨htxs, htxsIn, hids, hidsIn, ?_⟩
    rintro i rfl
    cases info with
    | none => cases hinfo
    | some parsed =>
      obtain ⟨proof, hproof, heq⟩ := Codec.bind_eq_ok.mp hinfo
      cases heq
      obtain ⟨hverify, hin⟩ := constructProof_of_eq_some hleaves 2
        (ext.sha256 parsed.2) rfl (okOr_eq_ok.mp hproof)
      exact ⟨⟨hparsed parsed rfl, hverify⟩, hin⟩

theorem FromData.proved {expanded : ExpandedBlockData} (h : expanded.FromData) :
    expanded.Proved := by
  obtain ⟨data, h64, h | ⟨withInfo, h⟩⟩ := h
  · exact newFromUntypedData_proved h64 h
  · exact newFromTypedData_proved h64 h

/-! ### Without the proofs -/

/-- The parsed data without the proofs, as the sequencer's state machine takes them. -/
def toParts (data : ExpandedBlockData) : Sequencer.ExpandedBlockData :=
  { dataRootHash := data.dataRootHash
    rollupTransactionsRoot := data.rollupTransactionsRoot
    rollupIdsRoot := data.rollupIdsRoot
    upgradeChangeHashes := data.upgradeChangeHashes
    extendedCommitInfo := data.extendedCommitInfoWithProof.map fun info =>
      (info.extendedCommitInfo, info.encodedExtendedCommitInfo)
    userSubmittedTransactions := data.userSubmittedTransactions }

omit ext codec in
theorem map_bind_congr {α β γ : Type} {x : Except Report α} {f : α → Except Report β}
    {g : β → γ} {f' : α → Except Report γ} (h : ∀ a, (f a).map g = f' a) :
    (x >>= f).map g = x >>= f' := by
  cases x with
  | error e => rfl
  | ok a => exact h a

omit ext codec in
theorem map_bind_of_ok {α β γ : Type} {x : Except Report α} {a : α} (h : x = .ok a)
    (f : α → Except Report β) (g : β → γ) : (x >>= f).map g = (f a).map g := by
  rw [h]
  rfl

omit codec in
theorem okOr_constructProof (leaves : List Bytes32) (h64 : leaves.length ≤ 2 ^ 63) {j : ℕ}
    (hj : j < leaves.length) (e : Report) :
    ∃ proof, okOr ((dataTree leaves).constructProof j) e = .ok proof := by
  obtain ⟨proof, hproof, -⟩ := constructProof_dataTree h64 hj
  exact ⟨proof, okOr_eq_ok.mpr hproof⟩

theorem newFromTypedData_toParts {data : List Bytes} (h64 : data.length ≤ 2 ^ 63)
    (withInfo : Bool) :
    (newFromTypedData data withInfo).map toParts =
      Sequencer.ExpandedBlockData.newFromTypedData data withInfo := by
  unfold newFromTypedData Sequencer.ExpandedBlockData.newFromTypedData
  match data with
  | [] => rfl
  | [first] =>
    refine map_bind_congr fun item => ?_
    exact map_bind_congr fun root => rfl
  | first :: second :: rest =>
    refine map_bind_congr fun firstItem => ?_
    refine map_bind_congr fun txsRoot => ?_
    refine map_bind_congr fun secondItem => ?_
    refine map_bind_congr fun idsRoot => ?_
    cases hinjected : Sequencer.ExpandedBlockData.takeInjected withInfo rest with
    | error e => rfl
    | ok injected =>
      obtain ⟨hashes, info, txBytes⟩ := injected
      obtain ⟨hlen, -⟩ := takeInjected_eq_ok hinjected
      refine map_bind_congr (x := Sequencer.ExpandedBlockData.parseTransactions txBytes)
        fun txs => ?_
      have hinfoLen : (info.map fun i => ext.sha256 i.2).toList.length = info.toList.length := by
        cases info <;> rfl
      have hcount : (typedLeaves txsRoot idsRoot info txBytes).length =
          2 + info.toList.length + txBytes.length := by
        rw [typedLeaves, List.length_append, List.length_append, List.length_map, hinfoLen]
        rfl
      rw [List.length_cons, List.length_cons] at h64
      obtain ⟨txsProof, htxsProof⟩ := okOr_constructProof
        (typedLeaves txsRoot idsRoot info txBytes) (by omega) (j := 0) (by omega)
        (leafPanic "rollup_transactions_root")
      obtain ⟨idsProof, hidsProof⟩ := okOr_constructProof
        (typedLeaves txsRoot idsRoot info txBytes) (by omega) (j := 1) (by omega)
        (leafPanic "rollup_ids_root")
      refine (map_bind_of_ok htxsProof _ _).trans ?_
      refine (map_bind_of_ok hidsProof _ _).trans ?_
      cases info with
      | none => rfl
      | some parsed =>
        obtain ⟨proof, hproof⟩ := okOr_constructProof
          (typedLeaves txsRoot idsRoot (some parsed) txBytes) (by omega) (j := 2)
          (by rw [hcount, Option.toList_some, List.length_singleton]; omega)
          (leafPanic "extended_commit_info")
        have hprove : proveExtendedCommitInfo
            (dataTree (typedLeaves txsRoot idsRoot (some parsed) txBytes)) (some parsed) =
            .ok (some
              { extendedCommitInfo := parsed.1
                encodedExtendedCommitInfo := parsed.2
                proof := proof }) :=
          Codec.bind_eq_ok.mpr ⟨proof, hproof, rfl⟩
        exact map_bind_of_ok hprove _ _

theorem newFromUntypedData_toParts {data : List Bytes} (h64 : data.length ≤ 2 ^ 63) :
    (newFromUntypedData data).map toParts =
      Sequencer.ExpandedBlockData.newFromUntypedData data := by
  have hproof (j : ℕ) (hj : j < data.length) (e : Report) := okOr_constructProof
    (data.map ext.sha256) (by rw [List.length_map]; exact h64) (j := j)
    (by rw [List.length_map]; exact hj) e
  unfold newFromUntypedData Sequencer.ExpandedBlockData.newFromUntypedData
  match data with
  | [] => rfl
  | first :: rest =>
    cases hfirst : toBytes32 first with
    | none =>
      dsimp only
      rw [hfirst]
      rfl
    | some txsRoot =>
      obtain ⟨txsProof, htxsProof⟩ := hproof 0 (Nat.succ_pos _)
        (leafPanic "rollup_transactions_root")
      dsimp only
      rw [hfirst]
      refine (map_bind_of_ok (okOr_eq_ok.mpr rfl) _ _).trans ?_
      refine (map_bind_of_ok htxsProof _ _).trans ?_
      match rest with
      | [] => rfl
      | second :: txBytes =>
        cases hsecond : toBytes32 second with
        | none =>
          dsimp only
          rw [hsecond]
          rfl
        | some idsRoot =>
          obtain ⟨idsProof, hidsProof⟩ := hproof 1 (Nat.succ_lt_succ (Nat.succ_pos _))
            (leafPanic "rollup_ids_root")
          dsimp only
          rw [hsecond]
          refine (map_bind_of_ok (okOr_eq_ok.mpr rfl) _ _).trans ?_
          refine (map_bind_of_ok hidsProof _ _).trans ?_
          exact map_bind_congr fun txs => rfl

end ExpandedBlockData

/-! ## The data of the rollups -/

section

variable [ext : External] [codec : BlockCodec]

/-- What a block's transactions submit for each rollup, in the order in which the rollups come. -/
def collectSubmissions (txs : List Transaction) : IndexMap RollupId (List Bytes) :=
  (Sequencer.rollupDataSubmissions txs).foldl
    (fun m act => m.modify act.rollupId [] (· ++ [codec.encodeSequencedData act.data]))
    IndexMap.empty

/-- The deposits of each rollup behind what was submitted for it, the rollups in the order in which
the hash map yields them. -/
def extendDeposits (deposits : IndexMap RollupId (List Deposit))
    (m : IndexMap RollupId (List Bytes)) : IndexMap RollupId (List Bytes) :=
  deposits.entries.foldl (fun m e => m.modify e.1 [] (· ++ e.2.map codec.encodeDeposit)) m

omit ext in
theorem get_extendDeposits (deposits : IndexMap RollupId (List Deposit))
    (m : IndexMap RollupId (List Bytes)) (id : RollupId) :
    (extendDeposits deposits m).get id =
      (deposits.get id).elim (m.get id) fun ds =>
        some ((m.get id).getD [] ++ ds.map codec.encodeDeposit) := by
  have h := IndexMap.get_foldl_modify ([] : List Bytes)
    (fun (ds : List Deposit) data => data ++ ds.map codec.encodeDeposit) _ deposits.nodup m id
  unfold extendDeposits IndexMap.get
  unfold IndexMap.get at h
  exact h

/-- `derive_merkle_tree_from_rollup_txs`. -/
def deriveMerkleTreeFromRollupTxs (datas : RollupDatas) : Merkle.Tree Bytes32 :=
  Merkle.Tree.fromLeaves (datas.map fun e =>
    e.1.inner.toList ++ (Merkle.Tree.fromLeaves e.2 : Merkle.Tree Bytes32).root.toList)

omit codec in
theorem root_deriveMerkleTree (datas : RollupDatas) :
    (deriveMerkleTreeFromRollupTxs datas).root = Sequencer.rollupTransactionsRoot datas := rfl

/-- `do_rollup_transactions_match_root`. -/
def doRollupTransactionsMatchRoot (txs : RollupTransactions) (root : Bytes32) : Option Bool :=
  txs.proof.verify
    (txs.rollupId.inner.toList ++
      (Merkle.Tree.fromLeaves txs.transactions : Merkle.Tree Bytes32).root.toList) root

end

/-! ## The builder -/

/-- `SequencerBlockBuilder`. -/
structure SequencerBlockBuilder where
  blockHash : BlockHash
  chainId : String
  height : ℕ
  time : Time
  proposerAddress : AddressBytes
  expandedBlockData : ExpandedBlockData
  deposits : IndexMap RollupId (List Deposit)

namespace SequencerBlockBuilder

variable [ext : External] [codec : BlockCodec]

/-- The data of every rollup, sorted by rollup id. -/
def rollupDatas (builder : SequencerBlockBuilder) : RollupDatas :=
  ((extendDeposits builder.deposits
    (collectSubmissions builder.expandedBlockData.userSubmittedTransactions)).sortKeys
      RollupId.Lt).entries

/-- The rollup transactions with their proofs. -/
def proveRollupTransactions (tree : Merkle.Tree Bytes32) :
    ℕ → RollupDatas → Except Report (List (RollupId × RollupTransactions))
  | _, [] => .ok []
  | i, (id, data) :: rest => do
    let proof ← okOr (tree.constructProof i)
      ["the proof must exist because the tree was derived with the same leaf"]
    let entries ← proveRollupTransactions tree (i + 1) rest
    .ok ((id, { rollupId := id, transactions := data, proof := proof }) :: entries)

def header (builder : SequencerBlockBuilder) : SequencerBlockHeader :=
  { chainId := builder.chainId
    height := builder.height
    time := builder.time
    rollupTransactionsRoot := builder.expandedBlockData.rollupTransactionsRoot
    dataHash := builder.expandedBlockData.dataRootHash
    proposerAddress := builder.proposerAddress }

/-- The block with its rollup transactions. -/
def toBlock (builder : SequencerBlockBuilder)
    (rollupTransactions : IndexMap RollupId RollupTransactions) : SequencerBlock :=
  let data := builder.expandedBlockData
  { blockHash := builder.blockHash
    header := builder.header
    rollupTransactions := rollupTransactions
    rollupTransactionsProof := data.rollupTransactionsProof
    rollupIdsProof := data.rollupIdsProof
    upgradeChangeHashes := data.upgradeChangeHashes
    extendedCommitInfoWithProof := data.extendedCommitInfoWithProof }

/-- `SequencerBlockBuilder::try_build`. -/
def tryBuild (builder : SequencerBlockBuilder) : Except Report SequencerBlock :=
  let data := builder.expandedBlockData
  let datas := builder.rollupDatas
  if data.rollupIdsRoot ≠ Sequencer.rollupIdsRoot datas then
    .error ["the root derived from the rollup IDs in the cometbft `block.data` field did not match " ++
      "the root stored in the same block.data field"]
  else
    let tree := deriveMerkleTreeFromRollupTxs datas
    if data.rollupTransactionsRoot ≠ tree.root then
      .error ["the root derived from the rollup transactions in the cometbft `block.data` field did " ++
        "not match the root stored in the same block.data field"]
    else do
      let entries ← proveRollupTransactions tree 0 datas
      .ok (builder.toBlock ((IndexMap.collect entries).sortKeys RollupId.Lt))

omit codec in
theorem proveRollupTransactions_eq_ok {all : RollupDatas} (h64 : all.length ≤ 2 ^ 63)
    {before datas : RollupDatas} (hsplit : all = before ++ datas) :
    ∃ entries,
      proveRollupTransactions (deriveMerkleTreeFromRollupTxs all) before.length datas = .ok entries ∧
      (entries.map fun e => (e.1, e.2.transactions)) = datas ∧
      ∀ e ∈ entries, e.1 = e.2.rollupId ∧ ProofInTree e.2.proof ∧
        doRollupTransactionsMatchRoot e.2 (deriveMerkleTreeFromRollupTxs all).root = some true := by
  induction datas generalizing before with
  | nil => exact ⟨[], rfl, rfl, fun e he => absurd he List.not_mem_nil⟩
  | cons d datas ih =>
    obtain ⟨id, data⟩ := d
    have hlen : before.length < all.length := by
      rw [hsplit, List.length_append, List.length_cons]
      omega
    obtain ⟨proof, hproof, hindex, hsize, hverify⟩ := Merkle.constructProof_verify (D := Bytes32)
      (all.map fun e =>
        e.1.inner.toList ++ (Merkle.Tree.fromLeaves e.2 : Merkle.Tree Bytes32).root.toList)
      (j := before.length) (by rw [List.length_map]; exact h64) (by rw [List.length_map]; exact hlen)
    obtain ⟨entries, hentries, hdatas, hall⟩ := @ih (before ++ [(id, data)])
      (by rw [hsplit, List.append_assoc]; rfl)
    rw [List.length_append, List.length_singleton] at hentries
    refine ⟨(id, { rollupId := id, transactions := data, proof := proof }) :: entries, ?_, ?_, ?_⟩
    · rw [proveRollupTransactions]
      exact Codec.bind_eq_ok.mpr ⟨proof, okOr_eq_ok.mpr hproof, Codec.bind_eq_ok.mpr ⟨entries, hentries, rfl⟩⟩
    · rw [List.map_cons, hdatas]
    · intro e he
      rcases List.mem_cons.mp he with rfl | he
      · refine ⟨rfl, ⟨?_, ?_⟩, ?_⟩
        · dsimp only
          rw [List.length_map] at hsize
          rw [hindex, hsize]
          omega
        · dsimp only
          rw [List.length_map] at hsize
          rw [hsize, u64Max]
          omega
        · have hget : all[before.length] = (id, data) := by
            apply Option.some.inj
            rw [← List.getElem?_eq_getElem hlen, hsplit, List.getElem?_append_right (le_refl _),
              Nat.sub_self]
            rfl
          rw [List.getElem_map, hget] at hverify
          exact hverify
      · exact hall e he

/-- What the builder makes of roots that are right. -/
theorem tryBuild_eq_ok {builder : SequencerBlockBuilder}
    (h64 : builder.rollupDatas.length ≤ 2 ^ 63)
    (hids : builder.expandedBlockData.rollupIdsRoot = Sequencer.rollupIdsRoot builder.rollupDatas)
    (htxs : builder.expandedBlockData.rollupTransactionsRoot =
      Sequencer.rollupTransactionsRoot builder.rollupDatas) :
    ∃ txs : IndexMap RollupId RollupTransactions,
      builder.tryBuild = .ok (builder.toBlock txs) ∧ rollupDatasOf txs = builder.rollupDatas ∧
      ∀ e ∈ txs.entries, e.1 = e.2.rollupId ∧ ProofInTree e.2.proof ∧
        doRollupTransactionsMatchRoot e.2 builder.expandedBlockData.rollupTransactionsRoot =
          some true := by
  obtain ⟨entries, hentries, hdatas, hall⟩ := proveRollupTransactions_eq_ok h64
    (List.nil_append builder.rollupDatas).symm
  have hkeys : entries.map (·.1) = builder.rollupDatas.map (·.1) := by
    rw [← hdatas, List.map_map]
    rfl
  have hsorted : SortedMap.Sorted RollupId.Lt builder.rollupDatas :=
    IndexMap.sorted_sortEntries RollupId.Lt _
  have hsorted' : SortedMap.Sorted RollupId.Lt entries := by
    have h := (List.pairwise_map (f := fun e : RollupId × List Bytes => e.1)).mpr hsorted
    rw [← hkeys] at h
    exact List.pairwise_map.mp h
  have hcollect : ((IndexMap.collect entries).sortKeys RollupId.Lt).entries = entries := by
    show IndexMap.sortEntries RollupId.Lt (IndexMap.collect entries).entries = entries
    rw [IndexMap.entries_collect hsorted'.nodup, IndexMap.sortEntries_of_sorted _ hsorted']
  refine ⟨(IndexMap.collect entries).sortKeys RollupId.Lt, ?_, ?_, ?_⟩
  · unfold tryBuild
    dsimp only
    rw [← root_deriveMerkleTree] at htxs
    rw [if_neg (not_not_intro hids), if_neg (not_not_intro htxs)]
    exact Codec.bind_eq_ok.mpr ⟨entries, hentries, rfl⟩
  · rw [rollupDatasOf, hcollect, hdatas]
  · rw [hcollect, htxs]
    exact hall

end SequencerBlockBuilder

end Astria.Core
