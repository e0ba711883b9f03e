import Astria.Core.BlockConversions
import Astria.Merkle.Inclusion
import Astria.Sequencer.TestUtils

/-!
# What the data hash binds

What two raw blocks with one data hash have in common when both are accepted
(`SequencerBlock::try_from_raw`, `astria-core/src/sequencerblock/v1/block/mod.rs`).  A part of a block
is checked against the data hash by a proof of inclusion, which comes with the block: where the proof
says that the part is, nobody checks, and the upgrade change hashes have no proof at all.

No hash function of finite length is injective; what is asked of it is that it does not collide on
the bytes that are hashed while the two blocks are checked.

Results:
* `included_injOn`: proofs at one position include one item only;
* `rollupTransactionsRoot_injOn`, `rollupIdsRoot_injOn`: the roots of the rollup data and of the ids
  determine them;
* `dataHash_binds`: parts that are proved at the same position are the same;
* `tryFromRaw_withChangeHashes`: the upgrade change hashes can be exchanged for any others;
* `dataHash_neverBinds`: no data hash binds everything that is delivered next to the header, and which
  differences go undetected.
-/

namespace Astria.Core

open Astria.Lib Astria.Lib.HashTree
open Astria.Sequencer (BlockCodec External RollupDatas rollupIdsRoot rollupTransactionsRoot)

/-- A function that tells the items of two lists apart tells the lists apart. -/
theorem eq_of_map_eq {α β : Type} {f : α → β} {k l : List α}
    (hf : ∀ a ∈ k, ∀ b ∈ l, f a = f b → a = b) (h : k.map f = l.map f) : k = l := by
  induction k generalizing l with
  | nil => exact (List.map_eq_nil_iff.mp h.symm).symm
  | cons a k ih =>
    cases l with
    | nil => exact absurd h (List.cons_ne_nil _ _)
    | cons b l =>
      rw [List.map_cons, List.map_cons] at h
      obtain ⟨hab, hkl⟩ := List.cons.inj h
      rw [hf a (List.mem_cons_self ..) b (List.mem_cons_self ..) hab,
        ih (fun x hx y hy => hf x (List.mem_cons_of_mem _ hx) y (List.mem_cons_of_mem _ hy)) hkl]

section

variable [ext : External]

/-! ## Collisions -/

/-- The hash does not collide on these byte strings. -/
def CollisionFree (l : List Bytes) : Prop :=
  ∀ a ∈ l, ∀ b ∈ l, ext.sha256 a = ext.sha256 b → a = b

instance (l : List Bytes) : Decidable (CollisionFree l) := by
  unfold CollisionFree
  infer_instance

theorem CollisionFree.injOn {l : List Bytes} (h : CollisionFree l) :
    Set.InjOn ext.sha256 {bytes | bytes ∈ l} :=
  fun a ha b hb hab => h a ha b hb hab

theorem CollisionFree.mono {k l : List Bytes} (h : CollisionFree l) (hsub : k ⊆ l) :
    CollisionFree k :=
  fun a ha b hb hab => h a (hsub ha) b (hsub hb) hab

/-- Digests have a fixed length. -/
theorem splits_bytes32 : Merkle.Splits Bytes32 := by
  intro l r l' r' h
  have hlen : l.toList.length = l'.toList.length := by
    rw [List.Vector.toList_length, List.Vector.toList_length]
  obtain ⟨hl, hr⟩ := List.append_inj h hlen
  exact ⟨List.Vector.toList_injective hl, List.Vector.toList_injective hr⟩

/-! ## Inclusion -/

/-- What is hashed when the inclusion of an item is checked. -/
def hashedByProof (proof : Merkle.Proof Bytes32) (item : Bytes) : List Bytes :=
  item :: (proof.inputs (ext.sha256 item).toList).map Merkle.encodeInput

theorem included_injOn {l : List Bytes} (hl : CollisionFree l) {p q : Merkle.Proof Bytes32}
    (hpos : p.SamePosition q) {a b : Bytes} {root : Bytes32} (ha : hashedByProof p a ⊆ l)
    (hb : hashedByProof q b ⊆ l) (hp : p.verify (ext.sha256 a).toList root = some true)
    (hq : q.verify (ext.sha256 b).toList root = some true) : a = b := by
  have hS := Merkle.hashInput_injOn splits_bytes32 hl.injOn
  have hleaf : (ext.sha256 a).toList = (ext.sha256 b).toList := by
    refine Merkle.Proof.verify_injOn hS hpos ?_ ?_ hp hq
    · intro i hi
      exact ha (List.mem_cons_of_mem _ (List.mem_map_of_mem hi))
    · intro i hi
      exact hb (List.mem_cons_of_mem _ (List.mem_map_of_mem hi))
  exact hl a (ha (List.mem_cons_self ..)) b (hb (List.mem_cons_self ..))
    (List.Vector.toList_injective hleaf)

/-! ## The roots of the rollup data -/

omit ext in
theorem toList_inner_injective : Function.Injective fun id : RollupId => id.inner.toList := by
  rintro ⟨a⟩ ⟨b⟩ hab
  exact congrArg RollupId.mk (List.Vector.toList_injective hab)

/-- The leaf of a rollup. -/
def rollupLeaf (e : RollupId × List Bytes) : Bytes :=
  e.1.inner.toList ++ (Merkle.Tree.fromLeaves e.2 : Merkle.Tree Bytes32).root.toList

/-- What is hashed for the root of the rollup data. -/
def hashedByDatas (datas : RollupDatas) : List Bytes :=
  Merkle.treeBytes Bytes32 (datas.map rollupLeaf) ++
    datas.flatMap fun e => Merkle.treeBytes Bytes32 e.2

/-- What is hashed for the root of the rollup ids. -/
def hashedByIds (datas : RollupDatas) : List Bytes :=
  Merkle.treeBytes Bytes32 (datas.map fun e => e.1.inner.toList)

/-- No list has more items than a machine can address. -/
def Addressable (datas : RollupDatas) : Prop :=
  datas.length ≤ 2 ^ 63 ∧ ∀ e ∈ datas, e.2.length ≤ 2 ^ 63

theorem rollupLeaf_inj {l : List Bytes} (hl : CollisionFree l) {e d : RollupId × List Bytes}
    (he64 : e.2.length ≤ 2 ^ 63) (hd64 : d.2.length ≤ 2 ^ 63)
    (he : Merkle.treeBytes Bytes32 e.2 ⊆ l) (hd : Merkle.treeBytes Bytes32 d.2 ⊆ l)
    (h : rollupLeaf e = rollupLeaf d) : e = d := by
  have hlen : e.1.inner.toList.length = d.1.inner.toList.length := by
    rw [List.Vector.toList_length, List.Vector.toList_length]
  obtain ⟨hid, hroot⟩ := List.append_inj h hlen
  have hdata : e.2 = d.2 := Merkle.root_fromLeaves_injOn splits_bytes32 hl.injOn he64 hd64
    (fun _ hi => he hi) (fun _ hi => hd hi) (List.Vector.toList_injective hroot)
  exact Prod.ext (toList_inner_injective hid) hdata

theorem rollupTransactionsRoot_injOn {l : List Bytes} (hl : CollisionFree l)
    {datas datas' : RollupDatas} (h64 : Addressable datas) (h64' : Addressable datas')
    (hin : hashedByDatas datas ⊆ l) (hin' : hashedByDatas datas' ⊆ l)
    (h : rollupTransactionsRoot datas = rollupTransactionsRoot datas') : datas = datas' := by
  have hleaves : datas.map rollupLeaf = datas'.map rollupLeaf := by
    refine Merkle.root_fromLeaves_injOn splits_bytes32 hl.injOn ?_ ?_ ?_ ?_ h
    · rw [List.length_map]
      exact h64.1
    · rw [List.length_map]
      exact h64'.1
    · exact fun i hi => hin (List.mem_append_left _ hi)
    · exact fun i hi => hin' (List.mem_append_left _ hi)
  refine eq_of_map_eq ?_ hleaves
  intro e he d hd
  refine rollupLeaf_inj hl (h64.2 e he) (h64'.2 d hd) ?_ ?_
  · intro i hi
    exact hin (List.mem_append_right _ (List.mem_flatMap.mpr ⟨e, he, hi⟩))
  · intro i hi
    exact hin' (List.mem_append_right _ (List.mem_flatMap.mpr ⟨d, hd, hi⟩))

theorem rollupIdsRoot_injOn {l : List Bytes} (hl : CollisionFree l) {datas datas' : RollupDatas}
    (h64 : Addressable datas) (h64' : Addressable datas') (hin : hashedByIds datas ⊆ l)
    (hin' : hashedByIds datas' ⊆ l) (h : rollupIdsRoot datas = rollupIdsRoot datas') :
    datas.map (·.1) = datas'.map (·.1) := by
  have hleaves : (datas.map fun e => e.1.inner.toList) = datas'.map fun e => e.1.inner.toList := by
    refine Merkle.root_fromLeaves_injOn splits_bytes32 hl.injOn ?_ ?_ ?_ ?_ h
    · rw [List.length_map]
      exact h64.1
    · rw [List.length_map]
      exact h64'.1
    · exact fun i hi => hin hi
    · exact fun i hi => hin' hi
  apply toList_inner_injective.list_map
  rw [List.map_map, List.map_map]
  exact hleaves

end

/-! ## Blocks -/

namespace SequencerBlock

/-- The data of the rollups of a block. -/
def rollupDatas (block : SequencerBlock) : RollupDatas := rollupDatasOf block.rollupTransactions

section

variable [ext : External]

/-- What is hashed when the extended commit info is checked. -/
def hashedByInfo : Option ExtendedCommitInfoWithProof → List Bytes
  | none => []
  | some info => hashedByProof info.proof info.encodedExtendedCommitInfo

/-- What is hashed when a block is checked. -/
def hashed (block : SequencerBlock) : List Bytes :=
  hashedByProof block.rollupTransactionsProof block.header.rollupTransactionsRoot.toList ++
    hashedByProof block.rollupTransactionsProof (rollupTransactionsRoot block.rollupDatas).toList ++
    hashedByProof block.rollupIdsProof (rollupIdsRoot block.rollupDatas).toList ++
    hashedByInfo block.extendedCommitInfoWithProof ++
    hashedByDatas block.rollupDatas ++ hashedByIds block.rollupDatas

end

variable [ext : External] [times : TimeCodec] [codec : BlockCodec]

/-- In a block that was accepted the root of the header is that of the rollup data: one proof is
checked for both. -/
theorem root_of_tryFromRaw {raw : RawSequencerBlock} {block : SequencerBlock}
    (h : tryFromRaw raw = .ok block) {l : List Bytes} (hl : CollisionFree l)
    (hin : block.hashed ⊆ l) :
    block.header.rollupTransactionsRoot = rollupTransactionsRoot block.rollupDatas := by
  have hv := tryFromRaw_verified h
  simp only [hashed, List.append_subset] at hin
  obtain ⟨⟨⟨⟨⟨hroot, htxs⟩, -⟩, -⟩, -⟩, -⟩ := hin
  exact List.Vector.toList_injective (included_injOn hl ⟨rfl, rfl, rfl⟩ hroot htxs hv.root
    hv.transactions)

/-- What the data hash says of two blocks that were accepted: the parts that are proved at the same
position of the tree are the same. -/
theorem dataHash_binds {raw raw' : RawSequencerBlock} {block block' : SequencerBlock}
    (h : tryFromRaw raw = .ok block) (h' : tryFromRaw raw' = .ok block')
    (hl : CollisionFree (block.hashed ++ block'.hashed)) (h64 : Addressable block.rollupDatas)
    (h64' : Addressable block'.rollupDatas)
    (hdata : block.header.dataHash = block'.header.dataHash) :
    block.header.rollupTransactionsRoot = rollupTransactionsRoot block.rollupDatas ∧
    block'.header.rollupTransactionsRoot = rollupTransactionsRoot block'.rollupDatas ∧
    (block.rollupTransactionsProof.SamePosition block'.rollupTransactionsProof →
      block.header.rollupTransactionsRoot = block'.header.rollupTransactionsRoot ∧
      block.rollupDatas = block'.rollupDatas) ∧
    (block.rollupIdsProof.SamePosition block'.rollupIdsProof →
      block.rollupDatas.map (·.1) = block'.rollupDatas.map (·.1)) ∧
    ∀ info ∈ block.extendedCommitInfoWithProof, ∀ info' ∈ block'.extendedCommitInfoWithProof,
      info.proof.SamePosition info'.proof →
        info.encodedExtendedCommitInfo = info'.encodedExtendedCommitInfo ∧
        info.extendedCommitInfo = info'.extendedCommitInfo := by
  have hv := tryFromRaw_verified h
  obtain ⟨-, htxsVerified, hidsVerified, hinfoVerified⟩ := tryFromRaw_verified h'
  rw [← hdata] at htxsVerified hidsVerified
  have hin : block.hashed ⊆ block.hashed ++ block'.hashed := List.subset_append_left _ _
  have hin' : block'.hashed ⊆ block.hashed ++ block'.hashed := List.subset_append_right _ _
  have hroot := root_of_tryFromRaw h hl hin
  have hroot' := root_of_tryFromRaw h' hl hin'
  generalize block.hashed ++ block'.hashed = l at hl hin hin'
  simp only [hashed, List.append_subset] at hin hin'
  obtain ⟨⟨⟨⟨⟨-, htxs⟩, hids⟩, hinfo⟩, hdatas⟩, hidDatas⟩ := hin
  obtain ⟨⟨⟨⟨⟨-, htxs'⟩, hids'⟩, hinfo'⟩, hdatas'⟩, hidDatas'⟩ := hin'
  refine ⟨hroot, hroot', ?_, ?_, ?_⟩
  · intro hpos
    have heq := List.Vector.toList_injective
      (included_injOn hl hpos htxs htxs' hv.transactions htxsVerified)
    refine ⟨by rw [hroot, hroot', heq], ?_⟩
    exact rollupTransactionsRoot_injOn hl h64 h64' hdatas hdatas' heq
  · intro hpos
    have heq := List.Vector.toList_injective
      (included_injOn hl hpos hids hids' hv.ids hidsVerified)
    exact rollupIdsRoot_injOn hl h64 h64' hidDatas hidDatas' heq
  · intro info hmem info' hmem' hpos
    have hsome := Option.mem_def.mp hmem
    have hsome' := Option.mem_def.mp hmem'
    rw [hsome, hashedByInfo] at hinfo
    rw [hsome', hashedByInfo] at hinfo'
    have hverified := hv.extendedCommitInfo info hsome
    have hverified' := hinfoVerified info' hsome'
    rw [← hdata] at hverified'
    have heq := included_injOn hl hpos hinfo hinfo' hverified.included hverified'.included
    refine ⟨heq, ?_⟩
    have hparsed := hverified.parsed
    rw [heq, hverified'.parsed] at hparsed
    exact (Except.ok.inj hparsed).symm

/-! ### What can be altered -/

/-- Two blocks agree on what is delivered next to the header. -/
structure Agree (block block' : SequencerBlock) : Prop where
  root : block.header.rollupTransactionsRoot = block'.header.rollupTransactionsRoot
  datas : block.rollupDatas = block'.rollupDatas
  info : (block.extendedCommitInfoWithProof.map fun i =>
      (i.extendedCommitInfo, i.encodedExtendedCommitInfo)) =
    block'.extendedCommitInfoWithProof.map fun i => (i.extendedCommitInfo, i.encodedExtendedCommitInfo)
  hashes : block.upgradeChangeHashes = block'.upgradeChangeHashes

/-- The proofs of two blocks are about the same leaves. -/
structure SamePlaces (block block' : SequencerBlock) : Prop where
  transactions : block.rollupTransactionsProof.SamePosition block'.rollupTransactionsProof
  info : ∀ info ∈ block.extendedCommitInfoWithProof, ∀ info' ∈ block'.extendedCommitInfoWithProof,
    info.proof.SamePosition info'.proof

/-- Nothing next to the header of a raw block can be altered without detection: every raw block with its
data hash that is accepted agrees with it. -/
def DataHashBinds (raw : RawSequencerBlock) : Prop :=
  ∀ block, tryFromRaw raw = .ok block → ∀ raw' block', tryFromRaw raw' = .ok block' →
    block.header.dataHash = block'.header.dataHash →
    CollisionFree (block.hashed ++ block'.hashed) →
    Addressable block.rollupDatas → Addressable block'.rollupDatas → block.Agree block'

/-- The upgrade change hashes have no proof. -/
theorem tryFromRaw_withChangeHashes {raw : RawSequencerBlock} {block : SequencerBlock}
    (h : tryFromRaw raw = .ok block) (hashes : List Bytes32) :
    tryFromRaw { raw with upgradeChangeHashes := hashes.map List.Vector.toList } =
      .ok { block with upgradeChangeHashes := hashes } := by
  have hread := tryFromRaw_eq_ok.mp h
  exact tryFromRaw_eq_ok.mpr
    { blockHash := hread.blockHash
      transactionsProof := hread.transactionsProof
      idsProof := hread.idsProof
      header := hread.header
      entries := hread.entries
      root := hread.root
      transactions := hread.transactions
      ids := hread.ids
      hashes := readChangeHashes_toList hashes
      info := hread.info }

theorem not_dataHashBinds {raw : RawSequencerBlock} {block : SequencerBlock}
    (h : tryFromRaw raw = .ok block) (hl : CollisionFree block.hashed)
    (h64 : Addressable block.rollupDatas) : ¬DataHashBinds raw := by
  intro hbinds
  have htwin := tryFromRaw_withChangeHashes h
    (List.Vector.replicate 32 0 :: block.upgradeChangeHashes)
  have hfree : CollisionFree (block.hashed ++ block.hashed) :=
    hl.mono (List.append_subset.mpr ⟨List.Subset.refl _, List.Subset.refl _⟩)
  have hagree := hbinds block h _ _ htwin rfl hfree h64 h64
  exact List.cons_ne_self _ _ hagree.hashes.symm

/-- With proofs about the same leaves, what goes undetected is another list of upgrade change hashes,
and an extended commit info that is left out. -/
theorem agree_iff {raw raw' : RawSequencerBlock} {block block' : SequencerBlock}
    (h : tryFromRaw raw = .ok block) (h' : tryFromRaw raw' = .ok block')
    (hl : CollisionFree (block.hashed ++ block'.hashed)) (h64 : Addressable block.rollupDatas)
    (h64' : Addressable block'.rollupDatas)
    (hdata : block.header.dataHash = block'.header.dataHash) (hplaces : block.SamePlaces block') :
    block.Agree block' ↔ raw.upgradeChangeHashes = raw'.upgradeChangeHashes ∧
      raw.extendedCommitInfoWithProof.isSome = raw'.extendedCommitInfoWithProof.isSome := by
  obtain ⟨-, -, htxs, -, hinfo⟩ := dataHash_binds h h' hl h64 h64' hdata
  obtain ⟨hroot, hdatas⟩ := htxs hplaces.transactions
  have hread := tryFromRaw_eq_ok.mp h
  have hread' := tryFromRaw_eq_ok.mp h'
  have hhashes := readChangeHashes_eq_ok.mp hread.hashes
  have hhashes' := readChangeHashes_eq_ok.mp hread'.hashes
  rw [hhashes, hhashes', isSome_of_readExtendedCommitInfo hread.info,
    isSome_of_readExtendedCommitInfo hread'.info]
  constructor
  · intro hagree
    rw [hagree.hashes]
    have hsome := congrArg Option.isSome hagree.info
    rw [Option.isSome_map, Option.isSome_map] at hsome
    exact ⟨rfl, hsome⟩
  · rintro ⟨heq, hsome⟩
    refine ⟨hroot, hdatas, ?_, List.map_injective_iff.mpr List.Vector.toList_injective heq⟩
    cases hi : block.extendedCommitInfoWithProof with
    | none =>
      rw [hi, Option.isSome_none] at hsome
      have hi' : block'.extendedCommitInfoWithProof = none :=
        Option.not_isSome_iff_eq_none.mp (by rw [← hsome]; exact Bool.false_ne_true)
      rw [hi', Option.map_none]
    | some info =>
      rw [hi, Option.isSome_some] at hsome
      obtain ⟨info', hi'⟩ := Option.isSome_iff_exists.mp hsome.symm
      obtain ⟨hencoded, hparsed⟩ := hinfo info hi info' hi'
        (hplaces.info info hi info' hi')
      rw [hi', Option.map_some, Option.map_some, hencoded, hparsed]

/-- No accepted block is bound by its data hash: the upgrade change hashes can be replaced in each.
Apart from them the data hash binds what is proved at one place, but not that it is delivered. -/
theorem dataHash_neverBinds {raw : RawSequencerBlock} {block : SequencerBlock}
    (h : tryFromRaw raw = .ok block) (hl : CollisionFree block.hashed)
    (h64 : Addressable block.rollupDatas) :
    ¬DataHashBinds raw ∧
    ∀ raw' block', tryFromRaw raw' = .ok block' →
      block.header.dataHash = block'.header.dataHash →
      CollisionFree (block.hashed ++ block'.hashed) → Addressable block'.rollupDatas →
      block.SamePlaces block' →
      (block.Agree block' ↔ raw.upgradeChangeHashes = raw'.upgradeChangeHashes ∧
        raw.extendedCommitInfoWithProof.isSome = raw'.extendedCommitInfoWithProof.isSome) :=
  ⟨not_dataHashBinds h hl h64, fun _ _ h' hdata hl' h64' hplaces =>
    agree_iff h h' hl' h64 h64' hdata hplaces⟩

end SequencerBlock

/-! ## A block without rollups -/

section

open scoped Astria.Sequencer.TestUtils

/-- The root of an empty tree. -/
def emptyRoot : Bytes32 := rollupTransactionsRoot []

/-- The two leaves of the data of a block without rollups and transactions, which are the same. -/
def emptyLeaf : Bytes32 := Merkle.hashLeaf (External.sha256 emptyRoot.toList).toList

def emptyBlock : SequencerBlock :=
  { blockHash := List.Vector.replicate 32 1
    header :=
      { chainId := "test"
        height := 2
        time := 0
        rollupTransactionsRoot := emptyRoot
        dataHash := Merkle.combine emptyLeaf emptyLeaf
        proposerAddress := List.Vector.replicate 20 0 }
    rollupTransactions := IndexMap.empty
    rollupTransactionsProof := { auditPath := [emptyLeaf], leafIndex := 0, treeSize := 3 }
    rollupIdsProof := { auditPath := [emptyLeaf], leafIndex := 1, treeSize := 3 }
    upgradeChangeHashes := []
    extendedCommitInfoWithProof := none }

/-- Either of the leaves, with the other one as its sibling. -/
theorem emptyBlock_verify :
    emptyBlock.rollupTransactionsProof.verify (External.sha256 emptyRoot.toList).toList
        emptyBlock.header.dataHash = some true ∧
      emptyBlock.rollupIdsProof.verify (External.sha256 emptyRoot.toList).toList
        emptyBlock.header.dataHash = some true := by
  have hparent : Merkle.completeParent 0 3 = some 1 ∧ Merkle.completeParent 2 3 = some 1 := by
    decide +kernel
  constructor
  · show Option.map _ (Merkle.reconstructLoop 3 [emptyLeaf] 0 emptyLeaf) = _
    rw [Merkle.reconstructLoop, hparent.1]
    exact congrArg some (decide_eq_true rfl)
  · show Option.map _ (Merkle.reconstructLoop 3 [emptyLeaf] 2 emptyLeaf) = _
    rw [Merkle.reconstructLoop, hparent.2]
    exact congrArg some (decide_eq_true rfl)

theorem emptyBlock_wellFormed : emptyBlock.WellFormed := by
  obtain ⟨htxs, hids⟩ := emptyBlock_verify
  constructor
  · exact
      { root := htxs
        transactions := htxs
        ids := hids
        extendedCommitInfo := fun info hinfo => absurd hinfo.symm (Option.some_ne_none info) }
  · exact ⟨by decide +kernel, by decide, by decide +kernel⟩
  · exact ⟨by decide, by decide⟩
  · exact ⟨by decide, by decide⟩
  · intro e he
    cases he
  · intro info hinfo
    cases hinfo

theorem emptyBlock_collisionFree : CollisionFree emptyBlock.hashed := by
  have hsub : emptyBlock.hashed ⊆ [[], emptyRoot.toList,
      0 :: (External.sha256 emptyRoot.toList).toList,
      1 :: (emptyLeaf.toList ++ emptyLeaf.toList)] := by
    decide +kernel
  exact CollisionFree.mono (by decide +kernel) hsub

theorem emptyBlock_addressable : Addressable emptyBlock.rollupDatas := by
  refine ⟨by decide, ?_⟩
  intro e he
  cases he

theorem dataHash_neverBinds_emptyBlock :
    ¬SequencerBlock.DataHashBinds emptyBlock.intoRaw :=
  (SequencerBlock.dataHash_neverBinds (SequencerBlock.tryFromRaw_intoRaw emptyBlock_wellFormed)
    emptyBlock_collisionFree emptyBlock_addressable).1

/-- The same message with an upgrade change hash is accepted, with the same header. -/
theorem emptyBlock_altered :
    ∃ block, SequencerBlock.tryFromRaw emptyBlock.intoRaw = .ok emptyBlock ∧
      SequencerBlock.tryFromRaw
        { emptyBlock.intoRaw with upgradeChangeHashes := [List.replicate 32 0] } = .ok block ∧
      emptyBlock.header.dataHash = block.header.dataHash ∧
      CollisionFree (emptyBlock.hashed ++ block.hashed) ∧ ¬emptyBlock.Agree block := by
  have hread := SequencerBlock.tryFromRaw_intoRaw emptyBlock_wellFormed
  refine ⟨_, hread, SequencerBlock.tryFromRaw_withChangeHashes hread [List.Vector.replicate 32 0],
    rfl, ?_, ?_⟩
  · exact emptyBlock_collisionFree.mono
      (List.append_subset.mpr ⟨List.Subset.refl _, List.Subset.refl _⟩)
  · intro hagree
    exact List.cons_ne_nil _ _ hagree.hashes.symm

end

end Astria.Core
