import Astria.Core.BlockConversions
import Astria.Merkle.TreeHash
import Astria.Sequencer.TestUtils

/-!
# Malformed proofs

What a raw merkle proof does to the one who checks it: its conversion
(`astria-core/src/primitive/v1/mod.rs`, `astria-merkle/src/audit.rs`, `UncheckedProof::try_into_proof`),
and the reconstruction of a root with the proof that comes out.  The proof is what a stranger sends;
nothing but its conversion checks it.

The conversion doubles the leaf index before it compares it with the size, and it does not ask how
long the audit path is: a path with more digests than there are nodes above the leaf walks past the
root, out of the range of the words.

Results:
* `tryIntoProof_eq_ok`, `tryIntoProof_panics_iff`: when the conversion succeeds, and when it panics;
* `harmless_iff`: for which raw proofs nothing panics.
-/

namespace Astria.Core

open Astria.Lib Astria.Merkle
open Astria.Sequencer (External)

/-! ## The conversion -/

/-- Bytes that are long enough hold digests. -/
theorem exists_readDigests (count : ℕ) {bytes : Bytes} (h : 32 * count ≤ bytes.length) :
    ∃ digests, readDigests count bytes = some digests ∧ digests.length = count := by
  induction count generalizing bytes with
  | zero => exact ⟨[], rfl, rfl⟩
  | succ count ih =>
    have hlen : (bytes.take 32).length = 32 := by
      rw [List.length_take]
      omega
    have hrest : 32 * count ≤ (bytes.drop 32).length := by
      rw [List.length_drop]
      omega
    obtain ⟨digests, hdigests, hcount⟩ := ih hrest
    refine ⟨(⟨bytes.take 32, hlen⟩ : Bytes32) :: digests, ?_, congrArg (· + 1) hcount⟩
    rw [readDigests, Sequencer.toBytes32, dif_pos hlen, hdigests]
    rfl

namespace RawProof

/-- What the conversion asks for, once it has doubled the leaf index. -/
def Accepted (raw : RawProof) : Prop :=
  2 * raw.leafIndex < raw.treeSize ∧ raw.auditPath.length % 32 = 0

theorem tryIntoProof_eq_ok {raw : RawProof} (h : raw.Accepted) (hsize : raw.treeSize ≤ u64Max) :
    ∃ path, path.length = raw.auditPath.length / 32 ∧
      raw.tryIntoProof =
        .ok { auditPath := path, leafIndex := raw.leafIndex, treeSize := raw.treeSize } := by
  obtain ⟨hin, hpath⟩ := h
  have hlong : 32 * (raw.auditPath.length / 32) ≤ raw.auditPath.length := by omega
  obtain ⟨path, hread, hlen⟩ := exists_readDigests _ hlong
  refine ⟨path, hlen, ?_⟩
  unfold tryIntoProof
  rw [if_neg (by omega), if_neg (by omega), if_neg (by omega), if_neg (by omega), hread]

theorem tryIntoProof_ok {raw : RawProof} {proof : Merkle.Proof Bytes32}
    (h : raw.tryIntoProof = .ok proof) : raw.Accepted := by
  unfold tryIntoProof at h
  dsimp only at h
  split_ifs at h with hzero hword hin hpath
  exact ⟨by omega, by omega⟩

/-- The conversion panics on the indices that it cannot double. -/
theorem tryIntoProof_panics_iff {raw : RawProof} :
    raw.tryIntoProof = .error unwrapPanic ↔ raw.treeSize ≠ 0 ∧ u64Max < 2 * raw.leafIndex := by
  unfold tryIntoProof unwrapPanic
  dsimp only
  by_cases hzero : raw.treeSize = 0
  · rw [if_pos hzero]
    simp [hzero]
  · rw [if_neg hzero]
    by_cases hword : u64Max < 2 * raw.leafIndex
    · rw [if_pos hword]
      exact iff_of_true rfl ⟨hzero, hword⟩
    · rw [if_neg hword]
      by_cases hin : raw.treeSize ≤ 2 * raw.leafIndex
      · rw [if_pos hin]
        simp [hword]
      · rw [if_neg hin]
        by_cases hpath : raw.auditPath.length % 32 ≠ 0
        · rw [if_pos hpath]
          simp [hword]
        · have hlong : 32 * (raw.auditPath.length / 32) ≤ raw.auditPath.length := by omega
          obtain ⟨path, hread, -⟩ := exists_readDigests _ hlong
          rw [if_neg hpath, hread]
          simp [hword]

end RawProof

/-! ## Checking with the proof -/

section

variable [ext : External]

/-- The conversion does not panic, and with the proof that it gives, roots are reconstructed and
leaves are verified without a panic, and in a finite time. -/
def Harmless (raw : RawProof) : Prop :=
  raw.tryIntoProof ≠ .error unwrapPanic ∧
    ∀ proof, raw.tryIntoProof = .ok proof → ∀ leaf : Bytes,
      (Machine.reconstructRootWithLeaf proof leaf).Returns ∧
        ∀ rootHash, (Machine.verify proof leaf rootHash).Returns

/-- With a proof of the right shape, reconstructing a root ends, with or without a panic; it panics when
the path has more digests than there are nodes above the leaf. -/
theorem returns_reconstructRootWithLeaf {proof : Merkle.Proof Bytes32} (h : Machine.InTree proof)
    (leaf : Bytes) :
    (Machine.reconstructRootWithLeaf proof leaf).Returns ↔
      proof.auditPath.length ≤ (Machine.levelsAbove proof.leafIndex proof.treeSize 0).length := by
  have hlevels := Machine.reconstructLoop_ne_none (j := proof.leafIndex) h.2 proof.auditPath
    (Nat.zero_le 64) (hashLeaf leaf)
  rw [pow_zero, Nat.div_one, index_zero] at hlevels
  rw [Machine.reconstructRootWithLeaf, Machine.reconstructRootWithLeafHash_eq h,
    Outcome.returns_ofOption]
  exact hlevels

theorem returns_verify {proof : Merkle.Proof Bytes32} {leaf : Bytes} (rootHash : Bytes32)
    (h : (Machine.reconstructRootWithLeaf proof leaf).Returns) :
    (Machine.verify proof leaf rootHash).Returns := by
  obtain ⟨reconstructed, hreconstructed⟩ := h
  unfold Machine.verify
  rw [hreconstructed]
  exact Outcome.returns_returns _

/-- A raw proof does no harm exactly if its tree is empty, or if its leaf index can be doubled and it
is refused for its index or for its path, or its path is not too long. -/
theorem harmless_iff (auditPath : Bytes) (leafIndex treeSize : UInt64) :
    Harmless { auditPath := auditPath, leafIndex := leafIndex.toNat, treeSize := treeSize.toNat } ↔
      treeSize.toNat = 0 ∨ leafIndex.toNat < 2 ^ 63 ∧
        (treeSize.toNat ≤ 2 * leafIndex.toNat ∨ auditPath.length % 32 ≠ 0 ∨
          auditPath.length / 32 ≤
            (Machine.levelsAbove leafIndex.toNat treeSize.toNat 0).length) := by
  have hsize : treeSize.toNat ≤ u64Max := by
    have := treeSize.toNat_lt
    unfold u64Max
    omega
  have hword : u64Max < 2 * leafIndex.toNat ↔ ¬ leafIndex.toNat < 2 ^ 63 := by
    unfold u64Max
    omega
  unfold Harmless
  rw [Ne, RawProof.tryIntoProof_panics_iff]
  dsimp only
  rw [hword]
  by_cases haccepted : RawProof.Accepted
      { auditPath := auditPath, leafIndex := leafIndex.toNat, treeSize := treeSize.toNat }
  · obtain ⟨path, hlen, hok⟩ := RawProof.tryIntoProof_eq_ok haccepted hsize
    obtain ⟨hin, hpath⟩ := haccepted
    dsimp only at hin hpath hlen hok
    have hinTree : Machine.InTree
        (⟨path, leafIndex.toNat, treeSize.toNat⟩ : Merkle.Proof Bytes32) := ⟨hin, hsize⟩
    have hreturns := returns_reconstructRootWithLeaf hinTree
    dsimp only at hreturns
    rw [hlen] at hreturns
    constructor
    · rintro ⟨hpanic, hall⟩
      have := (hreturns []).mp (hall _ hok []).1
      exact Or.inr ⟨by omega, Or.inr (Or.inr this)⟩
    · intro hcond
      have hle : auditPath.length / 32 ≤
          (Machine.levelsAbove leafIndex.toNat treeSize.toNat 0).length := by
        rcases hcond with h | ⟨-, h | h | h⟩
        · omega
        · omega
        · exact absurd hpath h
        · exact h
      refine ⟨by omega, ?_⟩
      intro proof hproof leaf
      rw [hok] at hproof
      obtain rfl := Except.ok.inj hproof
      have hroot := (hreturns leaf).mpr hle
      exact ⟨hroot, fun rootHash => returns_verify rootHash hroot⟩
  · have hrefused (proof : Merkle.Proof Bytes32) (hproof : RawProof.tryIntoProof
        { auditPath := auditPath, leafIndex := leafIndex.toNat, treeSize := treeSize.toNat } =
          .ok proof) : False := haccepted (RawProof.tryIntoProof_ok hproof)
    have hnot : treeSize.toNat ≤ 2 * leafIndex.toNat ∨ auditPath.length % 32 ≠ 0 := by
      unfold RawProof.Accepted at haccepted
      dsimp only at haccepted
      by_contra hboth
      exact haccepted ⟨by omega, by omega⟩
    constructor
    · rintro ⟨hpanic, -⟩
      by_cases hzero : treeSize.toNat = 0
      · exact Or.inl hzero
      · refine Or.inr ⟨by omega, ?_⟩
        rcases hnot with h | h
        · exact Or.inl h
        · exact Or.inr (Or.inl h)
    · intro hcond
      refine ⟨by omega, ?_⟩
      intro proof hproof
      exact (hrefused proof hproof).elim

end

section

open scoped Sequencer.TestUtils

/-- A raw proof of the only leaf of a tree, with a path of one digest, is converted, but no root can be
reconstructed with it; one with the leaf index `2 ^ 63` is not even converted. -/
theorem longPath_panics :
    (∃ proof, RawProof.tryIntoProof
      { auditPath := List.replicate 32 0, leafIndex := 0, treeSize := 1 } = .ok proof ∧
        Machine.reconstructRootWithLeaf proof [] = .panics) ∧
    RawProof.tryIntoProof { auditPath := [], leafIndex := 2 ^ 63, treeSize := 1 } =
      .error unwrapPanic ∧
    ¬ Harmless { auditPath := List.replicate 32 0, leafIndex := 0, treeSize := 1 } := by
  have hpanics : Machine.reconstructRootWithLeaf
      (⟨[List.Vector.replicate 32 0], 0, 1⟩ : Merkle.Proof Bytes32) [] = .panics := by
    decide +kernel
  have hok : RawProof.tryIntoProof
      { auditPath := List.replicate 32 0, leafIndex := 0, treeSize := 1 } =
        .ok { auditPath := [List.Vector.replicate 32 0], leafIndex := 0, treeSize := 1 } := by
    decide +kernel
  refine ⟨⟨_, hok, hpanics⟩, RawProof.tryIntoProof_panics_iff.mpr (by decide), ?_⟩
  rintro ⟨-, hall⟩
  have hreturns := (hall _ hok []).1
  rw [hpanics] at hreturns
  exact Outcome.not_returns_panics hreturns

end

end Astria.Core
