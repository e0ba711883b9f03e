import Astria.Sequencer.Grpc.StateExt
import Astria.Sequencer.TestUtils

/-!
# Blocks that are stored are read back

The round trip of the block store over any sequence of puts, from any state
(`astria-sequencer/src/grpc/state_ext.rs`).

Results:
* `keeps_putSequencerBlock`: a put writes the keys of its block and no others, also if it fails;
* `isOk_putSequencerBlock_iff`: it fails exactly if a value of the block cannot be serialized;
* `stored_of_put`, `Stored.put`: a put that succeeds stores its block, and no put of a block with
  another height and hash disturbs it;
* `Stored.holds`: what is stored as bytes is the block for the server of filtered blocks;
* `sequencerBlocks_roundTrip`: the blocks of any sequence of puts are read back as they were.
-/

namespace Astria.Grpc

open Astria.Core Astria.Lib
open Astria.Sequencer (BlockCodec BlockHash External wrapErr)

/-! ## The keys of a block -/

/-- The key is one of those that hold the parts of the block of a hash. -/
def Key.OfHash (hash : BlockHash) : Key → Prop
  | .blockHash _ => False
  | .header h | .rollupData h _ | .rollupIds h | .rollupTransactionsProof h | .rollupIdsProof h
  | .upgradeChangeHashes h | .extendedCommitInfo h | .extendedCommitInfoProof h => h = hash

/-- The key is one that a put of the block may write. -/
def Key.OfBlock (block : SequencerBlock) (key : Key) : Prop :=
  key = .blockHash block.header.height ∨ key.OfHash block.blockHash

/-- The key is one that a block may leave unwritten. -/
def Key.IsOptional : Key → Prop
  | .upgradeChangeHashes _ | .extendedCommitInfo _ | .extendedCommitInfoProof _ => True
  | _ => False

theorem ofBlock_of_mem_requiredEntries {block : SequencerBlock} {e : Entry}
    (h : e ∈ requiredEntries block) : e.key.OfBlock block ∧ ¬ e.key.IsOptional := by
  simp only [requiredEntries, List.mem_append, List.mem_cons, List.mem_map, List.not_mem_nil,
    or_false] at h
  rcases h with ((rfl | rfl | rfl) | ⟨entry, -, rfl⟩) | rfl | rfl
  · exact ⟨Or.inl rfl, id⟩
  all_goals exact ⟨Or.inr rfl, id⟩

theorem upgradeEntries_of_nil {block : SequencerBlock} (h : block.upgradeChangeHashes = []) :
    upgradeEntries block = [] :=
  if_neg (not_not.mpr h)

theorem key_of_mem_upgradeEntries {block : SequencerBlock} {e : Entry} (h : e ∈ upgradeEntries block) :
    e.key = .upgradeChangeHashes block.blockHash := by
  unfold upgradeEntries at h
  split_ifs at h with hhashes
  · rw [List.mem_singleton.mp h]
  · cases h

theorem infoEntries_of_none {block : SequencerBlock} (h : block.extendedCommitInfoWithProof = none) :
    infoEntries block = [] := by
  rw [infoEntries, h]

theorem key_of_mem_infoEntries {block : SequencerBlock} {e : Entry} (h : e ∈ infoEntries block) :
    e.key = .extendedCommitInfo block.blockHash ∨ e.key = .extendedCommitInfoProof block.blockHash := by
  unfold infoEntries at h
  cases hinfo : block.extendedCommitInfoWithProof with
  | none =>
    rw [hinfo] at h
    cases h
  | some info =>
    rw [hinfo] at h
    rcases List.mem_pair.mp h with rfl | rfl
    · exact Or.inl rfl
    · exact Or.inr rfl

theorem ofBlock_of_mem_entries {block : SequencerBlock} {e : Entry} (h : e ∈ entries block) :
    e.key.OfBlock block := by
  rcases List.mem_append.mp h with h | h
  · exact (ofBlock_of_mem_requiredEntries h).1
  · rcases List.mem_append.mp h with h | h
    · rw [key_of_mem_upgradeEntries h]
      exact Or.inr rfl
    · rcases key_of_mem_infoEntries h with hkey | hkey <;> rw [hkey] <;> exact Or.inr rfl

/-- Without upgrade change hashes, their key is not written. -/
theorem not_written_upgrade {block : SequencerBlock} (hnil : block.upgradeChangeHashes = []) :
    ¬ ∃ e ∈ entries block, e.key = .upgradeChangeHashes block.blockHash := by
  rintro ⟨e, he, hkey⟩
  rw [entries, upgradeEntries_of_nil hnil, List.nil_append] at he
  rcases List.mem_append.mp he with he | he
  · exact (ofBlock_of_mem_requiredEntries he).2 (hkey ▸ trivial)
  · rcases key_of_mem_infoEntries he with hinfo | hinfo <;> cases hkey.symm.trans hinfo

/-- Without a commit info, its keys are not written. -/
theorem not_written_info {block : SequencerBlock} (hnone : block.extendedCommitInfoWithProof = none)
    {key : Key} (hinfo : key = .extendedCommitInfo block.blockHash ∨
      key = .extendedCommitInfoProof block.blockHash) :
    ¬ ∃ e ∈ entries block, e.key = key := by
  rintro ⟨e, he, rfl⟩
  rw [entries, infoEntries_of_none hnone, List.append_nil] at he
  rcases List.mem_append.mp he with he | he
  · refine (ofBlock_of_mem_requiredEntries he).2 ?_
    rcases hinfo with hinfo | hinfo <;> exact hinfo ▸ trivial
  · have hkey := key_of_mem_upgradeEntries he
    rcases hinfo with hinfo | hinfo <;> cases hkey.symm.trans hinfo

theorem Key.OfHash.ne {hash : BlockHash} {key : Key} (h : key.OfHash hash) (height : ℕ) :
    key ≠ .blockHash height := by
  rintro rfl
  exact h

theorem Key.OfHash.unique {hash hash' : BlockHash} {key : Key} (h : key.OfHash hash)
    (h' : key.OfHash hash') : hash = hash' := by
  cases key with
  | blockHash height => exact h.elim
  | _ => exact h.symm.trans h'

/-- Blocks of different heights and hashes have no keys in common. -/
theorem Key.OfBlock.not_ofBlock {b b' : SequencerBlock} {key : Key} (h : key.OfBlock b)
    (hapart : BlockStore.Apart b b') : ¬ key.OfBlock b' := by
  rintro (h' | h')
  · rcases h with rfl | h
    · exact hapart.1 (Key.blockHash.inj h')
    · exact h.ne _ h'
  · rcases h with rfl | h
    · exact h'.ne _ rfl
    · exact hapart.2 (h.unique h')

/-! ## What a put writes -/

/-- The keys outside of a set hold what they held. -/
def SameOutside (written : Key → Prop) (store store' : RawStore) : Prop :=
  ∀ key : Key, ¬ written key → store'.get key.text = store.get key.text

instance (written : Key → Prop) : IsPreorder RawStore (SameOutside written) where
  refl _ _ _ := rfl
  trans _ _ _ h h' key hkey := (h' key hkey).trans (h key hkey)

/-- Two stores agree on the keys of a block. -/
def SameBlock (block : SequencerBlock) (store store' : RawStore) : Prop :=
  ∀ key : Key, key.OfBlock block → store'.get key.text = store.get key.text

/-- The keys that the block leaves unwritten are free. -/
structure OptionalFree (store : RawStore) (block : SequencerBlock) : Prop where
  upgradeChangeHashes : block.upgradeChangeHashes = [] →
    store.get (upgradeChangeHashesByHash block.blockHash) = none
  extendedCommitInfo : block.extendedCommitInfoWithProof = none →
    store.get (extendedCommitInfoByHash block.blockHash) = none
  extendedCommitInfoProof : block.extendedCommitInfoWithProof = none →
    store.get (extendedCommitInfoProofByHash block.blockHash) = none

theorem OptionalFree.of_same {store store' : RawStore} {block : SequencerBlock}
    (h : OptionalFree store block) (hsame : SameBlock block store store') :
    OptionalFree store' block where
  upgradeChangeHashes hnil :=
    (hsame (.upgradeChangeHashes block.blockHash) (Or.inr rfl)).trans (h.upgradeChangeHashes hnil)
  extendedCommitInfo hnone :=
    (hsame (.extendedCommitInfo block.blockHash) (Or.inr rfl)).trans (h.extendedCommitInfo hnone)
  extendedCommitInfoProof hnone :=
    (hsame (.extendedCommitInfoProof block.blockHash) (Or.inr rfl)).trans
      (h.extendedCommitInfoProof hnone)

section

variable [ext : External] [times : StoredTimes]

/-- What is stored under the key is the value. -/
def Written (store : RawStore) (key : Key) (value : Value) : Prop :=
  ∃ bytes, Format.storedValue.toVec value = some bytes ∧ store.get key.text = some bytes

theorem keeps_putEntry {written : Key → Prop} {entry : Entry} (h : written entry.key) :
    Exec.Keeps (SameOutside written) (putEntry entry) := by
  refine Exec.Keeps.bind (Exec.Keeps.mapErr (Exec.keeps_require _ _) _) fun bytes =>
    Exec.keeps_writes fun store key hkey => ?_
  have hne : key.text ≠ entry.key.text := by
    intro htext
    rw [Key.text_injective htext] at hkey
    exact hkey h
  exact Function.update_of_ne hne _ _

theorem written_of_putEntry {entry : Entry} {store store' : RawStore} {u : Unit}
    (h : putEntry entry store = .ok u store') : Written store' entry.key entry.value := by
  obtain ⟨bytes, store₁, hbytes, hwrite⟩ := Exec.bind_eq_ok.mp h
  obtain ⟨hvec, rfl⟩ := Exec.require_eq_ok.mp (Exec.mapErr_eq_ok.mp hbytes)
  obtain rfl := Exec.writes_eq_ok.mp hwrite
  exact ⟨bytes, hvec, Function.update_self ..⟩

theorem Written.of_get {store store' : RawStore} {key : Key} {value : Value}
    (h : Written store key value) (hget : store'.get key.text = store.get key.text) :
    Written store' key value := by
  obtain ⟨bytes, hvec, hstore⟩ := h
  exact ⟨bytes, hvec, hget.trans hstore⟩

/-- Entries with different keys do not overwrite each other. -/
theorem written_of_forEach {es : List Entry} (hnodup : (es.map Entry.key).Nodup)
    {store store' : RawStore} (h : Exec.forEach es putEntry store = .ok () store') :
    ∀ e ∈ es, Written store' e.key e.value := by
  induction es generalizing store with
  | nil =>
    intro e he
    cases he
  | cons d es ih =>
    rw [List.map_cons, List.nodup_cons] at hnodup
    obtain ⟨store₁, hfirst, hrest⟩ := Exec.forEach_cons_eq_ok.mp h
    intro e he
    rcases List.mem_cons.mp he with rfl | he
    · have hkeeps : Exec.Keeps (SameOutside fun key => key ∈ es.map Entry.key)
          (Exec.forEach es putEntry) :=
        Exec.Keeps.forEach_of_mem fun c hc => keeps_putEntry (List.mem_map_of_mem hc)
      exact (written_of_putEntry hfirst).of_get (hkeeps.of_ok hrest _ hnodup.1)
    · exact ih hnodup.2 hrest e he

/-- A put writes the keys of its block and no others, also if it fails. -/
theorem keeps_putSequencerBlock (block : SequencerBlock) :
    Exec.Keeps (SameOutside fun key => ∃ e ∈ entries block, e.key = key)
      (putSequencerBlock block) := by
  rw [putSequencerBlock_eq]
  exact Exec.Keeps.forEach_of_mem fun e he => keeps_putEntry ⟨e, he, rfl⟩

/-! ## Stored blocks -/

/-- A block is stored, and nothing is left under its hash that it does not have. -/
structure Stored (store : RawStore) (block : SequencerBlock) : Prop where
  written : ∀ e ∈ entries block, Written store e.key e.value
  free : OptionalFree store block

theorem sameBlock_of_put {block other : SequencerBlock} (hapart : BlockStore.Apart block other)
    (store : RawStore) : SameBlock block store (Exec.final (putSequencerBlock other store)) := by
  intro key hkey
  refine keeps_putSequencerBlock other store key ?_
  rintro ⟨e, he, rfl⟩
  exact hkey.not_ofBlock hapart (ofBlock_of_mem_entries he)

theorem Stored.of_same {store store' : RawStore} {block : SequencerBlock} (h : Stored store block)
    (hsame : SameBlock block store store') : Stored store' block where
  written e he := (h.written e he).of_get (hsame e.key (ofBlock_of_mem_entries he))
  free := h.free.of_same hsame

/-- No put of another block disturbs a block that is stored, also if it fails. -/
theorem Stored.put {store : RawStore} {block other : SequencerBlock} (h : Stored store block)
    (hapart : BlockStore.Apart block other) :
    Stored (Exec.final (putSequencerBlock other store)) block :=
  h.of_same (sameBlock_of_put hapart store)

/-- A put leaves the keys that its block does not have as they are. -/
theorem OptionalFree.put {store : RawStore} {block : SequencerBlock} (h : OptionalFree store block) :
    OptionalFree (Exec.final (putSequencerBlock block store)) block where
  upgradeChangeHashes hnil :=
    (keeps_putSequencerBlock block store (.upgradeChangeHashes block.blockHash)
      (not_written_upgrade hnil)).trans (h.upgradeChangeHashes hnil)
  extendedCommitInfo hnone :=
    (keeps_putSequencerBlock block store (.extendedCommitInfo block.blockHash)
      (not_written_info hnone (Or.inl rfl))).trans (h.extendedCommitInfo hnone)
  extendedCommitInfoProof hnone :=
    (keeps_putSequencerBlock block store (.extendedCommitInfoProof block.blockHash)
      (not_written_info hnone (Or.inr rfl))).trans (h.extendedCommitInfoProof hnone)

theorem stored_of_put {store : RawStore} {block : SequencerBlock} (hfree : OptionalFree store block)
    (hok : Exec.isOk (putSequencerBlock block store) = true) :
    Stored (Exec.final (putSequencerBlock block store)) block where
  written := by
    have h := Exec.eq_ok_of_isOk hok
    rw [putSequencerBlock_eq] at h ⊢
    exact written_of_forEach (entries_nodup block) h
  free := hfree.put

theorem putEntry_of_toVec {entry : Entry} {bytes : Bytes}
    (h : Format.storedValue.toVec entry.value = some bytes) (store : RawStore) :
    putEntry entry store = .ok () (store.nonverifiablePutRaw entry.key.text bytes) := by
  refine Exec.bind_eq_ok.mpr ⟨bytes, store, ?_, rfl⟩
  exact Exec.mapErr_eq_ok.mpr (Exec.require_eq_ok.mpr ⟨h, rfl⟩)

/-- A put succeeds exactly if all values of the block can be serialized. -/
theorem isOk_putSequencerBlock_iff {store : RawStore} {block : SequencerBlock} :
    Exec.isOk (putSequencerBlock block store) = true ↔
      ∀ e ∈ entries block, ∃ bytes, Format.storedValue.toVec e.value = some bytes := by
  rw [putSequencerBlock_eq]
  constructor
  · intro hok e he
    obtain ⟨bytes, hvec, -⟩ :=
      written_of_forEach (entries_nodup block) (Exec.eq_ok_of_isOk hok) e he
    exact ⟨bytes, hvec⟩
  · intro h
    generalize entries block = es at h
    induction es generalizing store with
    | nil => rfl
    | cons e es ih =>
      obtain ⟨bytes, hvec⟩ := h e List.mem_cons_self
      rw [Exec.forEach, Exec.bind_of_ok (putEntry_of_toVec hvec store)]
      exact ih fun d hd => h d (List.mem_cons_of_mem _ hd)

/-! ## Sequences of puts -/

theorem putAll_append (before after : List SequencerBlock) (store : RawStore) :
    putAll (before ++ after) store = putAll after (putAll before store) :=
  List.foldl_append ..

theorem putAll_cons (block : SequencerBlock) (blocks : List SequencerBlock) (store : RawStore) :
    putAll (block :: blocks) store = putAll blocks (Exec.final (putSequencerBlock block store)) :=
  rfl

/-- A sequence of puts of other blocks leaves all keys of a block as they are. -/
theorem sameBlock_of_putAll {block : SequencerBlock} {blocks : List SequencerBlock}
    (hapart : ∀ other ∈ blocks, BlockStore.Apart block other) (store : RawStore) :
    SameBlock block store (putAll blocks store) := by
  induction blocks generalizing store with
  | nil =>
    intro key hkey
    rfl
  | cons other blocks ih =>
    intro key hkey
    have hfirst := sameBlock_of_put (hapart other List.mem_cons_self) store key hkey
    have hrest := ih (fun b hb => hapart b (List.mem_cons_of_mem _ hb))
      (Exec.final (putSequencerBlock other store)) key hkey
    exact hrest.trans hfirst

/-- In a sequence of puts of different blocks, a block whose put succeeds is stored at the end. -/
theorem stored_of_putAll {before after : List SequencerBlock} {block : SequencerBlock}
    {store : RawStore} (hapart : (before ++ block :: after).Pairwise BlockStore.Apart)
    (hfree : OptionalFree store block)
    (hok : Exec.isOk (putSequencerBlock block (putAll before store)) = true) :
    Stored (putAll (before ++ block :: after) store) block := by
  rw [List.pairwise_append, List.pairwise_cons] at hapart
  obtain ⟨-, ⟨hafter, -⟩, hcross⟩ := hapart
  have hbefore : ∀ other ∈ before, BlockStore.Apart block other := by
    intro other hother
    have h := hcross other hother block List.mem_cons_self
    exact ⟨h.1.symm, h.2.symm⟩
  have hput := stored_of_put (hfree.of_same (sameBlock_of_putAll hbefore store)) hok
  rw [putAll_append, putAll_cons]
  exact hput.of_same (sameBlock_of_putAll hafter _)

/-! ## Reading a stored block -/

/-- What is read under a key, if it can be read. -/
def RawStore.read {α : Type} (store : RawStore) (key : String) (tryInto : Value → Except Report α) :
    Option α := do
  let bytes ← store.get key
  let value ← Format.storedValue.fromSlice bytes
  (tryInto value).toOption

theorem read_of_written {α : Type} {store : RawStore} {key : Key} {value : Value}
    (h : Written store key value) (hadmitted : Format.ValueAdmitted value)
    {tryInto : Value → Except Report α} {a : α} (hinto : tryInto value = .ok a) :
    store.read key.text tryInto = some a := by
  obtain ⟨bytes, hvec, hget⟩ := h
  have hvalue : Format.storedValue.fromSlice bytes = some value :=
    Format.storedValue.fromSlice_toVec hadmitted hvec
  rw [RawStore.read, hget, Option.bind_eq_bind, Option.bind_some, hvalue, Option.bind_eq_bind,
    Option.bind_some, hinto]
  rfl

theorem getValue_of_read {α : Type} {store : RawStore} {key : String}
    {tryInto : Value → Except Report α} {a : α} (h : store.read key tryInto = some a)
    (invalid : String) : getValue store key tryInto invalid = .ok (some a) := by
  obtain ⟨bytes, hget, h⟩ := Option.bind_eq_some_iff.mp h
  obtain ⟨value, hvalue, h⟩ := Option.bind_eq_some_iff.mp h
  have hinto : tryInto value = .ok a := by
    cases hv : tryInto value with
    | ok b =>
      rw [hv] at h
      exact congrArg Except.ok (Option.some.inj h)
    | error e =>
      rw [hv] at h
      cases h
  rw [getValue, hget]
  exact withContext_eq_ok.mpr (Codec.bind_eq_ok.mpr ⟨value, okOr_eq_ok.mpr hvalue,
    Codec.bind_eq_ok.mpr ⟨a, hinto, rfl⟩⟩)

theorem getValue_of_none {α : Type} {store : RawStore} {key : String} (h : store.get key = none)
    (tryInto : Value → Except Report α) (invalid : String) :
    getValue store key tryInto invalid = .ok none := by
  rw [getValue, h]

theorem getRequired_of_read {α : Type} {store : RawStore} {key : String}
    {tryInto : Value → Except Report α} {a : α} (h : store.read key tryInto = some a)
    (invalid notFound : String) : getRequired store key tryInto invalid notFound = .ok a :=
  Codec.bind_eq_ok.mpr ⟨some a, getValue_of_read h invalid, rfl⟩

theorem read_of_none {α : Type} {store : RawStore} {key : String} (h : store.get key = none)
    (tryInto : Value → Except Report α) : store.read key tryInto = none := by
  rw [RawStore.read, h]
  rfl

/-- What can be read of the blocks. -/
def RawStore.blocks (store : RawStore) : BlockStore :=
  { blockHashes := fun height => store.read (blockHashByHeight height) Value.tryIntoBlockHash
    rollupIds := fun hash => store.read (rollupIdsByHash hash) Value.tryIntoRollupIds
    headers := fun hash =>
      store.read (sequencerBlockHeaderByHash hash) Value.tryIntoSequencerBlockHeader
    rollupData := fun hash id =>
      store.read (rollupDataByHashAndRollupId hash id) Value.tryIntoRollupTransactions
    rollupTransactionsProofs := fun hash =>
      store.read (rollupTransactionsProofByHash hash) Value.tryIntoProof
    rollupIdsProofs := fun hash => store.read (rollupIdsProofByHash hash) Value.tryIntoProof
    upgradeChangeHashes := fun hash =>
      store.read (upgradeChangeHashesByHash hash) Value.tryIntoUpgradeChangeHashes
    extendedCommitInfos := fun hash =>
      store.read (extendedCommitInfoByHash hash) Value.tryIntoExtendedCommitInfo
    extendedCommitInfoProofs := fun hash =>
      store.read (extendedCommitInfoProofByHash hash) Value.tryIntoProof }

theorem Stored.upgradeChangeHashes {store : RawStore} {block : SequencerBlock}
    (h : Stored store block) (hne : block.upgradeChangeHashes ≠ []) :
    Written store (.upgradeChangeHashes block.blockHash)
      (.upgradeChangeHashes block.upgradeChangeHashes) := by
  have hwritten : ∀ e ∈ upgradeEntries block, Written store e.key e.value := fun e he =>
    h.written e (List.mem_append_right _ (List.mem_append_left _ he))
  rw [upgradeEntries, if_pos hne] at hwritten
  exact hwritten _ (List.mem_singleton_self _)

theorem Stored.extendedCommitInfo {store : RawStore} {block : SequencerBlock}
    (h : Stored store block) {info : ExtendedCommitInfoWithProof}
    (hinfo : block.extendedCommitInfoWithProof = some info) :
    Written store (.extendedCommitInfo block.blockHash)
        (.extendedCommitInfo info.encodedExtendedCommitInfo) ∧
      Written store (.extendedCommitInfoProof block.blockHash) (.proof info.proof) := by
  have hwritten : ∀ e ∈ infoEntries block, Written store e.key e.value := fun e he =>
    h.written e (List.mem_append_right _ (List.mem_append_right _ he))
  rw [infoEntries, hinfo] at hwritten
  exact ⟨hwritten _ List.mem_cons_self, hwritten _ (List.mem_cons_of_mem _ List.mem_cons_self)⟩

theorem getUpgradeChangeHashes_of_stored {store : RawStore} {block : SequencerBlock}
    (h : Stored store block) :
    getUpgradeChangeHashes store block.blockHash = .ok block.upgradeChangeHashes := by
  unfold getUpgradeChangeHashes
  by_cases hnil : block.upgradeChangeHashes = []
  · rw [getValue_of_none (h.free.upgradeChangeHashes hnil), hnil]
    rfl
  · have hread : store.read (upgradeChangeHashesByHash block.blockHash)
        Value.tryIntoUpgradeChangeHashes = some block.upgradeChangeHashes :=
      read_of_written (h.upgradeChangeHashes hnil) trivial rfl
    rw [getValue_of_read hread]
    rfl

/-- The rollups are inserted in the order of their ids. -/
theorem insertRollupTransactions_eq_ok {store : RawStore} {hash : BlockHash}
    {es : List (RollupId × RollupTransactions)}
    (h : ∀ e ∈ es, getRollupData store hash e.1 = .ok e.2)
    (m : IndexMap RollupId RollupTransactions) :
    insertRollupTransactions store hash (es.map (·.1)) m =
      .ok (es.foldl (fun m e => m.insert e.1 e.2) m) := by
  induction es generalizing m with
  | nil => rfl
  | cons e es ih =>
    rw [List.map_cons, insertRollupTransactions, h e List.mem_cons_self]
    exact ih (fun d hd => h d (List.mem_cons_of_mem _ hd)) (m.insert e.1 e.2)

theorem getValue_congr {α : Type} {store store' : RawStore} {key : String}
    (h : store'.get key = store.get key) (tryInto : Value → Except Report α) (invalid : String) :
    getValue store' key tryInto invalid = getValue store key tryInto invalid := by
  rw [getValue, getValue, h]

theorem getRequired_congr {α : Type} {store store' : RawStore} {key : String}
    (h : store'.get key = store.get key) (tryInto : Value → Except Report α)
    (invalid notFound : String) :
    getRequired store' key tryInto invalid notFound = getRequired store key tryInto invalid notFound := by
  rw [getRequired, getRequired, getValue_congr h]

theorem insertRollupTransactions_congr {store store' : RawStore} {hash : BlockHash}
    (h : ∀ id, store'.get (Key.rollupData hash id).text = store.get (Key.rollupData hash id).text)
    (ids : List RollupId) (m : IndexMap RollupId RollupTransactions) :
    insertRollupTransactions store' hash ids m = insertRollupTransactions store hash ids m := by
  induction ids generalizing m with
  | nil => rfl
  | cons id ids ih =>
    have hdata : getRollupData store' hash id = getRollupData store hash id :=
      getRequired_congr (h id) _ _ _
    rw [insertRollupTransactions, insertRollupTransactions, hdata]
    congr 1
    funext txs
    exact ih (m.insert id txs)

section

variable [codec : BlockCodec]

/-- The values of a block are of their types, and its commit info is what its bytes are parsed to. -/
structure Admitted (block : SequencerBlock) : Prop where
  header : Format.HeaderAdmitted block.header
  rollupTransactions : ∀ e ∈ block.rollupTransactions.entries, Format.ProofAdmitted e.2.proof
  rollupTransactionsProof : Format.ProofAdmitted block.rollupTransactionsProof
  rollupIdsProof : Format.ProofAdmitted block.rollupIdsProof
  extendedCommitInfo : ∀ info, block.extendedCommitInfoWithProof = some info →
    Format.ProofAdmitted info.proof ∧
      ExtendedCommitInfoWithProof.parse info.encodedExtendedCommitInfo = .ok info.extendedCommitInfo

/-- What is stored as bytes is the block for the server of filtered blocks. -/
theorem Stored.holds {store : RawStore} {block : SequencerBlock} (h : Stored store block)
    (hadmitted : Admitted block) : store.blocks.Holds block := by
  have hrequired : ∀ e ∈ requiredEntries block, Written store e.key e.value := fun e he =>
    h.written e (List.mem_append_left _ he)
  simp only [requiredEntries, List.forall_mem_append, List.forall_mem_cons, List.forall_mem_map]
    at hrequired
  obtain ⟨⟨⟨hhash, hids, hheader, -⟩, hdata⟩, htxsProof, hidsProof, -⟩ := hrequired
  refine
    { blockHash := read_of_written hhash trivial rfl
      rollupIds := read_of_written hids trivial rfl
      header := read_of_written hheader hadmitted.header rfl
      rollupData := fun e he =>
        read_of_written (hdata e he) (hadmitted.rollupTransactions e he) rfl
      rollupTransactionsProof := read_of_written htxsProof hadmitted.rollupTransactionsProof rfl
      rollupIdsProof := read_of_written hidsProof hadmitted.rollupIdsProof rfl
      upgradeChangeHashes := ?_
      extendedCommitInfo := ?_
      extendedCommitInfoProof := ?_ }
  · by_cases hnil : block.upgradeChangeHashes = []
    · have hread := read_of_none (h.free.upgradeChangeHashes hnil) Value.tryIntoUpgradeChangeHashes
      exact (congrArg (·.getD []) hread).trans hnil.symm
    · have hread : store.blocks.upgradeChangeHashes block.blockHash = some block.upgradeChangeHashes :=
        read_of_written (h.upgradeChangeHashes hnil) trivial rfl
      rw [hread, Option.getD_some]
  · cases hinfo : block.extendedCommitInfoWithProof with
    | none => exact read_of_none (h.free.extendedCommitInfo hinfo) _
    | some info => exact read_of_written (h.extendedCommitInfo hinfo).1 trivial rfl
  · cases hinfo : block.extendedCommitInfoWithProof with
    | none => exact read_of_none (h.free.extendedCommitInfoProof hinfo) _
    | some info =>
      exact read_of_written (h.extendedCommitInfo hinfo).2 (hadmitted.extendedCommitInfo info hinfo).1 rfl

theorem getExtendedCommitInfoWithProof_of_stored {store : RawStore} {block : SequencerBlock}
    (h : Stored store block) (hadmitted : Admitted block) :
    getExtendedCommitInfoWithProof store block.blockHash = .ok block.extendedCommitInfoWithProof := by
  unfold getExtendedCommitInfoWithProof getExtendedCommitInfo getExtendedCommitInfoProof
  have hholds := h.holds hadmitted
  cases hinfo : block.extendedCommitInfoWithProof with
  | none =>
    rw [getValue_of_none (h.free.extendedCommitInfo hinfo),
      getValue_of_none (h.free.extendedCommitInfoProof hinfo)]
    rfl
  | some info =>
    have hencoded := hholds.extendedCommitInfo
    have hproof := hholds.extendedCommitInfoProof
    rw [hinfo] at hencoded hproof
    have hparsed := (hadmitted.extendedCommitInfo info hinfo).2
    refine Codec.bind_eq_ok.mpr ⟨_, withContext_eq_ok.mpr (getValue_of_read hencoded _), ?_⟩
    refine Codec.bind_eq_ok.mpr ⟨_, withContext_eq_ok.mpr (getValue_of_read hproof _), ?_⟩
    refine Codec.bind_eq_ok.mpr ⟨info, ?_, rfl⟩
    exact Codec.bind_eq_ok.mpr ⟨_, withContext_eq_ok.mpr hparsed, rfl⟩

theorem getRollupData_of_stored {store : RawStore} {block : SequencerBlock} (h : Stored store block)
    (hadmitted : Admitted block) :
    ∀ e ∈ block.rollupTransactions.entries, getRollupData store block.blockHash e.1 = .ok e.2 :=
  fun e he => getRequired_of_read ((h.holds hadmitted).rollupData e he) _ _

theorem getSequencerBlockByHash_of_stored {store : RawStore} {block : SequencerBlock}
    (h : Stored store block) (hadmitted : Admitted block) :
    getSequencerBlockByHash store block.blockHash = .ok block := by
  have hholds := h.holds hadmitted
  have htxs := insertRollupTransactions_eq_ok (getRollupData_of_stored h hadmitted) IndexMap.empty
  have hmap : block.rollupTransactions.entries.foldl
      (fun m e => m.insert e.1 e.2) IndexMap.empty = block.rollupTransactions :=
    IndexMap.collect_entries block.rollupTransactions
  rw [hmap] at htxs
  unfold getSequencerBlockByHash
  refine Codec.bind_eq_ok.mpr
    ⟨_, withContext_eq_ok.mpr (getRequired_of_read hholds.header _ _), ?_⟩
  refine Codec.bind_eq_ok.mpr
    ⟨_, withContext_eq_ok.mpr (getRequired_of_read hholds.rollupIds _ _), ?_⟩
  refine Codec.bind_eq_ok.mpr
    ⟨_, withContext_eq_ok.mpr (getRequired_of_read hholds.rollupTransactionsProof _ _), ?_⟩
  refine Codec.bind_eq_ok.mpr
    ⟨_, withContext_eq_ok.mpr (getRequired_of_read hholds.rollupIdsProof _ _), ?_⟩
  refine Codec.bind_eq_ok.mpr
    ⟨_, withContext_eq_ok.mpr (getUpgradeChangeHashes_of_stored h), ?_⟩
  refine Codec.bind_eq_ok.mpr
    ⟨_, withContext_eq_ok.mpr (getExtendedCommitInfoWithProof_of_stored h hadmitted), ?_⟩
  exact Codec.bind_eq_ok.mpr ⟨_, htxs, rfl⟩

theorem getSequencerBlockByHeight_of_stored {store : RawStore} {block : SequencerBlock}
    (h : Stored store block) (hadmitted : Admitted block) :
    getSequencerBlockByHeight store block.header.height = .ok block :=
  Codec.bind_eq_ok.mpr
    ⟨_, withContext_eq_ok.mpr (getRequired_of_read (h.holds hadmitted).blockHash _ _),
      withContext_eq_ok.mpr (getSequencerBlockByHash_of_stored h hadmitted)⟩

/-! ## Reads do not see other blocks -/

/-- The block is read back under its height, and the transactions of its rollups under its hash. -/
structure ReadBack (store : RawStore) (block : SequencerBlock) : Prop where
  byHeight : getSequencerBlockByHeight store block.header.height = .ok block
  rollupData : ∀ e ∈ block.rollupTransactions.entries,
    getRollupData store block.blockHash e.1 = .ok e.2

theorem Stored.readBack {store : RawStore} {block : SequencerBlock} (h : Stored store block)
    (hadmitted : Admitted block) : ReadBack store block where
  byHeight := getSequencerBlockByHeight_of_stored h hadmitted
  rollupData := getRollupData_of_stored h hadmitted

/-- What is read under a hash depends on the keys of that hash alone. -/
theorem getSequencerBlockByHash_congr {store store' : RawStore} {hash : BlockHash}
    (h : ∀ key : Key, key.OfHash hash → store'.get key.text = store.get key.text) :
    getSequencerBlockByHash store' hash = getSequencerBlockByHash store hash := by
  have hheader : getSequencerBlockHeaderByHash store' hash = getSequencerBlockHeaderByHash store hash :=
    getRequired_congr (h (.header hash) rfl) _ _ _
  have hids : getRollupIdsByBlockHash store' hash = getRollupIdsByBlockHash store hash :=
    getRequired_congr (h (.rollupIds hash) rfl) _ _ _
  have htxsProof : getRollupTransactionsProofByBlockHash store' hash =
      getRollupTransactionsProofByBlockHash store hash :=
    getRequired_congr (h (.rollupTransactionsProof hash) rfl) _ _ _
  have hidsProof : getRollupIdsProofByBlockHash store' hash = getRollupIdsProofByBlockHash store hash :=
    getRequired_congr (h (.rollupIdsProof hash) rfl) _ _ _
  have hhashes : getUpgradeChangeHashes store' hash = getUpgradeChangeHashes store hash :=
    congrArg (· >>= _) (getValue_congr (h (.upgradeChangeHashes hash) rfl) _ _)
  have hinfo : getExtendedCommitInfo store' hash = getExtendedCommitInfo store hash :=
    getValue_congr (h (.extendedCommitInfo hash) rfl) _ _
  have hinfoProof : getExtendedCommitInfoProof store' hash = getExtendedCommitInfoProof store hash :=
    getValue_congr (h (.extendedCommitInfoProof hash) rfl) _ _
  have htxs := insertRollupTransactions_congr fun id => h (.rollupData hash id) rfl
  unfold getSequencerBlockByHash getExtendedCommitInfoWithProof
  simp only [hids, hheader, htxsProof, hidsProof, hhashes, hinfo, hinfoProof, htxs]

/-- What is in a block that was read. -/
theorem getSequencerBlockByHash_spec {store : RawStore} {hash : BlockHash} {block : SequencerBlock}
    (h : getSequencerBlockByHash store hash = .ok block) :
    block.blockHash = hash ∧ getUpgradeChangeHashes store hash = .ok block.upgradeChangeHashes := by
  obtain ⟨header, -, h⟩ := Codec.bind_eq_ok.mp h
  obtain ⟨ids, -, h⟩ := Codec.bind_eq_ok.mp h
  obtain ⟨txsProof, -, h⟩ := Codec.bind_eq_ok.mp h
  obtain ⟨idsProof, -, h⟩ := Codec.bind_eq_ok.mp h
  obtain ⟨hashes, hhashes, h⟩ := Codec.bind_eq_ok.mp h
  obtain ⟨info, -, h⟩ := Codec.bind_eq_ok.mp h
  obtain ⟨txs, -, h⟩ := Codec.bind_eq_ok.mp h
  obtain rfl := Except.ok.inj h
  exact ⟨rfl, withContext_eq_ok.mp hhashes⟩

theorem getSequencerBlockByHeight_eq_ok {store : RawStore} {height : ℕ} {block : SequencerBlock} :
    getSequencerBlockByHeight store height = .ok block ↔
      getBlockHashByHeight store height = .ok block.blockHash ∧
        getSequencerBlockByHash store block.blockHash = .ok block := by
  constructor
  · intro h
    obtain ⟨hash, hhash, h⟩ := Codec.bind_eq_ok.mp h
    have hblock := withContext_eq_ok.mp h
    obtain rfl := (getSequencerBlockByHash_spec hblock).1
    exact ⟨withContext_eq_ok.mp hhash, hblock⟩
  · rintro ⟨hhash, hblock⟩
    exact Codec.bind_eq_ok.mpr
      ⟨_, withContext_eq_ok.mpr hhash, withContext_eq_ok.mpr hblock⟩

theorem ReadBack.of_same {store store' : RawStore} {block : SequencerBlock}
    (h : ReadBack store block) (hsame : SameBlock block store store') : ReadBack store' block where
  byHeight := by
    obtain ⟨hhash, hblock⟩ := getSequencerBlockByHeight_eq_ok.mp h.byHeight
    refine getSequencerBlockByHeight_eq_ok.mpr ⟨?_, ?_⟩
    · have hkey := hsame (.blockHash block.header.height) (Or.inl rfl)
      exact (getRequired_congr hkey _ _ _).trans hhash
    · rw [getSequencerBlockByHash_congr fun key hkey => hsame key (Or.inr hkey)]
      exact hblock
  rollupData e he := by
    have hkey := hsame (.rollupData block.blockHash e.1) (Or.inr rfl)
    exact (getRequired_congr hkey _ _ _).trans (h.rollupData e he)

/-- In any sequence of puts of different blocks, from any state that has nothing under the keys that
they leave unwritten, every block whose put succeeds is read back at the end as it was, and so is every
other block that was there before, also if puts fail. -/
theorem sequencerBlocks_roundTrip (store : RawStore) (blocks : List SequencerBlock)
    (hadmitted : ∀ block ∈ blocks, Admitted block) (hapart : blocks.Pairwise BlockStore.Apart)
    (hfree : ∀ block ∈ blocks, OptionalFree store block) :
    (∀ before block after, blocks = before ++ block :: after →
      Exec.isOk (putSequencerBlock block (putAll before store)) = true →
        ReadBack (putAll blocks store) block) ∧
      ∀ other, (∀ block ∈ blocks, BlockStore.Apart other block) → ReadBack store other →
        ReadBack (putAll blocks store) other := by
  constructor
  · rintro before block after rfl hok
    have hmem : block ∈ before ++ block :: after := List.mem_append_right _ List.mem_cons_self
    exact (stored_of_putAll hapart (hfree block hmem) hok).readBack (hadmitted block hmem)
  · intro other hother hread
    exact hread.of_same (sameBlock_of_putAll hother store)

end

end

/-! ## Two blocks of a test chain -/

section

open scoped Astria.Sequencer.TestUtils

/-- The times are those from 1970 to 9999, in nanoseconds. -/
local instance : StoredTimes where
  unixTimestampNanos time := time
  fromUnixTimestamp seconds nanos :=
    if seconds ≤ 253402300799 ∧ nanos < 10 ^ 9 then some (seconds * 10 ^ 9 + nanos) else none

def onlyLeafProof : Merkle.Proof Bytes32 := { auditPath := [], leafIndex := 0, treeSize := 1 }

def testHeader (height : ℕ) : SequencerBlockHeader :=
  { chainId := "astria"
    height := height
    time := 1700000000 * 10 ^ 9
    rollupTransactionsRoot := List.Vector.replicate 32 1
    dataHash := List.Vector.replicate 32 2
    proposerAddress := List.Vector.replicate 20 3 }

/-- A block without rollups, and the change hashes of an upgrade or none. -/
def upgradeBlock (upgradeChangeHashes : List Bytes32) : SequencerBlock :=
  { blockHash := List.Vector.replicate 32 4
    header := testHeader 1
    rollupTransactions := IndexMap.empty
    rollupTransactionsProof := onlyLeafProof
    rollupIdsProof := onlyLeafProof
    upgradeChangeHashes := upgradeChangeHashes
    extendedCommitInfoWithProof := none }

/-- A block with the transactions of one rollup. -/
def rollupBlock : SequencerBlock :=
  { blockHash := List.Vector.replicate 32 5
    header := testHeader 2
    rollupTransactions := IndexMap.empty.insert ⟨List.Vector.replicate 32 6⟩
      { rollupId := ⟨List.Vector.replicate 32 6⟩
        transactions := [[7, 8], []]
        proof := onlyLeafProof }
    rollupTransactionsProof := onlyLeafProof
    rollupIdsProof := onlyLeafProof
    upgradeChangeHashes := []
    extendedCommitInfoWithProof := none }

theorem admitted_onlyLeafProof : Format.ProofAdmitted onlyLeafProof :=
  ⟨by decide, by decide, by decide⟩

theorem admitted_testHeader {height : ℕ} (h : height ≤ maxHeight) :
    Format.HeaderAdmitted (testHeader height) where
  chainId := by
    show External.validChainId "astria" = true
    decide
  height := h
  time := by
    have htime : StoredTimes.unixTimestampNanos (testHeader height).time = 1700000000 * 10 ^ 9 := rfl
    refine ⟨htime.trans_lt (by decide), ?_⟩
    intro nanos hnanos
    obtain rfl : nanos = 1700000000 * 10 ^ 9 := by omega
    rfl

theorem admitted_upgradeBlock (hashes : List Bytes32) : Admitted (upgradeBlock hashes) where
  header := admitted_testHeader (by decide)
  rollupTransactions := by simp [upgradeBlock, IndexMap.empty]
  rollupTransactionsProof := admitted_onlyLeafProof
  rollupIdsProof := admitted_onlyLeafProof
  extendedCommitInfo := by simp [upgradeBlock]

theorem admitted_rollupBlock : Admitted rollupBlock where
  header := admitted_testHeader (by decide)
  rollupTransactions := by
    intro e he
    obtain rfl := List.mem_singleton.mp he
    exact admitted_onlyLeafProof
  rollupTransactionsProof := admitted_onlyLeafProof
  rollupIdsProof := admitted_onlyLeafProof
  extendedCommitInfo := by simp [rollupBlock]

/-- The change hash of the upgrade. -/
def testChangeHash : Bytes32 := List.Vector.replicate 32 9

theorem isOk_put_of_serialized {block : SequencerBlock} (store : RawStore)
    (h : ∀ e ∈ entries block, (Format.storedValue.toVec e.value).isSome = true) :
    Exec.isOk (putSequencerBlock block store) = true :=
  isOk_putSequencerBlock_iff.mpr fun e he => Option.isSome_iff_exists.mp (h e he)

theorem isOk_put_upgradeBlock (store : RawStore) :
    Exec.isOk (putSequencerBlock (upgradeBlock [testChangeHash]) store) = true ∧
      Exec.isOk (putSequencerBlock (upgradeBlock []) store) = true :=
  ⟨isOk_put_of_serialized store (by decide +kernel), isOk_put_of_serialized store (by decide +kernel)⟩

theorem isOk_put_rollupBlock (store : RawStore) :
    Exec.isOk (putSequencerBlock rollupBlock store) = true :=
  isOk_put_of_serialized store (by decide +kernel)

theorem optionalFree_empty (block : SequencerBlock) : OptionalFree RawStore.empty block :=
  ⟨fun _ => rfl, fun _ => rfl, fun _ => rfl⟩

theorem sequencerBlocks_roundTrip_two :
    ReadBack (putAll [upgradeBlock [testChangeHash], rollupBlock] RawStore.empty) rollupBlock := by
  have hapart : BlockStore.Apart (upgradeBlock [testChangeHash]) rollupBlock :=
    ⟨by decide, by decide⟩
  have hadmitted : ∀ block ∈ [upgradeBlock [testChangeHash], rollupBlock], Admitted block := by
    intro block hblock
    rcases List.mem_pair.mp hblock with rfl | rfl
    · exact admitted_upgradeBlock _
    · exact admitted_rollupBlock
  have h := sequencerBlocks_roundTrip RawStore.empty [upgradeBlock [testChangeHash], rollupBlock]
    hadmitted (List.pairwise_pair.mpr hapart) (fun block _ => optionalFree_empty block)
  exact h.1 [upgradeBlock [testChangeHash]] rollupBlock [] rfl (isOk_put_rollupBlock _)

/-- A block that leaves its optional keys unwritten is read back with what is there under its hash. -/
theorem not_readBack_stale :
    ¬ ∀ (store : RawStore) (blocks : List SequencerBlock), (∀ block ∈ blocks, Admitted block) →
      blocks.Pairwise BlockStore.Apart →
        ∀ before block after, blocks = before ++ block :: after →
          Exec.isOk (putSequencerBlock block (putAll before store)) = true →
            ReadBack (putAll blocks store) block := by
  intro h
  have hstored := stored_of_put (optionalFree_empty (upgradeBlock [testChangeHash]))
    (isOk_put_upgradeBlock RawStore.empty).1
  generalize Exec.final (putSequencerBlock (upgradeBlock [testChangeHash]) RawStore.empty) = store
    at hstored
  have hadmitted : ∀ block ∈ [upgradeBlock []], Admitted block := by
    intro block hblock
    rw [List.mem_singleton.mp hblock]
    exact admitted_upgradeBlock _
  have hback := h store [upgradeBlock []] hadmitted (List.pairwise_singleton _ _) []
    (upgradeBlock []) [] rfl (isOk_put_upgradeBlock store).2
  have hhashes := (getSequencerBlockByHash_spec
    (getSequencerBlockByHeight_eq_ok.mp hback.byHeight).2).2
  -- the second put does not write the key of the change hashes
  have hkeep := keeps_putSequencerBlock (upgradeBlock []) store
    (.upgradeChangeHashes (upgradeBlock []).blockHash) (not_written_upgrade rfl)
  have hstale : Written (putAll [upgradeBlock []] store)
      (.upgradeChangeHashes (upgradeBlock []).blockHash) (.upgradeChangeHashes [testChangeHash]) :=
    (hstored.upgradeChangeHashes (List.cons_ne_nil _ _)).of_get hkeep
  have hread : RawStore.read (putAll [upgradeBlock []] store)
      (upgradeChangeHashesByHash (upgradeBlock []).blockHash) Value.tryIntoUpgradeChangeHashes =
        some [testChangeHash] := read_of_written hstale trivial rfl
  rw [getUpgradeChangeHashes, getValue_of_read hread] at hhashes
  cases hhashes

end

end Astria.Grpc
