import Astria.Sequencer.ActionHandler.Admin
import Astria.Sequencer.TestUtils
import Mathlib.Data.Countable.Basic
import Mathlib.Logic.Equiv.List

/-!
# Recovering light clients

A light client of the IBC component that is frozen or expired is recovered by the sudo address with the
state of a substitute (`crates/astria-sequencer/src/action_handler/impls/recover_ibc_client.rs`).  What the
component reads and writes is taken from its documentation, as `PenumbraClients`.

Results:
* `RecoverIbcClient.checkAndExecute_eq_ok`: what an execution that succeeds has checked and written;
* `recoverIbcClient_sound_iff`: after it the client is usable exactly if it was not frozen.
-/

namespace Astria.Sequencer

open Astria.Core Astria.Lib Exec

/-! ## Clients of the component -/

/-- `ClientStatus`. -/
inductive ClientStatus where
  | active
  | frozen
  | expired
  | unknown
  deriving DecidableEq

section

variable [ext : External] (frozenHeight : Bytes → Option IbcHeight) (older : Bytes → ℕ → Time → Bool)

/-- `get_client_status`, with the frozen height among the other fields of a client state, and with the age
of a consensus state against a trusting period at a block time. -/
def clientStatus (id : String) (time : Time) (store : IbcStore) : ClientStatus :=
  match ext.ibcClientState id store with
  | none => .unknown
  | some client =>
    if (frozenHeight client.rest).isSome then .frozen
    else
      match ext.ibcConsensusState client.latestHeight id store with
      | none => .unknown
      | some consensusState =>
        if older consensusState client.trustingPeriod time then .expired else .active

/-- The light clients of the component: the status is as documented, and what is put is read. -/
structure PenumbraClients : Prop where
  active_iff : ∀ id time store,
    ext.ibcClientActive id time store = true ↔ clientStatus frozenHeight older id time store = .active
  client_putConsensusState : ∀ {height id consensusState host c c'},
    ext.ibcPutConsensusState height id consensusState host c = .ok () c' →
      ∀ id', ext.ibcClientState id' c'.store = ext.ibcClientState id' c.store
  consensus_putConsensusState : ∀ {height id consensusState host c c'},
    ext.ibcPutConsensusState height id consensusState host c = .ok () c' →
      ∀ height' id', ext.ibcConsensusState height' id' c'.store =
        if height' = height ∧ id' = id then some consensusState
        else ext.ibcConsensusState height' id' c.store
  client_putClient : ∀ id client c id', ext.ibcClientState id' (ext.ibcPutClient id client c).store =
    if id' = id then some client else ext.ibcClientState id' c.store
  consensus_putClient : ∀ id client c height id',
    ext.ibcConsensusState height id' (ext.ibcPutClient id client c).store =
      ext.ibcConsensusState height id' c.store

/-- What recovering a client is for: the client is active at the block time, with the latest height, the
trusting period, the chain id and the consensus state of the substitute, and no other client changed. -/
structure Recovered (act : RecoverIbcClient) (s s' : Base) : Prop where
  active : ∃ time, s'.chain.blockTimestamp = some time ∧
    clientStatus frozenHeight older act.clientId time s'.ibcStore = .active
  fields : ∃ client substitute, ext.ibcClientState act.clientId s'.ibcStore = some client ∧
    ext.ibcClientState act.replacementClientId s.ibcStore = some substitute ∧
    client.latestHeight = substitute.latestHeight ∧ client.trustingPeriod = substitute.trustingPeriod ∧
    client.chainId = substitute.chainId ∧
    ext.ibcConsensusState client.latestHeight act.clientId s'.ibcStore =
      ext.ibcConsensusState substitute.latestHeight act.replacementClientId s.ibcStore
  others : ∀ id, id ≠ act.clientId → ext.ibcClientState id s'.ibcStore = ext.ibcClientState id s.ibcStore ∧
    ∀ height, ext.ibcConsensusState height id s'.ibcStore = ext.ibcConsensusState height id s.ibcStore

end

/-! ## Executions -/

section

variable [ext : External] {act : RecoverIbcClient} {s s' : Base}

/-- The client state that is put. -/
def recoveredClient (client replacement : ClientState) : ClientState :=
  { client with
    latestHeight := replacement.latestHeight
    trustingPeriod := replacement.trustingPeriod
    chainId := replacement.chainId }

/-- What an execution has read, when it succeeds. -/
structure RecoveryReads (act : RecoverIbcClient) (s : Base) (time : Time) (client replacement : ClientState)
    (consensusState : Bytes) : Prop where
  timestamp : s.chain.blockTimestamp = some time
  inactive : ext.ibcClientActive act.clientId time s.ibcStore = false
  active : ext.ibcClientActive act.replacementClientId time s.ibcStore = true
  clientState : ext.ibcClientState act.clientId s.ibcStore = some client
  replacementState : ext.ibcClientState act.replacementClientId s.ibcStore = some replacement
  higher : IbcHeight.lt client.latestHeight replacement.latestHeight = true
  fieldsMatch : ensureRequiredClientStateFieldsMatch client replacement = .ok ()
  replacementConsensus : ext.ibcConsensusState replacement.latestHeight act.replacementClientId s.ibcStore =
    some consensusState

omit ext in
theorem validateSignerIsSudo_eq_ok {readContext message : String} {u : Unit} :
    validateSignerIsSudo readContext message s = .ok u s' ↔
      (∃ c, s.ephemeral.transactionContext = some c ∧ s.authority.sudoAddress = some c.addressBytes) ∧
        s' = s := by
  simp only [validateSignerIsSudo, bind_eq_ok, getTransactionContext_eq_ok, mapErr_eq_ok, tryReads_eq_ok,
    ensure_eq_ok, Base.getSudoAddress_eq_ok]
  constructor
  · rintro ⟨c, _, ⟨hc, rfl⟩, a, _, ⟨ha, rfl⟩, rfl, rfl⟩
    exact ⟨⟨c, hc, ha⟩, rfl⟩
  · rintro ⟨⟨c, hc, ha⟩, rfl⟩
    exact ⟨c, _, ⟨hc, rfl⟩, _, _, ⟨ha, rfl⟩, rfl, rfl⟩

omit ext in
theorem Base.getBlockTimestamp_eq_ok {time : Time} :
    s.getBlockTimestamp = .ok time ↔ s.chain.blockTimestamp = some time := by
  unfold Base.getBlockTimestamp
  cases s.chain.blockTimestamp <;> simp

/-- What an execution that succeeds has checked and written. -/
theorem RecoverIbcClient.checkAndExecute_eq_ok {u : Unit} :
    RecoverIbcClient.checkAndExecute act s = .ok u s' ↔
      (∃ c, s.ephemeral.transactionContext = some c ∧ s.authority.sudoAddress = some c.addressBytes) ∧
      ∃ time client replacement consensusState, RecoveryReads act s time client replacement consensusState ∧
        ∃ c, ext.ibcPutConsensusState replacement.latestHeight act.clientId consensusState s.hostInfo
          s.ibcComponent = .ok () c ∧
        s' = s.setIbcComponent (ext.ibcPutClient act.clientId (recoveredClient client replacement) c) := by
  simp only [RecoverIbcClient.checkAndExecute, bind_eq_ok, validateSignerIsSudo_eq_ok, mapErr_eq_ok,
    tryReads_eq_ok, Base.getBlockTimestamp_eq_ok, reads_eq_ok, ensure_eq_ok, require_eq_ok, lift_eq_ok, onIbc,
    zoom_eq_ok, writeIbc, writes_eq_ok, and_assoc, exists_and_left, exists_eq_left, exists_const]
  refine and_congr_right fun _ => ⟨?_, ?_⟩
  · rintro ⟨time, htime, hinactive, hactive, client, hclient, replacement, hreplacement, hhigher, ⟨⟩, hmatch,
      consensusState, hconsensus, _, _, ⟨c, hput, rfl⟩, rfl⟩
    exact ⟨time, client, replacement, consensusState,
      ⟨htime, hinactive, hactive, hclient, hreplacement, hhigher, hmatch, hconsensus⟩, c, hput, rfl⟩
  · rintro ⟨time, client, replacement, consensusState, hreads, c, hput, rfl⟩
    exact ⟨time, hreads.timestamp, hreads.inactive, hreads.active, client, hreads.clientState,
      replacement, hreads.replacementState, hreads.higher, (), hreads.fieldsMatch, consensusState,
      hreads.replacementConsensus, (), _, ⟨c, hput, rfl⟩, rfl⟩

variable {frozenHeight : Bytes → Option IbcHeight} {older : Bytes → ℕ → Time → Bool}

/-- An active client is not frozen, and its latest consensus state is not too old. -/
theorem clientStatus_eq_active {id : String} {time : Time} {store : IbcStore} :
    clientStatus frozenHeight older id time store = .active ↔
      ∃ client consensusState, ext.ibcClientState id store = some client ∧
        frozenHeight client.rest = none ∧
        ext.ibcConsensusState client.latestHeight id store = some consensusState ∧
        older consensusState client.trustingPeriod time = false := by
  unfold clientStatus
  cases ext.ibcClientState id store with
  | none => simp
  | some client =>
    cases hfrozen : frozenHeight client.rest with
    | some height => simp [hfrozen]
    | none =>
      cases hconsensus : ext.ibcConsensusState client.latestHeight id store with
      | none => simp [hfrozen, hconsensus]
      | some consensusState =>
        cases hold : older consensusState client.trustingPeriod time <;> simp [hfrozen, hconsensus, hold]

section

variable (client : ClientState) {replacement : ClientState} {consensusState : Bytes} {c : IbcComponent}

/-- The store after the client was put. -/
def storeAfter (act : RecoverIbcClient) (client replacement : ClientState) (c : IbcComponent) : IbcStore :=
  (ext.ibcPutClient act.clientId (recoveredClient client replacement) c).store

/-- The client states after the two writes. -/
theorem ibcClientState_storeAfter (hclients : PenumbraClients frozenHeight older)
    (hput : ext.ibcPutConsensusState replacement.latestHeight act.clientId consensusState s.hostInfo
      s.ibcComponent = .ok () c) (id : String) :
    ext.ibcClientState id (storeAfter act client replacement c) =
      if id = act.clientId then some (recoveredClient client replacement)
      else ext.ibcClientState id s.ibcStore := by
  refine (hclients.client_putClient _ _ _ _).trans ?_
  rw [hclients.client_putConsensusState hput]
  rfl

/-- The consensus states after the two writes. -/
theorem ibcConsensusState_storeAfter (hclients : PenumbraClients frozenHeight older)
    (hput : ext.ibcPutConsensusState replacement.latestHeight act.clientId consensusState s.hostInfo
      s.ibcComponent = .ok () c) (height : IbcHeight) (id : String) :
    ext.ibcConsensusState height id (storeAfter act client replacement c) =
      if height = replacement.latestHeight ∧ id = act.clientId then some consensusState
      else ext.ibcConsensusState height id s.ibcStore := by
  refine (hclients.consensus_putClient _ _ _ _ _).trans ?_
  rw [hclients.consensus_putConsensusState hput]
  rfl

end

/-- The fields that a recovery does not replace stay: a frozen client stays frozen. -/
theorem RecoverIbcClient.rest_eq (hclients : PenumbraClients frozenHeight older) {u : Unit}
    (h : RecoverIbcClient.checkAndExecute act s = .ok u s') {subject : ClientState}
    (hsubject : ext.ibcClientState act.clientId s.ibcStore = some subject) :
    ∃ client, ext.ibcClientState act.clientId s'.ibcStore = some client ∧ client.rest = subject.rest := by
  obtain ⟨-, time, client, replacement, consensusState, hreads, c, hput, rfl⟩ :=
    RecoverIbcClient.checkAndExecute_eq_ok.mp h
  obtain rfl := Option.some.inj (hreads.clientState.symm.trans hsubject)
  have hafter := ibcClientState_storeAfter client hclients hput act.clientId
  rw [if_pos rfl] at hafter
  exact ⟨recoveredClient client replacement, hafter, rfl⟩

/-- After a recovery that succeeds the client is usable exactly if it was not frozen: nothing takes its
frozen height away. -/
theorem recoverIbcClient_sound_iff (hclients : PenumbraClients frozenHeight older) {u : Unit}
    (h : RecoverIbcClient.checkAndExecute act s = .ok u s') :
    Recovered frozenHeight older act s s' ↔
      ∀ subject, ext.ibcClientState act.clientId s.ibcStore = some subject →
        frozenHeight subject.rest = none := by
  constructor
  · intro hrecovered subject hsubject
    obtain ⟨client, hclient, hrest⟩ := RecoverIbcClient.rest_eq hclients h hsubject
    obtain ⟨time, -, hactive⟩ := hrecovered.active
    obtain ⟨client', _, hclient', hfrozen, -, -⟩ := clientStatus_eq_active.mp hactive
    obtain rfl := Option.some.inj (hclient.symm.trans hclient')
    rw [← hrest]
    exact hfrozen
  · intro hfrozen
    obtain ⟨-, time, client, replacement, consensusState, hreads, c, hput, rfl⟩ :=
      RecoverIbcClient.checkAndExecute_eq_ok.mp h
    have hclient := ibcClientState_storeAfter client hclients hput
    have hconsensus := ibcConsensusState_storeAfter client hclients hput
    have hsubject := hclient act.clientId
    have hstored := hconsensus replacement.latestHeight act.clientId
    rw [if_pos rfl] at hsubject
    rw [if_pos ⟨rfl, rfl⟩] at hstored
    -- the consensus state of the substitute is not too old for its trusting period
    obtain ⟨replacement', consensusState', hreplacement', -, hconsensus', hyoung⟩ :=
      clientStatus_eq_active.mp ((hclients.active_iff _ _ _).mp hreads.active)
    obtain rfl := Option.some.inj (hreads.replacementState.symm.trans hreplacement')
    obtain rfl := Option.some.inj (hreads.replacementConsensus.symm.trans hconsensus')
    constructor
    · refine ⟨time, hreads.timestamp, clientStatus_eq_active.mpr ?_⟩
      exact ⟨_, consensusState, hsubject, hfrozen client hreads.clientState, hstored, hyoung⟩
    · exact ⟨_, replacement, hsubject, hreads.replacementState, rfl, rfl, rfl,
        hstored.trans hreads.replacementConsensus.symm⟩
    · intro id hne
      refine ⟨(hclient id).trans (if_neg hne), fun height => (hconsensus height id).trans (if_neg ?_)⟩
      exact fun hsame => hne hsame.2

end

/-! ## A component that stores its clients -/

namespace StoredClients

open TestUtils

/-- A key of the component. -/
inductive Key where
  | clientState (id : String)
  | consensusState (height : IbcHeight) (id : String)

scoped instance countableChar : Countable Char :=
  Function.Injective.countable (f := Char.toNat) fun _ _ => Char.toNat_inj.mp

scoped instance countableString : Countable String :=
  Function.Injective.countable (f := String.toList) fun _ _ => String.toList_inj.mp

scoped instance countableIbcHeight : Countable IbcHeight :=
  Function.Injective.countable (f := fun h => (h.revisionNumber, h.revisionHeight)) fun a b h => by
    cases a
    cases b
    simpa using h

scoped instance countableKey : Countable Key :=
  Function.Injective.countable
    (f := fun key => match key with
      | .clientState id => (Sum.inl id : String ⊕ IbcHeight × String)
      | .consensusState height id => Sum.inr (height, id)) fun a b h => by
    cases a <;> cases b <;> simp_all

scoped instance countableClientState : Countable ClientState :=
  Function.Injective.countable
    (f := fun c => (c.chainId, c.trustLevel, c.trustingPeriod, c.unbondingPeriod, c.maxClockDrift,
      c.latestHeight, c.proofSpecs, c.upgradePath, c.rest)) fun a b h => by
    cases a
    cases b
    simpa using h

/-- An encoding that can be decoded. -/
noncomputable def encode {α : Type} [Countable α] (a : α) : Bytes :=
  List.replicate ((exists_injective_nat α).choose a) 0

theorem encode_injective {α : Type} [Countable α] : Function.Injective (encode (α := α)) := by
  intro a b h
  have hlength := congrArg List.length h
  simp only [encode, List.length_replicate] at hlength
  exact (exists_injective_nat α).choose_spec hlength

theorem partialInv_encode {α : Type} [Countable α] (a : α) :
    Function.partialInv encode (encode a) = some a :=
  Function.partialInv_left encode_injective a

/-- The bytes of a consensus state stand for its time, and the other fields of a client state for its
frozen height, if there are any. -/
def timestamp (consensusState : Bytes) : Time := consensusState.foldl (fun n b => 256 * n + b.toNat) 0

def older (consensusState : Bytes) (trustingPeriod : ℕ) (time : Time) : Bool :=
  timestamp consensusState + trustingPeriod < time

def frozenHeight (rest : Bytes) : Option IbcHeight := if rest = [] then none else some ⟨0, 1⟩

noncomputable def readClient (id : String) (store : IbcStore) : Option ClientState :=
  (store (encode (Key.clientState id))).bind (Function.partialInv encode)

noncomputable def readConsensus (height : IbcHeight) (id : String) (store : IbcStore) : Option Bytes :=
  store (encode (Key.consensusState height id))

/-- The functions of the test runs, with a component that keeps its clients. -/
noncomputable scoped instance (priority := 2000) : External :=
  { (inferInstance : External) with
    ibcClientState := readClient
    ibcConsensusState := readConsensus
    ibcPutConsensusState := fun height id consensusState _ => writes fun c =>
      { c with
        store := Function.update c.store (encode (Key.consensusState height id)) (some consensusState) }
    ibcPutClient := fun id client c =>
      { c with store := Function.update c.store (encode (Key.clientState id)) (some (encode client)) }
    ibcClientActive := fun id time store =>
      match readClient id store with
      | none => false
      | some client =>
        (frozenHeight client.rest).isNone &&
          (readConsensus client.latestHeight id store).any fun consensusState =>
            !older consensusState client.trustingPeriod time }

theorem readClient_putClient (id id' : String) (client : ClientState) (store : IbcStore) :
    readClient id' (Function.update store (encode (Key.clientState id)) (some (encode client))) =
      if id' = id then some client else readClient id' store := by
  unfold readClient
  by_cases h : id' = id
  · rw [if_pos h, h, Function.update_self]
    exact partialInv_encode client
  · have hne : Key.clientState id' ≠ Key.clientState id := fun heq => h (Key.clientState.inj heq)
    rw [if_neg h, Function.update_of_ne (encode_injective.ne hne)]

theorem readClient_putConsensus (height : IbcHeight) (id id' : String) (value : Option Bytes)
    (store : IbcStore) :
    readClient id' (Function.update store (encode (Key.consensusState height id)) value) =
      readClient id' store := by
  have hne : Key.clientState id' ≠ Key.consensusState height id := nofun
  unfold readClient
  rw [Function.update_of_ne (encode_injective.ne hne)]

theorem readConsensus_putConsensus (height height' : IbcHeight) (id id' : String) (value : Bytes)
    (store : IbcStore) :
    readConsensus height' id' (Function.update store (encode (Key.consensusState height id)) (some value)) =
      if height' = height ∧ id' = id then some value else readConsensus height' id' store := by
  unfold readConsensus
  by_cases h : height' = height ∧ id' = id
  · rw [if_pos h, h.1, h.2, Function.update_self]
  · have hne : Key.consensusState height' id' ≠ Key.consensusState height id :=
      fun heq => h (Key.consensusState.inj heq)
    rw [if_neg h, Function.update_of_ne (encode_injective.ne hne)]

theorem readConsensus_putClient (height : IbcHeight) (id id' : String) (value : Option Bytes)
    (store : IbcStore) :
    readConsensus height id' (Function.update store (encode (Key.clientState id)) value) =
      readConsensus height id' store := by
  have hne : Key.consensusState height id' ≠ Key.clientState id := nofun
  unfold readConsensus
  rw [Function.update_of_ne (encode_injective.ne hne)]

/-- The component is as documented. -/
theorem penumbraClients : PenumbraClients frozenHeight older where
  active_iff id time store := by
    rw [clientStatus_eq_active]
    show (match readClient id store with | none => _ | some client => _) = true ↔
      ∃ client consensusState, readClient id store = some client ∧ _ ∧
        readConsensus client.latestHeight id store = some consensusState ∧ _
    cases readClient id store with
    | none => simp
    | some client =>
      simp only [Bool.and_eq_true, Option.isNone_iff_eq_none, Option.any_eq_true, Bool.not_eq_true',
        Option.some.injEq, exists_and_left, exists_eq_left']
  client_putConsensusState hput id' := by
    obtain rfl := writes_eq_ok.mp hput
    exact readClient_putConsensus _ _ _ _ _
  consensus_putConsensusState hput height' id' := by
    obtain rfl := writes_eq_ok.mp hput
    exact readConsensus_putConsensus _ _ _ _ _ _
  client_putClient id client c id' := readClient_putClient id id' client c.store
  consensus_putClient id client c height id' := readConsensus_putClient height id id' _ c.store

/-- The client that is to be recovered, which expired, with some other fields. -/
def subject (rest : Bytes) : ClientState :=
  { chainId := "celestia"
    trustLevel := [1, 3]
    trustingPeriod := 20
    unbondingPeriod := 30
    maxClockDrift := 5
    latestHeight := ⟨0, 5⟩
    proofSpecs := []
    upgradePath := ["upgrade"]
    rest := rest }

/-- Its substitute. -/
def substitute : ClientState := { subject [] with latestHeight := ⟨0, 9⟩ }

/-- The recovery of the client. -/
def recovery : RecoverIbcClient :=
  { clientId := "07-tendermint-0", replacementClientId := "07-tendermint-1" }

/-- The store of the two clients. -/
noncomputable def clientStore (rest : Bytes) : IbcStore :=
  let store := Function.update (fun _ => none) (encode (Key.clientState "07-tendermint-0"))
    (some (encode (subject rest)))
  let store := Function.update store (encode (Key.clientState "07-tendermint-1")) (some (encode substitute))
  let store := Function.update store (encode (Key.consensusState ⟨0, 5⟩ "07-tendermint-0")) (some [10])
  Function.update store (encode (Key.consensusState ⟨0, 9⟩ "07-tendermint-1")) (some [90])

/-- A transaction of the sudo address at the time 100. -/
noncomputable def twoClients (rest : Bytes) : Base :=
  { Base.empty with
    authority.sudoAddress := some judyAddress.bytes
    chain.blockTimestamp := some 100
    ephemeral.transactionContext := some
      { addressBytes := judyAddress.bytes
        transactionId := List.Vector.replicate 32 0
        positionInTransaction := 0 }
    ibcStore := clientStore rest }

theorem readClient_clientStore (rest : Bytes) :
    readClient "07-tendermint-0" (clientStore rest) = some (subject rest) ∧
      readClient "07-tendermint-1" (clientStore rest) = some substitute := by
  simp [clientStore, readClient_putClient, readClient_putConsensus]

theorem readConsensus_clientStore (rest : Bytes) :
    readConsensus ⟨0, 5⟩ "07-tendermint-0" (clientStore rest) = some [10] ∧
      readConsensus ⟨0, 9⟩ "07-tendermint-1" (clientStore rest) = some [90] := by
  simp [clientStore, readConsensus_putConsensus]

/-- The recovery succeeds, whatever the other fields of the client. -/
theorem recovery_succeeds (rest : Bytes) :
    ∃ s', RecoverIbcClient.checkAndExecute recovery (twoClients rest) = .ok () s' := by
  obtain ⟨hsubject, hsubstitute⟩ := readClient_clientStore rest
  obtain ⟨hold, hyoung⟩ := readConsensus_clientStore rest
  refine ⟨_, RecoverIbcClient.checkAndExecute_eq_ok.mpr ⟨⟨_, rfl, rfl⟩, 100, subject rest, substitute, [90],
    ?_, _, rfl, rfl⟩⟩
  constructor
  · rfl
  · refine Bool.eq_false_iff.mpr fun hactive => ?_
    obtain ⟨client, consensusState, hclient, -, hconsensus, hage⟩ :=
      clientStatus_eq_active.mp ((penumbraClients.active_iff _ _ _).mp hactive)
    obtain rfl := Option.some.inj (hsubject.symm.trans hclient)
    obtain rfl := Option.some.inj (hold.symm.trans hconsensus)
    cases hage
  · exact (penumbraClients.active_iff _ _ _).mpr
      (clientStatus_eq_active.mpr ⟨substitute, [90], hsubstitute, rfl, hyoung, rfl⟩)
  · exact hsubject
  · exact hsubstitute
  · rfl
  · rfl
  · exact hyoung

/-- The client is usable again if it only expired. -/
theorem recoverIbcClient_sound_expired :
    ∃ s', RecoverIbcClient.checkAndExecute recovery (twoClients []) = .ok () s' ∧
      Recovered frozenHeight older recovery (twoClients []) s' := by
  obtain ⟨s', hexec⟩ := recovery_succeeds []
  refine ⟨s', hexec, (recoverIbcClient_sound_iff penumbraClients hexec).mpr ?_⟩
  intro client hclient
  obtain rfl := Option.some.inj ((readClient_clientStore []).1.symm.trans hclient)
  rfl

/-- It is not if it was frozen. -/
theorem not_recovered_frozen :
    ∃ s', RecoverIbcClient.checkAndExecute recovery (twoClients [1]) = .ok () s' ∧
      ¬Recovered frozenHeight older recovery (twoClients [1]) s' := by
  obtain ⟨s', hexec⟩ := recovery_succeeds [1]
  refine ⟨s', hexec, fun hrecovered => ?_⟩
  obtain ⟨client, hclient, hrest⟩ :=
    RecoverIbcClient.rest_eq penumbraClients hexec (readClient_clientStore [1]).1
  obtain ⟨time, -, hactive⟩ := hrecovered.active
  obtain ⟨client', _, hclient', hfrozen, -, -⟩ := clientStatus_eq_active.mp hactive
  obtain rfl := Option.some.inj (hclient.symm.trans hclient')
  rw [hrest] at hfrozen
  cases hfrozen

end StoredClients

end Astria.Sequencer
