import Astria.Sequencer.Block
import Astria.Sequencer.Frame

/-!
# What a block leaves

As for transactions, a relation between states that is kept by every write around the transactions of a
block is kept by the whole block, but for the upgrade that is executed first.

Results:
* `executeBlock_keeps`: what a block keeps behind the upgrade.
-/

namespace Astria.Sequencer

open Astria.Core Astria.Lib Exec

/-- `R` is kept by what happens before and after the transactions of a block. -/
structure BlockWrites (R : Base → Base → Prop) : Prop where
  blockTimestamp : ∀ time s, R s (s.putBlockTimestamp time)
  validatorSet : ∀ set s, R s (s.preAspenPutValidatorSet set)
  deleteValidator : ∀ a s, R s (s.deleteValidator a)
  validatorCount : ∀ n s, R s (s.putValidatorCount n)
  clearValidatorUpdates : ∀ s : Base, R s s.clearBlockValidatorUpdates
  balance : ∀ a i n s, R s (s.putAccountBalance a i n)
  deposits : ∀ hash s, R s (s.putDeposits hash)
  sequencerBlock : ∀ hash block s, R s (s.putSequencerBlock hash block)
  consensusParams : ∀ params s, R s (s.putConsensusParams params)
  result : ∀ result s, R s (s.putPostTransactionExecutionResult result)
  events : ∀ (events : List Event) (s : Base), R s { s with ephemeral.events := events }
  ibcComponent : ∀ c s, R s (s.setIbcComponent c)

section

variable [ext : External] {R : Base → Base → Prop} [IsPreorder Base R]

/-- What the beginning of a block keeps once the height is written. -/
theorem beginBlock_keeps (hR : BlockWrites R) {request : BeginBlock} {s s' : Base} {u : Unit}
    (h : beginBlock request s = .ok u s') : R (s.putBlockHeight request.block.height) s' := by
  have hremove (a : AddressBytes) : Keeps R (removeValidator a) := by
    refine Keeps.bind (by simp) fun _ => Keeps.ite ?_ (by simp)
    exact Keeps.bind (keeps_writes fun _ => hR.deleteValidator _ _) fun _ => by simp
  have hmisbehaving (m : Misbehavior) : Keeps R (removeMisbehaving m) := by
    refine Keeps.bind ((hremove _).mapErr _) fun _ => Keeps.ite ?_ (by simp)
    exact Keeps.bind (by simp) fun _ => keeps_writes fun _ => hR.validatorCount _ _
  have hauthority (l : List Misbehavior) : Keeps R (authorityBeginBlock l) := by
    refine Keeps.bind (by simp) fun _ => Keeps.ite ?_ (Keeps.forEach hmisbehaving l)
    exact Keeps.bind (by simp) fun _ => keeps_writes fun _ => hR.validatorSet _ _
  have hrest : Keeps R (do
      writes (Base.putBlockTimestamp request.block.time)
      wrapErr "begin_block failed on AuthorityComponent" (authorityBeginBlock request.block.misbehavior)
      ibcBeginBlock request) := by
    refine Keeps.bind (keeps_writes fun _ => hR.blockTimestamp _ _) fun _ => ?_
    refine Keeps.bind ((hauthority _).mapErr _) fun _ => Keeps.bind (keeps_reads _) fun _ => ?_
    exact keeps_writeIbc hR.ibcComponent _
  exact hrest.of_ok (s := s.putBlockHeight request.block.height) h

theorem endBlock_keeps (hR : BlockWrites R) (recipient : AddressBytes) :
    Keeps R (endBlock recipient) := by
  have hauthority : Keeps R authorityEndBlock := by
    refine Keeps.bind (by simp) fun _ => Keeps.ite ?_ (by simp)
    refine Keeps.bind (by simp) fun _ => Keeps.bind (by simp) fun _ => ?_
    exact keeps_writes fun _ => hR.validatorSet _ _
  refine Keeps.bind (hauthority.mapErr _) fun _ => Keeps.bind (by simp) fun _ => ?_
  refine Keeps.bind (keeps_writes fun _ => hR.clearValidatorUpdates _) fun _ => ?_
  refine Keeps.bind (by simp) fun fees => Keeps.bind (Keeps.forEach (fun fee => ?_) fees) fun _ => ?_
  · exact (keeps_increaseBalance hR.balance _ _ _).mapErr _
  · exact keeps_pure _

theorem storeBlock_keeps [BlockCodec] (hR : BlockWrites R) (handler : UpgradesHandler)
    (chainId : String) (post : PostExecution) (updates : List CometbftValidatorUpdate)
    (events : List Event) : Keeps R (storeBlock handler chainId post updates events) := by
  have hupgrades : Keeps R (handler.endBlock post.height) := by
    unfold UpgradesHandler.endBlock
    cases handler.upgrades.upgradeActivatingAtHeight post.height with
    | none => exact keeps_pure _
    | some aspen =>
      refine Keeps.bind (by simp) fun _ => ?_
      exact Keeps.bind (keeps_writes fun _ => hR.consensusParams _ _) fun _ => keeps_pure _
  refine Keeps.bind (by simp) fun _ => Keeps.bind (keeps_writes fun _ => hR.deposits _ _) fun _ => ?_
  refine Keeps.bind (by simp) fun _ => ?_
  refine Keeps.bind (keeps_writes fun _ => hR.sequencerBlock _ _ _) fun _ => ?_
  exact Keeps.bind hupgrades fun _ => keeps_writes fun _ => hR.result _ _

theorem postExecuteTransactions_keeps [BlockCodec] (hR : BlockWrites R) {handler : UpgradesHandler}
    {post : PostExecution} {s s' : State} {u : Unit}
    (h : postExecuteTransactions handler post s = .ok u s') : R s.base s'.base := by
  obtain ⟨chainId, recipient, updates, b, c, -, -, hend, hstore, rfl⟩ :=
    postExecuteTransactions_eq_ok.mp h
  have hend' : R s.base b := trans_of R (hR.events [] s.base) ((endBlock_keeps hR recipient).of_ok hend)
  have hstore' : R b c := trans_of R (hR.events [] b)
    ((storeBlock_keeps hR handler chainId post updates _).of_ok hstore)
  exact trans_of R hend' (trans_of R hstore' (hR.events s.base.ephemeral.events c))

variable [TransactionCodec]

theorem finalizeTransactions_keeps (hadmin : AdminWrites R) (hfunds : FundsWrites R)
    (hconfig : ConfigWrites R) (htx : TransactionWrites R) (txs : List Transaction) (s : State) :
    R s.base (finalizeTransactions txs s).2.base := by
  induction txs generalizing s with
  | nil => exact refl_of R s.base
  | cons tx rest ih =>
    have hfirst : R s.base (finalizeTransaction tx s).2.base := by
      rw [finalizeTransaction_snd]
      exact executeTransaction_keeps hadmin hfunds hconfig htx tx s
    exact trans_of R hfirst (ih _)

/-- A block keeps what its writes keep, from the state that the upgrade leads to, with the height of the
block. -/
theorem executeBlock_keeps [UpgradeCodec] [BlockCodec] (hR : BlockWrites R) (hadmin : AdminWrites R)
    (hfunds : FundsWrites R) (hconfig : ConfigWrites R) (htx : TransactionWrites R)
    {handler : UpgradesHandler} {appHash : Bytes32} {block : Block} {s s' : State} {u : Unit}
    (h : executeBlock handler appHash block s = .ok u s') :
    ∃ hashes t, executeUpgradeIfDue handler.upgrades block.data.height (s.withEvents []) =
        .ok hashes t ∧
      R (t.base.putBlockHeight block.data.height) s'.base := by
  obtain ⟨hashes, q, hpre, hpost⟩ := executeBlock_ok h
  simp only [preExecuteTransactions, bind_eq_ok, mapErr_eq_ok, pure_eq_ok, applyDelta_onBase_eq_ok,
    onBase_tryReads_eq_ok] at hpre
  obtain ⟨_, _, hdelta, chainId, _, ⟨-, rfl⟩, _, _, ⟨b, hbegin, -, rfl⟩, -, rfl⟩ := hpre
  obtain ⟨changes, t, hupgrade, rfl, rfl⟩ := applyDelta_eq_ok.mp hdelta
  refine ⟨changes, t, hupgrade, ?_⟩
  have hbegin' : R (t.base.putBlockHeight block.data.height) b :=
    trans_of R (hR.events [] (t.base.putBlockHeight block.data.height)) (beginBlock_keeps hR hbegin)
  have hrun := finalizeTransactions_keeps hadmin hfunds hconfig htx
    block.expanded.userSubmittedTransactions
    { base := { b with ephemeral.events := s.base.ephemeral.events }, oracle := t.oracle }
  refine trans_of R hbegin' (trans_of R (hR.events s.base.ephemeral.events b) (trans_of R hrun ?_))
  exact postExecuteTransactions_keeps hR hpost

end

end Astria.Sequencer
